/-
# TL strings in messages

`rwm_to_tl_string` puts a length in front of a message and zero bytes behind it, and
`rwm_from_tl_string` takes them off again.

The length is pushed to the front from the field `total_bytes` itself, which the push updates when
it writes the three bytes of a long length in two pieces.  This is the case when one or two bytes
are free in front of the first part (`LengthTorn`), and then the length is wrong.

* `rwmToTlString_iff`: the message becomes the TL string of its bytes, and can be turned back, if
  and only if the length is not torn.
-/
import MtprotoProxy.MsgBlocks
import MtprotoProxy.MsgGrow

namespace MtprotoProxy

open CLib

/-! ## TL strings -/

/-- The length of a TL string: one byte, or `0xfe` and three bytes. -/
def tlLength (n : ℕ) : Bytes := if n < 0xfe then leBytes 1 n else 0xfe :: leBytes 3 n

/-- Zero bytes up to a multiple of four. -/
def tlZeros (pos : ℕ) : Bytes := List.replicate ((4 - pos % 4) % 4) 0

/-- **The TL string** of some bytes that starts at the place `pos`. -/
def tlStringAt (pos : ℕ) (bs : Bytes) : Bytes :=
  tlLength bs.length ++ bs ++ tlZeros (pos + (tlLength bs.length ++ bs).length)

theorem length_tlZeros (pos : ℕ) : (tlZeros pos).length = (4 - pos % 4) % 4 :=
  List.length_replicate

namespace MsgHeap

variable (H : MsgHeap)

/-- `assert (rwm_push_data_front (raw, data, n) == n)`. -/
def pushFrontAll (raw : RawMessage) (data : ℕ → Bytes) (n : ℕ) : Option (MsgHeap × RawMessage) := do
  let (H, raw, k) ← H.rwmPushDataFrontFrom raw data n
  if k = n then some (H, raw) else none

/-- The length in front: one byte or three bytes at `&raw->total_bytes`. -/
def pushTlLength (raw : RawMessage) : Option (MsgHeap × RawMessage) :=
  if raw.totalBytes < 0xfe then H.pushFrontAll raw (leBytes 4) 1
  else do
    let (H, raw) ← H.pushFrontAll raw (leBytes 4) 3
    H.pushFrontAll raw (fun _ => leBytes 4 0xfe) 1

/-- `rwm_to_tl_string`. -/
def rwmToTlString (raw : RawMessage) : Option (MsgHeap × RawMessage) := do
  let (H, raw) ← H.pushTlLength raw
  -- `(-raw->total_bytes) & 3`
  let pad := (-(raw.totalBytes : ℤ) % 4).toNat
  if pad = 0 then some (H, raw)
  else do
    let (H, raw, k) ← H.rwmPushDataCount raw (some (slice (leBytes 4 0) 0 pad)) pad
    if k = pad then some (H, raw) else none

/-- The length at the front is taken off: `rwm_fetch_data (raw, &x, 1)`, and three bytes more. -/
def fetchTlLength (raw : RawMessage) : Option (MsgHeap × RawMessage × ℕ) := do
  let (H, raw, x) ← H.rwmFetchData raw 1
  if x.length ≠ 1 ∨ leWord x = 0xff then none
  else if leWord x = 0xfe then
    if raw.totalBytes < 3 then none
    else do
      let (H, raw, x) ← H.rwmFetchData raw 3
      if x.length = 3 then some (H, raw, leWord x) else none
  else some (H, raw, leWord x)

/-- `rwm_from_tl_string`. -/
def rwmFromTlString (raw : RawMessage) : Option (MsgHeap × RawMessage) :=
  if raw.totalBytes = 0 then none
  else do
    let (H, raw, x) ← H.fetchTlLength raw
    if raw.totalBytes < x then none else H.rwmTrunc raw x

/-- Nothing else uses the first part or its buffer. -/
def Alone (raw : RawMessage) : Prop :=
  ∃ f mf X, raw.first = some f ∧ H.parts.cell f = some mf ∧ H.buffers.cell mf.part = some X ∧
    mf.refcnt = 1 ∧ X.refcnt = 1

/-- The three bytes of the length are written in two pieces. -/
def LengthTorn (raw : RawMessage) : Prop :=
  0xfe ≤ raw.totalBytes ∧ H.Alone raw ∧ (raw.firstOffset = 1 ∨ raw.firstOffset = 2)

/-- A message becomes the TL string of its bytes, and then what it was; the other messages stay as
they are. -/
def TlWrapped (r : ℕ → ℕ) (raw : RawMessage) (bs : Bytes) : Prop :=
  ∃ H' raw' H'' raw'', H.rwmToTlString raw = some (H', raw') ∧ Owns H' r raw' (tlStringAt 0 bs) ∧
    H'.rwmFromTlString raw' = some (H'', raw'') ∧ Owns H'' r raw'' bs ∧ Frame True r H H''

variable {H} {H' : MsgHeap} {r : ℕ → ℕ} {raw : RawMessage} {bs : Bytes}

/-! ## Data that may change while it is pushed -/

theorem pushFrontFromLoop_zero (data : ℕ → Bytes) (n : ℕ) (H : MsgHeap) (raw : RawMessage) :
    pushFrontFromLoop data n H raw 0 = some (H, raw) := by
  cases n with
  | zero => exact if_pos rfl
  | succ n => exact if_pos rfl

/-- One new part takes all of a few bytes. -/
theorem pushFrontFromLoop_few {data data' : ℕ → Bytes} (n m : ℕ) (H : MsgHeap) (raw : RawMessage)
    (hm : m ≤ msgSmallBuffer)
    (hdata : slice (data raw.totalBytes) 0 m = slice (data' raw.totalBytes) 0 m) :
    pushFrontFromLoop data n H raw m = pushFrontFromLoop data' n H raw m := by
  cases n with
  | zero => rfl
  | succ n =>
    unfold pushFrontFromLoop
    have hsize : m ≤ bufferSize (if msgSmallBuffer ≤ m then msgStdBuffer else msgSmallBuffer) := by
      unfold msgSmallBuffer at hm
      unfold bufferSize msgSmallBuffer msgStdBuffer
      split_ifs <;> omega
    dsimp only
    rw [min_eq_right hsize, Nat.sub_self, hdata, pushFrontFromLoop_zero, pushFrontFromLoop_zero]

/-- **`rwm_lock_first_part`** leaves a first part that is written in place when nothing else used
it before. -/
theorem rwmLockFirstPart_alone {n f l s e : ℕ} (hinv : Inv H (fun q => ref (some f) q + r q))
    (hspan : Span H n f s l e bs) : ∃ H' f' l' mf' X',
      H.rwmLockFirstPart none ⟨some f, some l, bs.length, s, e⟩
        = some (H', ⟨some f', some l', bs.length, s, e⟩) ∧
      H'.parts.cell f' = some mf' ∧ H'.buffers.cell mf'.part = some X' ∧
      (X'.refcnt = 1 ∧ mf'.refcnt = 1 ↔ H.Alone ⟨some f, some l, bs.length, s, e⟩) := by
  obtain ⟨mf, X, hf, hX, hoff, hle⟩ := hspan.cell_first
  have halone : H.Alone ⟨some f, some l, bs.length, s, e⟩ ↔ X.refcnt = 1 ∧ mf.refcnt = 1 := by
    constructor
    · rintro ⟨f₀, m₀, X₀, hf₀, hm₀, hX₀, hm₁, hX₁⟩
      obtain rfl := Option.some.inj hf₀
      obtain rfl := Option.some.inj (hf.symm.trans hm₀)
      obtain rfl := Option.some.inj (hX.symm.trans hX₀)
      exact ⟨hX₁, hm₁⟩
    · rintro ⟨hX₁, hm₁⟩
      exact ⟨f, mf, X, rfl, hf, hX, hm₁, hX₁⟩
  rw [halone]
  have hcounted := hinv.counted f mf hf
  have hbuffer := hinv.bufferCounted _ X hX
  unfold rwmLockFirstPart
  simp only [hf, Option.bind_eq_bind, Option.bind_some]
  by_cases hone : mf.refcnt = 1
  · rw [if_pos hone]
    exact ⟨_, f, l, { mf with offset := s }, X, rfl, cell_setPart_self hf, hX, Iff.rfl⟩
  · rw [if_neg hone]
    by_cases hsame : mf.offset = s
    · rw [if_pos hsame]
      exact ⟨H, f, l, mf, X, rfl, hf, hX, Iff.rfl⟩
    · -- the new part has the buffer of the old one, which stays
      rw [if_neg hsame, msgBufferIncref_eq hX, Option.bind_some]
      have hshared : ¬ (X.refcnt + 1 = 1 ∧ 1 = 1) := by omega
      have hother : ¬ (X.refcnt = 1 ∧ mf.refcnt = 1) := fun h => hone h.2
      by_cases hlast : l = f
      · have hf₁ : (H.sharedPart mf.part X none s e).parts.cell f = some mf := cell_sharedPart hf
        have hne : H.parts.size ≠ f := (Store.lt_size hf).ne'
        have hX₁ : (H.sharedPart mf.part X none s e).buffers.cell mf.part
            = some { X with refcnt := X.refcnt + 1 } := buffer_sharedPart hX
        refine ⟨(H.sharedPart mf.part X none s e).setPart f { mf with refcnt := mf.refcnt - 1 },
          H.parts.size, H.parts.size, ⟨1, none, mf.part, s, e⟩, { X with refcnt := X.refcnt + 1 },
          ?_, (cell_setPart_ne hne).trans cell_sharedPart_self,
          hX₁, iff_of_false hshared hother⟩
        · rw [if_pos (congrArg some hlast)]
          have hdec := msgPartDecref_many hf₁ (by omega)
          unfold sharedPart at hdec
          rw [hdec]
          rfl
      · obtain ⟨q, hq, hcell⟩ : ∃ q, mf.next = some q ∧ ∃ mq, H.parts.cell q = some mq := by
          cases hspan with
          | last => exact absurd rfl hlast
          | @step _ _ _ q _ _ mp₀ mq _ _ hp₀ _ _ _ hnext hq _ =>
            obtain rfl := Option.some.inj (hf.symm.trans hp₀)
            exact ⟨q, hnext, mq, hq⟩
        obtain ⟨mq, hmq⟩ := hcell
        have hqf : f ≠ q := by
          rintro rfl
          exact hinv.not_cycle ⟨mf, hf, hq⟩ Relation.ReflTransGen.refl
        have hf₁ : (H.setPart q { mq with refcnt := mq.refcnt + 1 }).parts.cell f = some mf :=
          (cell_setPart_ne hqf).trans hf
        have hX₁ : (H.setPart q { mq with refcnt := mq.refcnt + 1 }).buffers.cell mf.part
            = some X := hX
        have hinc : (H.setBuffer mf.part { X with refcnt := X.refcnt + 1 }).msgPartIncref q
            = some ((H.setPart q { mq with refcnt := mq.refcnt + 1 }).setBuffer mf.part
              { X with refcnt := X.refcnt + 1 }) := by
          unfold msgPartIncref
          rw [show (H.setBuffer mf.part { X with refcnt := X.refcnt + 1 }).parts.cell q = some mq
            from hmq]
          rfl
        have hf₂ : ((H.setPart q { mq with refcnt := mq.refcnt + 1 }).sharedPart mf.part X (some q)
            s mf.dataEnd).parts.cell f = some mf := cell_sharedPart hf₁
        have hX₂ : ((H.setPart q { mq with refcnt := mq.refcnt + 1 }).sharedPart mf.part X (some q)
            s mf.dataEnd).buffers.cell mf.part = some { X with refcnt := X.refcnt + 1 } :=
          buffer_sharedPart hX₁
        have hne : H.parts.size ≠ f := (Store.lt_size hf).ne'
        have hdec := msgPartDecref_many hf₂ (by omega)
        refine ⟨((H.setPart q { mq with refcnt := mq.refcnt + 1 }).sharedPart mf.part X (some q) s
            mf.dataEnd).setPart f { mf with refcnt := mf.refcnt - 1 },
          H.parts.size, l, ⟨1, some q, mf.part, s, mf.dataEnd⟩, { X with refcnt := X.refcnt + 1 },
          ?_, ?_, hX₂, iff_of_false hshared hother⟩
        · rw [if_neg (fun h => hlast (Option.some.inj h))]
          apply (congrArg (fun x => Option.bind x _) hq).trans
          rw [Option.bind_some, hinc, Option.bind_some]
          unfold sharedPart at hdec
          rw [hdec]
          rfl
        · apply (cell_setPart_ne hne).trans
          have hsize : H.parts.size = (H.setPart q { mq with refcnt := mq.refcnt + 1 }).parts.size :=
            (Store.size_put _ _).symm
          rw [hsize]
          exact cell_sharedPart_self

/-- What `m` bytes of data are in front of a message of `t` bytes, when the last `k` of them are
written first. -/
def inPieces (data : ℕ → Bytes) (t m k : ℕ) : Bytes :=
  slice (data (t + k)) 0 (m - k) ++ slice (data t) (m - k) k

section InPieces

variable {data : ℕ → Bytes} {t m k : ℕ}

theorem length_inPieces (hlen : ∀ t, m ≤ (data t).length) (hk : k ≤ m) :
    (inPieces data t m k).length = m := by
  unfold inPieces
  rw [List.length_append, length_slice _ _ _ (by have := hlen (t + k); omega),
    length_slice _ _ _ (by have := hlen t; omega)]
  omega

theorem slice_inPieces_back (hlen : ∀ t, m ≤ (data t).length) (hk : k ≤ m) :
    slice (inPieces data t m k) (m - k) k = slice (data t) (m - k) k := by
  have hfront : (slice (data (t + k)) 0 (m - k)).length = m - k :=
    length_slice _ _ _ (by have := hlen (t + k); omega)
  have hback : (slice (data t) (m - k) k).length = k :=
    length_slice _ _ _ (by have := hlen t; omega)
  change ((slice (data (t + k)) 0 (m - k) ++ slice (data t) (m - k) k).drop (m - k)).take k = _
  rw [List.drop_left' hfront]
  exact List.take_of_length_le hback.le

theorem slice_inPieces_front (hlen : ∀ t, m ≤ (data t).length) (hk : k ≤ m) :
    slice (inPieces data t m k) 0 (m - k) = slice (data (t + k)) 0 (m - k) := by
  have hfront : (slice (data (t + k)) 0 (m - k)).length = m - k :=
    length_slice _ _ _ (by have := hlen (t + k); omega)
  exact List.take_left' hfront

theorem inPieces_zero : inPieces data t m 0 = slice (data t) 0 m := by
  unfold inPieces
  rw [Nat.add_zero, Nat.sub_zero, show slice (data t) m 0 = [] from List.take_zero, List.append_nil]

end InPieces

/-- **A few bytes are pushed** to the front while the message changes: what fits in front of a
first part that nothing else uses is written before the rest. -/
theorem pushFrontAll_spec {data : ℕ → Bytes} {m : ℕ} (h : Owns H r raw bs) (hpos : 0 < m)
    (hm : m ≤ msgSmallBuffer) (hlen : ∀ t, m ≤ (data t).length) :
    ∃ k H' raw', H.pushFrontAll raw data m = some (H', raw') ∧ k ≤ m ∧
      Owns H' r raw' (inPieces data bs.length m k ++ bs) ∧ Frame False r H H' ∧
      (H.Alone raw → k = min raw.firstOffset m) ∧ (¬ H.Alone raw → k = 0) := by
  obtain ⟨k, hk, hfrom, halone, hshared⟩ : ∃ k, k ≤ m ∧
      H.pushFrontFrom raw data m = H.pushFrontFrom raw (fun _ => inPieces data bs.length m k) m ∧
      (H.Alone raw → k = min raw.firstOffset m) ∧ (¬ H.Alone raw → k = 0) := by
    have hnew (H : MsgHeap) (raw : RawMessage) (ht : raw.totalBytes = bs.length) :
        pushFrontFromLoop data m H raw m
          = pushFrontFromLoop (fun _ => inPieces data bs.length m 0) m H raw m := by
      have hfront := slice_inPieces_front (t := bs.length) (k := 0) hlen (Nat.zero_le m)
      rw [Nat.sub_zero, Nat.add_zero] at hfront
      exact pushFrontFromLoop_few m m H raw hm (by rw [hfront, ht])
    obtain ⟨hinv, hholds⟩ := h
    unfold pushFrontFrom
    cases hholds with
    | clean =>
      refine ⟨0, Nat.zero_le m, hnew H rwmClean rfl, ?_, fun _ => rfl⟩
      rintro ⟨f, mf, X, hf, -⟩
      cases hf
    | @chain n f l s e bs hspan =>
      obtain ⟨H₁, f₁, l₁, mf, X, hlock, hf, hX, halone⟩ := rwmLockFirstPart_alone hinv hspan
      simp only [hlock, hf, hX, some_bind]
      by_cases hone : X.refcnt = 1 ∧ mf.refcnt = 1
      · refine ⟨min s m, Nat.min_le_right s m, ?_, fun _ => rfl,
          fun hno => absurd (halone.mp hone) hno⟩
        rw [if_pos hone, if_pos hone, slice_inPieces_back hlen (Nat.min_le_right s m)]
        apply pushFrontFromLoop_few m _ _ _ (by omega)
        exact (slice_inPieces_front hlen (Nat.min_le_right s m)).symm
      · refine ⟨0, Nat.zero_le m, ?_, fun hyes => absurd (halone.mpr hyes) hone, fun _ => rfl⟩
        rw [if_neg hone, if_neg hone]
        exact hnew _ _ rfl
  have hlength := length_inPieces (t := bs.length) hlen hk
  obtain ⟨H', raw', hconst, -, howns, hfr⟩ :=
    rwmPushDataFront_spec (inPieces data bs.length m k) h
  refine ⟨k, H', raw', ?_, hk, howns, hfr, halone, hshared⟩
  rw [hlength] at hconst
  unfold pushFrontAll
  have hpush : H.rwmPushDataFrontFrom raw data m = some (H', raw', m) := by
    unfold rwmPushDataFrontFrom at hconst ⊢
    rw [if_neg hpos.ne'] at hconst ⊢
    rwa [hfrom]
  rw [hpush, some_bind]
  exact if_pos rfl

/-! ## The length in front -/

/-- One byte of the length is never torn. -/
theorem inPieces_one {data : ℕ → Bytes} {t k : ℕ} (hk : k ≤ 1) :
    inPieces data t 1 k = slice (data t) 0 1 := by
  interval_cases k
  · exact inPieces_zero
  · rfl

/-- Three bytes are, unless they are written at once. -/
theorem inPieces_three {t k : ℕ} (hk : k ≤ 3) :
    inPieces (leBytes 4) t 3 k = leBytes 3 t ↔ k = 0 ∨ k = 3 := by
  have hbyte {n : ℕ} (hn : n = 1 ∨ n = 2) : UInt8.ofNat (t + n) ≠ UInt8.ofNat t := by
    intro h
    have hmod := congrArg UInt8.toNat h
    rw [UInt8.toNat_ofNat', UInt8.toNat_ofNat'] at hmod
    omega
  interval_cases k
  · exact iff_of_true rfl (.inl rfl)
  · exact iff_of_false (fun h => hbyte (.inl rfl) (List.cons.inj h).1) (by omega)
  · exact iff_of_false (fun h => hbyte (.inr rfl) (List.cons.inj h).1) (by omega)
  · exact iff_of_true rfl (.inr rfl)

/-- **The length is put in front**; it is the right one unless it is torn. -/
theorem pushTlLength_spec (h : Owns H r raw bs) :
    ∃ len H' raw', H.pushTlLength raw = some (H', raw') ∧ Owns H' r raw' (len ++ bs) ∧
      Frame False r H H' ∧ len.length = (tlLength bs.length).length ∧
      (len = tlLength bs.length ↔ ¬ H.LengthTorn raw) := by
  have htotal := h.holds.totalBytes
  have hlen (n : ℕ) (hn : n ≤ 4) (t : ℕ) : n ≤ (leBytes 4 t).length := by
    rwa [length_leBytes]
  unfold pushTlLength tlLength
  rw [htotal]
  by_cases hshort : bs.length < 0xfe
  · obtain ⟨k, H', raw', hrun, hk, howns, hfr, -, -⟩ :=
      pushFrontAll_spec h one_pos (by decide) (hlen 1 (by omega))
    rw [inPieces_one hk] at howns
    rw [if_pos hshort, if_pos hshort]
    refine ⟨leBytes 1 bs.length, H', raw', hrun, howns, hfr, rfl, iff_of_true rfl ?_⟩
    rintro ⟨hlong, -⟩
    omega
  · obtain ⟨k, H₁, raw₁, hrun, hk, howns, hfr, halone, hshared⟩ :=
      pushFrontAll_spec h (by decide : 0 < 3) (by decide) (hlen 3 (by omega))
    obtain ⟨k', H₂, raw₂, hrun', hk', howns', hfr', -, -⟩ :=
      pushFrontAll_spec howns one_pos (by decide) (fun _ => hlen 1 (by omega) 0xfe)
    rw [inPieces_one hk'] at howns'
    rw [if_neg hshort, if_neg hshort, hrun]
    refine ⟨0xfe :: inPieces (leBytes 4) bs.length 3 k, H₂, raw₂, hrun', howns', hfr.trans hfr', ?_,
      ?_⟩
    · rw [List.length_cons, List.length_cons, length_inPieces (hlen 3 (by omega)) hk,
        length_leBytes]
    · rw [List.cons_inj_right, inPieces_three hk]
      unfold LengthTorn
      by_cases hone : H.Alone raw
      · have hk₀ := halone hone
        simp only [hone, true_and]
        omega
      · exact iff_of_true (.inl (hshared hone)) (fun h => hone h.2.1)

/-- **The length is taken off.** -/
theorem fetchTlLength_spec {n : ℕ} (hn : n < 2 ^ 24) (h : Owns H r raw (tlLength n ++ bs)) :
    ∃ H' raw', H.fetchTlLength raw = some (H', raw', n) ∧ Owns H' r raw' bs ∧
      Frame False r H H' := by
  obtain ⟨H₁, raw₁, hrun, howns, hfr⟩ := rwmFetchData_spec 1 h
  unfold fetchTlLength
  rw [hrun, Option.bind_eq_bind, Option.bind_some]
  unfold tlLength at howns ⊢
  by_cases hshort : n < 0xfe
  · have hword : leWord (leBytes 1 n) = n := by
      rw [leWord_leBytes]
      omega
    rw [if_pos hshort] at howns ⊢
    have htake : (leBytes 1 n ++ bs).take 1 = leBytes 1 n := rfl
    rw [htake]
    dsimp only
    rw [hword, length_leBytes, if_neg (by omega), if_neg (by omega)]
    exact ⟨H₁, raw₁, rfl, howns, hfr⟩
  · rw [if_neg hshort] at howns ⊢
    have htake : (0xfe :: leBytes 3 n ++ bs).take 1 = [0xfe] := rfl
    have hrest : (0xfe :: leBytes 3 n ++ bs).drop 1 = leBytes 3 n ++ bs := rfl
    rw [hrest] at howns
    have htotal := howns.holds.totalBytes
    rw [List.length_append, length_leBytes] at htotal
    obtain ⟨H₂, raw₂, hrun', howns', hfr'⟩ := rwmFetchData_spec 3 howns
    rw [List.take_left' (length_leBytes 3 n)] at hrun'
    rw [List.drop_left' (length_leBytes 3 n)] at howns'
    rw [htake]
    dsimp only
    have hword : leWord (leBytes 3 n) = n := (leWord_leBytes 3 n).trans (Nat.mod_eq_of_lt hn)
    rw [if_neg (by decide), if_pos (by decide), if_neg (by omega), hrun', Option.bind_some,
      if_pos (length_leBytes 3 n), hword]
    exact ⟨H₂, raw₂, rfl, howns', hfr.trans hfr'⟩

/-! ## Strings in messages -/

/-- **`rwm_from_tl_string`** leaves the bytes of a TL string. -/
theorem rwmFromTlString_spec (hn : bs.length < 2 ^ 24) (h : Owns H r raw (tlStringAt 0 bs)) :
    ∃ H' raw', H.rwmFromTlString raw = some (H', raw') ∧ Owns H' r raw' bs ∧
      Frame False r H H' := by
  have htotal := h.holds.totalBytes
  unfold tlStringAt at h htotal
  rw [List.append_assoc] at h
  obtain ⟨H₁, raw₁, hrun, howns, hfr⟩ := fetchTlLength_spec hn h
  have htotal₁ := howns.holds.totalBytes
  obtain ⟨H₂, raw₂, htrunc, howns', hfr'⟩ := rwmTrunc_spec bs.length howns
  rw [List.take_left] at howns'
  refine ⟨H₂, raw₂, ?_, howns', hfr.trans hfr'⟩
  have hpos : 0 < (tlLength bs.length).length := by
    unfold tlLength
    split_ifs <;> exact Nat.succ_pos _
  rw [List.length_append] at htotal₁
  rw [List.length_append, List.length_append] at htotal
  unfold rwmFromTlString
  rw [if_neg (by omega), hrun, some_bind]
  dsimp only
  rw [if_neg (by omega), htrunc]

/-- Zero bytes of an `int`. -/
theorem slice_zero_word {pad : ℕ} (h : pad ≤ 4) :
    slice (leBytes 4 0) 0 pad = List.replicate pad 0 := by
  interval_cases pad <;> rfl

/-- **`rwm_to_tl_string`** makes a TL string, but for a length that is torn. -/
theorem rwmToTlString_spec (h : Owns H r raw bs) :
    ∃ len H' raw', H.rwmToTlString raw = some (H', raw') ∧
      Owns H' r raw' (len ++ bs ++ tlZeros (0 + (tlLength bs.length ++ bs).length)) ∧
      Frame True r H H' ∧ (len = tlLength bs.length ↔ ¬ H.LengthTorn raw) := by
  obtain ⟨len, H₁, raw₁, hrun, howns, hfr, hlen, htorn⟩ := pushTlLength_spec h
  have htotal := howns.holds.totalBytes
  have hpad : (-(raw₁.totalBytes : ℤ) % 4).toNat = (4 - raw₁.totalBytes % 4) % 4 := by omega
  rw [Nat.zero_add, List.length_append, ← hlen, ← List.length_append, ← htotal]
  unfold rwmToTlString tlZeros
  rw [hrun, some_bind]
  dsimp only
  rw [hpad]
  generalize hp : (4 - raw₁.totalBytes % 4) % 4 = pad
  by_cases hzero : pad = 0
  · subst hzero
    exact ⟨len, H₁, raw₁, if_pos rfl, by rwa [List.replicate_zero, List.append_nil], hfr.weaken,
      htorn⟩
  · obtain ⟨H₂, raw₂, hcount, -, howns', hfr'⟩ := rwmPushData_spec (List.replicate pad 0) howns
    rw [List.length_replicate] at hcount
    refine ⟨len, H₂, raw₂, ?_, howns', hfr.weaken.trans hfr', htorn⟩
    rw [if_neg hzero, slice_zero_word (by omega), hcount, some_bind]
    exact if_pos rfl

/-- With a length that is torn, the message is another one. -/
theorem not_tlWrapped_of_torn (h : Owns H r raw bs) (htorn : H.LengthTorn raw) :
    ¬ H.TlWrapped r raw bs := by
  rintro ⟨H₁, raw₁, H₂, raw₂, hrun₁, howns₁, -⟩
  obtain ⟨len, H', raw', hrun, howns, -, hlen⟩ := rwmToTlString_spec h
  obtain ⟨rfl, rfl⟩ := Prod.mk.inj (Option.some.inj (hrun.symm.trans hrun₁))
  have hsame := howns.holds.unique howns₁.holds howns.inv
  unfold tlStringAt at hsame
  exact hlen.mp (List.append_cancel_right (List.append_cancel_right hsame)) htorn

/-- **A message becomes a TL string** and then what it was, if and only if its length is not
torn. -/
theorem rwmToTlString_iff (h : Owns H r raw bs) (hn : bs.length < 2 ^ 24) :
    H.TlWrapped r raw bs ↔ ¬ H.LengthTorn raw := by
  constructor
  · exact fun hwrapped htorn => not_tlWrapped_of_torn h htorn hwrapped
  · intro htorn
    obtain ⟨len, H₁, raw₁, hrun₁, howns₁, hfr₁, hlen⟩ := rwmToTlString_spec h
    rw [hlen.mpr htorn] at howns₁
    obtain ⟨H₂, raw₂, hrun₂, howns₂, hfr₂⟩ := rwmFromTlString_spec hn howns₁
    exact ⟨H₁, raw₁, H₂, raw₂, hrun₁, howns₁, hrun₂, howns₂, hfr₁.trans hfr₂.weaken⟩

/-- Three bytes in two parts. -/
theorem rwmToTlString_iff_twoParts :
    twoParts.TlWrapped (fun _ => 0) twoPartsMessage [1, 2, 3] :=
  (rwmToTlString_iff twoParts_owns (by decide)).mpr (fun htorn => absurd htorn.1 (by decide))

/-- When 127 bytes are put in front of 254, one byte is free in front of them, and the length of the
381 bytes is torn. -/
theorem not_rwmToTlString : ∃ H raw H' raw',
    (MsgHeap.empty (fun _ _ => 0)).rwmCreate (List.replicate 254 0) = some (H, raw) ∧
      H.rwmPushDataFront raw (List.replicate 127 0) = some (H', raw') ∧
      Owns H' (fun _ => 0) raw' (List.replicate 127 0 ++ List.replicate 254 0) ∧
      ¬ H'.TlWrapped (fun _ => 0) raw' (List.replicate 127 0 ++ List.replicate 254 0) := by
  have hclean : Owns (MsgHeap.empty (fun _ _ => 0)) (fun _ => 0) rwmClean [] :=
    ⟨Inv.empty _, Holds.clean⟩
  obtain ⟨H, raw, -, hrun, howns, -⟩ := rwmPushData_spec (List.replicate 254 0) hclean
  obtain ⟨H', raw', -, hrun', howns', -⟩ := rwmPushDataFront_spec (List.replicate 127 0) howns
  rw [List.nil_append] at howns'
  refine ⟨H, raw, H', raw', hrun, hrun', howns', not_tlWrapped_of_torn howns' ?_⟩
  have hstate : ((MsgHeap.empty (fun _ _ => 0)).rwmPushData rwmClean (List.replicate 254 0)).bind
      (fun x => (x.1.rwmPushDataFront x.2 (List.replicate 127 0)).map (fun y =>
        (y.2.first, y.1.parts.cell 0, (y.1.buffers.cell 0).map MsgBuffer.refcnt,
          y.2.firstOffset))) = some (some 0, some ⟨1, none, 0, 1, 382⟩, some 1, 1) := by
    decide +kernel
  rw [hrun, Option.bind_some, hrun', Option.map_some] at hstate
  simp only [Option.some.injEq, Prod.mk.injEq] at hstate
  obtain ⟨hfirst, hf, hX, hoffset⟩ := hstate
  obtain ⟨X, hX, hone⟩ := Option.map_eq_some_iff.mp hX
  refine ⟨?_, ⟨0, _, X, hfirst, hf, hX, rfl, hone⟩, .inl hoffset⟩
  rw [howns'.holds.totalBytes, List.length_append, List.length_replicate, List.length_replicate]
  decide

end MsgHeap

end MtprotoProxy
