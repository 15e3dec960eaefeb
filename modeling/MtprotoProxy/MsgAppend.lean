/-
# More bytes

The operations that put bytes behind a message or in front of it.  Each comes down to one of four
changes: bytes written to the room that the last part or the first part has in its buffer
(`Appendable.write`, `Prependable.write`), or a new part (`Appendable.part`, `Prependable.part`).

`rwm_union` links one message behind another.
-/
import MtprotoProxy.MsgFork

namespace MtprotoProxy

open CLib

namespace MsgHeap

variable {H H' : MsgHeap} {r : ℕ → ℕ} {held : Option ℕ}

/-- The message has a reference of its own, and holds the bytes. -/
structure Owns (H : MsgHeap) (r : ℕ → ℕ) (raw : RawMessage) (bs : Bytes) : Prop where
  inv : Inv H (fun q => ref raw.first q + r q)
  holds : Holds H raw bs

variable {raw : RawMessage} {bs : Bytes}

theorem Appendable.owns (h : Appendable H r raw bs) :
    Owns H r raw bs := ⟨h.inv, h.holds⟩

/-- A message that bytes can be put in front of: it starts where its first part starts. -/
structure Prependable (H : MsgHeap) (r : ℕ → ℕ) (raw : RawMessage) (bs : Bytes) : Prop where
  inv : Inv H (fun q => ref raw.first q + r q)
  holds : Holds H raw bs
  first : ∀ f mf, raw.first = some f → H.parts.cell f = some mf → mf.offset = raw.firstOffset

/-! ## Bytes in a buffer -/

/-- A buffer with one reference is written where its part covers nothing. -/
theorem Frame.write {grow : Prop} {R : ℕ → ℕ} {p i : ℕ} {mp : MsgPart} {X : MsgBuffer} {src : Bytes}
    (hinv : Inv H R) (hp : H.parts.cell p = some mp) (hX : H.buffers.cell mp.part = some X)
    (hone : X.refcnt = 1) (hi : i ≤ X.data.length)
    (hout : i + src.length ≤ mp.offset ∨ mp.dataEnd ≤ i) :
    Frame grow r H (H.write mp.part X i src) := by
  apply Frame.setBuffer hX
  intro q mq _ hq hpart j n hj hn
  have hqp := hinv.part_unique hX hone hp rfl hq hpart
  subst hqp
  obtain rfl := Option.mem_unique hp hq
  rcases hout with hout | hout
  · exact slice_memcpyAt_of_ge (by omega) hi
  · exact slice_memcpyAt_of_le (by omega) hi

theorem buffer_write {b i : ℕ} {X : MsgBuffer} {src : Bytes} (hb : H.buffers.cell b = some X) :
    (H.write b X i src).buffers.cell b = some { X with data := memcpyAt X.data i src } :=
  (cell_setBuffer hb _ b).trans (if_pos rfl)

theorem length_memcpyAt {dst src : Bytes} {i : ℕ} (h : i + src.length ≤ dst.length) :
    (memcpyAt dst i src).length = dst.length := by
  unfold memcpyAt
  simp only [List.length_append, List.length_take, List.length_drop]
  omega

/-- **Bytes behind the last part**, in its buffer. -/
theorem Appendable.write {f l t s e : ℕ} {bs chunk : Bytes} {ml : MsgPart} {X : MsgBuffer}
    (h : Appendable H r ⟨some f, some l, t, s, e⟩ bs) (hl : H.parts.cell l = some ml)
    (hX : H.buffers.cell ml.part = some X) (hone : X.refcnt = 1)
    (hfit : e + chunk.length ≤ X.data.length) :
    Appendable ((H.write ml.part X e chunk).setPart l
        { ml with dataEnd := ml.dataEnd + chunk.length }) r
      ⟨some f, some l, t + chunk.length, s, e + chunk.length⟩ (bs ++ chunk) ∧
    Frame True r H ((H.write ml.part X e chunk).setPart l
        { ml with dataEnd := ml.dataEnd + chunk.length }) := by
  obtain ⟨hnone, hend⟩ := h.last_cell rfl hl
  dsimp only at hend
  subst hend
  have hl₁ : (H.write ml.part X ml.dataEnd chunk).parts.cell l = some ml := hl
  have hinv₁ := h.inv.write hX hfit
  have hle : ml.offset ≤ ml.dataEnd := by
    obtain ⟨-, -, hle, -⟩ := h.inv.buffer l ml hl
    exact hle
  have hfr : ∀ R, Frame False R H (H.write ml.part X ml.dataEnd chunk) :=
    fun R => Frame.write h.inv hl hX hone (by omega) (Or.inr le_rfl)
  obtain ⟨rfl, n, hspan⟩ := h.holds.span
  have hX₂ : (H.write ml.part X ml.dataEnd chunk).buffers.cell ml.part
      = some { X with data := memcpyAt X.data ml.dataEnd chunk } := buffer_write hX
  refine ⟨⟨?_, ?_, l, _, rfl, cell_setPart_self hl₁, hnone, rfl⟩, (hfr r).weaken.trans ?_⟩
  · refine hinv₁.setRange hl₁ (by omega) (fun Y hY => ?_)
    rw [← Option.mem_unique hX₂ hY]
    dsimp only
    rw [length_memcpyAt hfit]
    exact hfit
  · have hspan₁ : Span (H.write ml.part X ml.dataEnd chunk) n f s l ml.dataEnd bs :=
      hspan.frame (hfr (fun q => ref (some f) q + r q)) (ref_add_pos f)
    have hspan₂ : Span ((H.write ml.part X ml.dataEnd chunk).setPart l
        { ml with dataEnd := ml.dataEnd + chunk.length }) n f s l ml.dataEnd bs :=
      hspan₁.setLast hinv₁ hl₁ rfl rfl (Nat.le_add_right _ _)
    have hspan₃ := hspan₂.extendLast (cell_setPart_self hl₁) hX₂ (Nat.le_add_right _ chunk.length)
      le_rfl
    dsimp only at hspan₃
    rw [Nat.add_sub_cancel_left, slice_memcpyAt_self (by omega)] at hspan₃
    rw [← List.length_append]
    exact Holds.chain hspan₃
  · exact Frame.setPart_keep hl₁ ⟨rfl, rfl, Or.inr ⟨trivial, hnone, Nat.le_add_right _ _⟩⟩

section NewDataPart

variable {hint i : ℕ} {src : Bytes} {next : Option ℕ}

theorem cell_newDataPart_self : (H.newDataPart hint i src next).parts.cell H.parts.size
    = some ⟨1, next, H.buffers.size, i, i + src.length⟩ := Store.cell_alloc_self _

theorem cell_newDataPart {q : ℕ} {mq : MsgPart} (hq : H.parts.cell q = some mq) :
    (H.newDataPart hint i src next).parts.cell q = some mq := Store.cell_alloc_of_some hq

/-- A new buffer, and the bytes in it. -/
theorem buffer_newDataPart (hfit : i + src.length ≤ bufferSize hint) :
    ∃ X, (H.newDataPart hint i src next).buffers.cell H.buffers.size = some X ∧
      slice X.data i (i + src.length - i) = src := by
  refine ⟨_, Store.cell_alloc_self _, ?_⟩
  rw [Nat.add_sub_cancel_left]
  apply slice_memcpyAt_self
  rw [List.length_map, List.length_range]
  omega

end NewDataPart

/-- **A new part behind the last part.** -/
theorem Appendable.part {f l t s e hint : ℕ} {bs chunk : Bytes} {ml : MsgPart}
    (h : Appendable H r ⟨some f, some l, t, s, e⟩ bs) (hl : H.parts.cell l = some ml)
    (hfit : chunk.length ≤ bufferSize hint) :
    Appendable ((H.newDataPart hint 0 chunk none).setPart l
        { ml with next := some H.parts.size }) r
      ⟨some f, some H.parts.size, t + chunk.length, s, chunk.length⟩ (bs ++ chunk) ∧
    Frame True r H ((H.newDataPart hint 0 chunk none).setPart l
        { ml with next := some H.parts.size }) := by
  obtain ⟨hnone, hend⟩ := h.last_cell rfl hl
  dsimp only at hend
  subst hend
  have hl₁ : (H.newDataPart hint 0 chunk none).parts.cell l = some ml := cell_newDataPart hl
  have hfr : ∀ R, Frame False R H (H.newDataPart hint 0 chunk none) :=
    fun R => Frame.newDataPart _ _ _ _
  have hne : H.parts.size ≠ l := by
    have := Store.lt_size hl
    omega
  obtain ⟨rfl, n, hspan⟩ := h.holds.span
  have hinv₁ : Inv (H.newDataPart hint 0 chunk none)
      (fun q => ref (some H.parts.size) q + (ref (some f) q + r q)) :=
    h.inv.newDataPart (fun q => by rw [ref_none, Nat.zero_add]) (by omega)
  -- the new part goes nowhere
  have hno : ¬ (H.newDataPart hint 0 chunk none).Path H.parts.size l := by
    intro hpath
    rcases Relation.ReflTransGen.cases_head hpath with heq | ⟨x, ⟨mc, hc, hnext⟩, -⟩
    · exact hne heq
    · rw [cell_newDataPart_self] at hc
      rw [← Option.some.inj hc] at hnext
      exact absurd hnext (by simp)
  have hc₂ : ((H.newDataPart hint 0 chunk none).setPart l
      { ml with next := some H.parts.size }).parts.cell H.parts.size
      = some ⟨1, none, H.buffers.size, 0, 0 + chunk.length⟩ :=
    (cell_setPart_ne hne).trans cell_newDataPart_self
  obtain ⟨X, hX, hbytes⟩ : ∃ X, (H.newDataPart hint 0 chunk none).buffers.cell H.buffers.size
      = some X ∧ slice X.data 0 (0 + chunk.length - 0) = chunk := buffer_newDataPart (by omega)
  refine ⟨⟨?_, ?_, H.parts.size, _, rfl, hc₂, rfl, Nat.zero_add _⟩, (hfr r).weaken.trans ?_⟩
  · refine (hinv₁.link hl₁ hno).congr (fun q => ?_)
    rw [hnone, ref_none, Nat.zero_add]
  · have hspan₁ : Span (H.newDataPart hint 0 chunk none) n f s l ml.dataEnd bs :=
      hspan.frame (hfr (fun q => ref (some f) q + r q)) (ref_add_pos f)
    have hspan₂ : Span ((H.newDataPart hint 0 chunk none).setPart l
        { ml with next := some H.parts.size }) n f s l ml.dataEnd bs :=
      hspan₁.setLast hinv₁ hl₁ rfl rfl le_rfl
    have htail : Span ((H.newDataPart hint 0 chunk none).setPart l
        { ml with next := some H.parts.size }) 0 H.parts.size 0 H.parts.size (0 + chunk.length)
        (slice X.data 0 (0 + chunk.length - 0)) :=
      Span.last hc₂ hX le_rfl (Nat.zero_le _) le_rfl
    rw [hbytes, Nat.zero_add] at htail
    have hspan₃ := hspan₂.append (cell_setPart_self hl₁) rfl rfl hc₂ htail
    rw [← List.length_append]
    exact Holds.chain hspan₃
  · exact Frame.setPart_keep hl₁ ⟨rfl, rfl, Or.inr ⟨trivial, hnone, le_rfl⟩⟩

/-- A message of one new part. -/
theorem Inv.newMessage {hint i : ℕ} {chunk : Bytes} (h : Inv H r)
    (hfit : i + chunk.length ≤ bufferSize hint) :
    Appendable (H.newDataPart hint i chunk none) r
      ⟨some H.parts.size, some H.parts.size, chunk.length, i, i + chunk.length⟩ chunk := by
  obtain ⟨X, hX, hbytes⟩ : ∃ X, (H.newDataPart hint i chunk none).buffers.cell H.buffers.size
      = some X ∧ slice X.data i (i + chunk.length - i) = chunk := buffer_newDataPart hfit
  have hspan : Span (H.newDataPart hint i chunk none) 0 H.parts.size i H.parts.size
      (i + chunk.length) (slice X.data i (i + chunk.length - i)) :=
    Span.last cell_newDataPart_self hX le_rfl (Nat.le_add_right _ _) le_rfl
  rw [hbytes] at hspan
  exact ⟨h.newDataPart (fun q => by rw [ref_none, Nat.zero_add]) hfit, Holds.chain hspan,
    H.parts.size, _, rfl, cell_newDataPart_self, rfl, rfl⟩

/-! ## Behind a message -/

theorem bufferSize_pos (hint : ℕ) : 0 < bufferSize hint := by
  unfold bufferSize
  split_ifs <;> omega

theorem le_bufferSize {n : ℕ} (h : n ≤ msgStdBuffer) : n ≤ bufferSize n := by
  unfold msgStdBuffer at h
  unfold bufferSize
  split_ifs <;> omega

/-- What is put into a new part at once. -/
theorem newBlockPart_some (hint i : ℕ) (src : Bytes) (next : Option ℕ) :
    H.newBlockPart hint i src.length (some src) next = H.newDataPart hint i src next := rfl

/-- What the caller writes to a new part might as well have been there from the start. -/
theorem store_newBlockPart (hint i : ℕ) (data : Bytes) (next : Option ℕ) :
    (H.newBlockPart hint i data.length none next).store (H.buffers.size, i) data
      = some (H.newDataPart hint i data next) := by
  unfold store newBlockPart newDataPart
  dsimp only
  rw [Store.cell_alloc_self, some_bind]
  unfold write setBuffer
  dsimp only
  rw [Store.put_alloc]
  rfl

/-- Parts and buffers are apart. -/
theorem store_setPart (l : ℕ) (mp : MsgPart) (place : ℕ × ℕ) (data : Bytes) :
    (H.setPart l mp).store place data = (H.store place data).map (fun H => H.setPart l mp) := by
  unfold store
  change (H.buffers.cell place.1).bind _ = Option.map _ ((H.buffers.cell place.1).bind _)
  cases H.buffers.cell place.1 with
  | none => rfl
  | some X => rfl

theorem store_of_cell {b i : ℕ} {X : MsgBuffer} {data : Bytes} (hX : H.buffers.cell b = some X) :
    H.store (b, i) data = some (H.write b X i data) := by
  unfold store
  rw [hX]
  rfl

/-- The loop of `rwm_push_data_ext`. -/
theorem pushExtLoop_spec (smallBuffer stdBuffer n res : ℕ) {f l t s e : ℕ} {bs : Bytes}
    (data : Bytes)
    (h : Appendable H r ⟨some f, some l, t, s, e⟩ bs) (hn : data.length ≤ n) :
    ∃ H' raw', pushExtLoop smallBuffer stdBuffer n H ⟨some f, some l, t, s, e⟩ l (some data)
        data.length res = some (H', raw', res + data.length) ∧
      Owns H' r raw' (bs ++ data) ∧ Frame True r H H' := by
  induction n generalizing H l t e bs data res with
  | zero =>
    have hnil : data = [] := List.length_eq_zero_iff.mp (by omega)
    subst hnil
    exact ⟨H, _, if_pos rfl, by rw [List.append_nil]; exact h.owns, Frame.refl _ _ _⟩
  | succ n ih =>
    unfold pushExtLoop
    by_cases hnil : data = []
    · subst hnil
      exact ⟨H, _, if_pos rfl, by rw [List.append_nil]; exact h.owns, Frame.refl _ _ _⟩
    · have hpos : 0 < data.length := List.length_pos_iff.mpr hnil
      obtain ⟨l', ml, hl₀, hl, hnone, hend⟩ := h.last
      obtain rfl := Option.some.inj hl₀
      rw [if_neg hpos.ne']
      dsimp only
      generalize (if stdBuffer ≤ t + data.length then stdBuffer else smallBuffer) = hint
      have hsize := bufferSize_pos hint
      have htake : (data.take (min (bufferSize hint) data.length)).length
          = min (bufferSize hint) data.length := by
        rw [List.length_take]
        omega
      have hdrop : (data.drop (min (bufferSize hint) data.length)).length
          = data.length - min (bufferSize hint) data.length := List.length_drop
      have hchunk : (data.take (min (bufferSize hint) data.length)).length ≤ bufferSize hint := by
        omega
      obtain ⟨happ, hfr⟩ := h.part hl hchunk
      obtain ⟨H', raw', hloop, howns, hfr'⟩ :=
        ih (res + min (bufferSize hint) data.length) (data.drop (min (bufferSize hint) data.length))
          happ (by omega)
      rw [List.append_assoc, List.take_append_drop] at howns
      refine ⟨H', raw', ?_, howns, hfr.trans hfr'⟩
      have hnew := newBlockPart_some (H := H) hint 0
        (data.take (min (bufferSize hint) data.length)) none
      rw [htake, hdrop] at hloop
      rw [htake] at hnew
      rw [Option.map_some, Option.map_some, hnew, linkAfter_some (cell_newDataPart hl)]
      simp only [some_bind]
      rw [hloop]
      congr 3
      omega

/-- **`rwm_push_data_ext`** puts the bytes behind the message, when the head-room fits into the
buffers. -/
theorem rwmPushDataExt_spec {prepend smallBuffer stdBuffer : ℕ} {raw : RawMessage}
    {bs : Bytes} (data : Bytes) (h : Owns H r raw bs)
    (hsmall : prepend ≤ bufferSize smallBuffer) (hstd : prepend ≤ bufferSize stdBuffer) :
    ∃ H' raw', H.rwmPushDataExt raw (some data) data.length prepend smallBuffer stdBuffer
        = some (H', raw', data.length) ∧ Owns H' r raw' (bs ++ data) ∧ Frame True r H H' := by
  obtain ⟨hinv, hholds⟩ := h
  unfold rwmPushDataExt
  by_cases hnil : data = []
  · subst hnil
    exact ⟨H, raw, if_pos rfl, ⟨hinv, by rwa [List.append_nil]⟩, Frame.refl _ _ _⟩
  · have hpos : 0 < data.length := List.length_pos_iff.mpr hnil
    rw [if_neg hpos.ne']
    cases hholds with
    | clean =>
      have hinv₀ : Inv H r := hinv.congr (fun q => Nat.zero_add _)
      dsimp only [rwmClean]
      have hhint : prepend ≤ bufferSize
          (if (smallBuffer : ℤ) - prepend ≤ data.length then stdBuffer else smallBuffer) := by
        split_ifs
        · exact hstd
        · exact hsmall
      generalize (if (smallBuffer : ℤ) - prepend ≤ data.length then stdBuffer
        else smallBuffer) = hint at *
      have hclamp : (if data.length ≤ stdBuffer ∧ stdBuffer - data.length < prepend
          then stdBuffer - data.length else prepend) ≤ bufferSize hint := by
        split_ifs with hlong
        · omega
        · exact hhint
      generalize (if data.length ≤ stdBuffer ∧ stdBuffer - data.length < prepend
        then stdBuffer - data.length else prepend) = i at *
      rw [if_neg (by omega)]
      generalize hsz : min (bufferSize hint - i) data.length = sz
      have htake : (data.take sz).length = sz := by
        rw [List.length_take]
        omega
      have hdrop : (data.drop sz).length = data.length - sz := List.length_drop
      have hnew := newBlockPart_some (H := H) hint i (data.take sz) none
      have happ : Appendable (H.newDataPart hint i (data.take sz) none) r _ (data.take sz) :=
        hinv₀.newMessage (by omega)
      rw [htake] at hnew happ
      obtain ⟨H', raw', hloop, howns, hfr⟩ := pushExtLoop_spec smallBuffer stdBuffer
        data.length sz (data.drop sz) happ (by omega)
      rw [List.take_append_drop] at howns
      rw [hdrop, Nat.add_sub_cancel' (by omega)] at hloop
      refine ⟨H', raw', ?_, howns, (Frame.newDataPart _ _ _ _).trans hfr⟩
      rw [Option.map_some, Option.map_some, hnew]
      exact hloop
    | @chain n f l s e bs hspan =>
      obtain ⟨locked, H₁, f₁, l₁, hlock, happ, hfr₁, -⟩ :=
        rwmLockLastPart_spec none hinv (by simp) hspan
      obtain ⟨l', ml, hl₀, hl, hnone, hend⟩ := happ.last
      obtain rfl := Option.some.inj hl₀
      obtain ⟨X, hX, -, hX'⟩ := happ.inv.buffer _ _ hl
      dsimp only at hend
      simp only [hlock, hl, hX, some_bind]
      have hok : ¬ (ml.next.isSome ∨ e ≠ ml.dataEnd ∨ X.data.length < e) := by
        rw [hnone]
        rintro (hb | hb | hb)
        · exact absurd hb (by simp)
        · exact hb hend.symm
        · omega
      rw [if_neg hok]
      by_cases hone : X.refcnt = 1
      · rw [if_pos hone]
        generalize hsz : min (X.data.length - e) data.length = sz
        have htake : (data.take sz).length = sz := by
          rw [List.length_take]
          omega
        have hdrop : (data.drop sz).length = data.length - sz := List.length_drop
        obtain ⟨happ', hfr₂⟩ := happ.write hl hX hone (by omega : e + (data.take sz).length ≤ _)
        rw [htake] at happ' hfr₂
        obtain ⟨H', raw', hloop, howns, hfr₃⟩ := pushExtLoop_spec smallBuffer stdBuffer
          data.length sz (data.drop sz) happ' (by omega)
        rw [List.append_assoc, List.take_append_drop] at howns
        rw [hdrop, Nat.add_sub_cancel' (by omega)] at hloop
        exact ⟨H', raw', hloop, howns, (hfr₁.weaken.trans hfr₂).trans hfr₃⟩
      · rw [if_neg hone]
        obtain ⟨H', raw', hloop, howns, hfr₃⟩ := pushExtLoop_spec smallBuffer stdBuffer
          data.length 0 data happ le_rfl
        rw [Nat.zero_add] at hloop
        exact ⟨H', raw', hloop, howns, hfr₁.weaken.trans hfr₃⟩

/-- **`rwm_push_data`** puts the bytes behind the message. -/
theorem rwmPushData_spec (data : Bytes) (h : Owns H r raw bs) :
    ∃ H' raw', H.rwmPushDataCount raw (some data) data.length = some (H', raw', data.length) ∧
      H.rwmPushData raw data = some (H', raw') ∧ Owns H' r raw' (bs ++ data) ∧
      Frame True r H H' := by
  obtain ⟨H', raw', hrun, howns, hfr⟩ := rwmPushDataExt_spec data h
    (by decide : rmPrependReserve ≤ bufferSize msgSmallBuffer)
    (by decide : rmPrependReserve ≤ bufferSize msgStdBuffer)
  exact ⟨H', raw', hrun, congrArg (Option.map _) hrun, howns, hfr⟩

/-- The first buffer of a message has room for up to `MSG_STD_BUFFER` bytes and some bytes in
front of them. -/
theorem firstBuffer_fits {k : ℕ} (hk : k ≤ msgStdBuffer) :
    min rmPrependReserve (msgStdBuffer - k) + k
      ≤ bufferSize (if msgSmallBuffer - rmPrependReserve ≤ k then msgStdBuffer
        else msgSmallBuffer) := by
  unfold msgStdBuffer at hk
  unfold bufferSize msgSmallBuffer rmPrependReserve msgStdBuffer
  split_ifs <;> omega

/-- The place of the bytes of an empty message is in its first buffer. -/
theorem pushAllocPlace_first {raw : RawMessage} {k : ℕ} (hfirst : raw.first = none) (hpos : 0 < k)
    (hk : k ≤ msgStdBuffer) :
    H.pushAllocPlace raw k
      = some (H.newBlockPart (if msgSmallBuffer - rmPrependReserve ≤ k then msgStdBuffer
          else msgSmallBuffer) (min rmPrependReserve (msgStdBuffer - k)) k none none,
        ⟨some H.parts.size, some H.parts.size, k, min rmPrependReserve (msgStdBuffer - k),
          min rmPrependReserve (msgStdBuffer - k) + k⟩,
        some (H.buffers.size, min rmPrependReserve (msgStdBuffer - k))) := by
  have hcond : (msgSmallBuffer : ℤ) - rmPrependReserve ≤ k ↔
      msgSmallBuffer - rmPrependReserve ≤ k := by
    unfold msgSmallBuffer rmPrependReserve
    omega
  have hprep : (if k ≤ msgStdBuffer ∧ msgStdBuffer - k < rmPrependReserve
      then msgStdBuffer - k else rmPrependReserve) = min rmPrependReserve (msgStdBuffer - k) := by
    split_ifs <;> omega
  have hroom := firstBuffer_fits hk
  unfold pushAllocPlace rwmPushDataCount rwmPushDataExt
  rw [if_neg hpos.ne', hfirst]
  dsimp only
  rw [hprep, if_congr hcond rfl rfl]
  generalize (if msgSmallBuffer - rmPrependReserve ≤ k then msgStdBuffer
    else msgSmallBuffer) = hint at *
  generalize min rmPrependReserve (msgStdBuffer - k) = i at *
  rw [if_neg (by omega), min_eq_right (by omega : k ≤ bufferSize hint - i), Nat.sub_self]
  have hloop (H : MsgHeap) (raw : RawMessage) (n l res : ℕ) (d : Option Bytes) :
      pushExtLoop msgSmallBuffer msgStdBuffer n H raw l d 0 res = some (H, raw, res) := by
    cases n <;> exact if_pos rfl
  have hcell : (H.newBlockPart hint i k none none).parts.cell H.parts.size
      = some ⟨1, none, H.buffers.size, i, i + k⟩ := Store.cell_alloc_self _
  rw [Option.map_none, Option.map_none, hloop]
  simp only [hcell, some_bind, and_self, if_true]

/-- Bytes for the place that an empty message gives away. -/
theorem pushAllocPlace_spec {data : Bytes} (hinv : Inv H r) (hpos : 0 < data.length)
    (hlen : data.length ≤ msgStdBuffer) :
    ∃ H' raw', writePlace (H.pushAllocPlace rwmClean data.length) data = some (H', raw') ∧
      Owns H' r raw' data ∧ Frame True r H H' := by
  have hnew := hinv.newMessage (firstBuffer_fits hlen)
  refine ⟨_, _, ?_, ⟨hnew.inv, hnew.holds⟩, Frame.newDataPart _ _ _ _⟩
  rw [pushAllocPlace_first rfl hpos hlen]
  unfold writePlace
  simp only [store_newBlockPart, some_bind, Option.map_some]

/-- **`rwm_postpone_alloc`** puts the bytes behind the message, if they are not too many. -/
theorem rwmPostponeAlloc_spec (data : Bytes)
    (h : Owns H r raw bs) : ∃ H' raw', H.rwmPostponeAlloc raw data = some (H', raw') ∧
      Owns H' r raw' (if msgStdBuffer < data.length then bs else bs ++ data) ∧
      Frame True r H H' := by
  obtain ⟨hinv, hholds⟩ := h
  unfold rwmPostponeAlloc rwmPostponeAllocPlace
  by_cases hnone : data.length = 0 ∨ msgStdBuffer < data.length
  · rw [if_pos hnone]
    refine ⟨H, raw, rfl, ⟨hinv, ?_⟩, Frame.refl _ _ _⟩
    rcases hnone with hnil | hlen
    · rwa [List.length_eq_zero_iff.mp hnil, List.append_nil, ite_self]
    · rwa [if_pos hlen]
  · rw [if_neg hnone]
    push Not at hnone
    rw [if_neg (by omega)]
    cases hholds with
    | clean =>
      exact pushAllocPlace_spec (hinv.congr (fun q => Nat.zero_add _)) (by omega) hnone.2
    | @chain n f l s e bs hspan =>
      obtain ⟨locked, H₁, f₁, l₁, hlock, happ, hfr₁, -⟩ :=
        rwmLockLastPart_spec none hinv (by simp) hspan
      obtain ⟨l', ml, hl₀, hl, -, hend⟩ := happ.last
      obtain rfl := Option.some.inj hl₀
      obtain ⟨X, hX, -, hX'⟩ := happ.inv.buffer _ _ hl
      dsimp only at hend
      simp only [hlock, hl, hX, some_bind]
      subst hend
      unfold writePlace
      by_cases hroom : ml.dataEnd + data.length ≤ X.data.length ∧ X.refcnt = 1
      · obtain ⟨happ', hfr₂⟩ := happ.write hl hX hroom.2 hroom.1
        refine ⟨_, _, ?_, happ'.owns, hfr₁.weaken.trans hfr₂⟩
        rw [if_pos hroom]
        simp only [some_bind, store_setPart, store_of_cell hX, Option.map_some]
      · have hfit := le_bufferSize hnone.2
        have hnew : (H₁.newBlockPart data.length 0 data.length none none).parts.cell l₁
            = some ml := Store.cell_alloc_of_some hl
        obtain ⟨happ', hfr₂⟩ := happ.part hl hfit
        refine ⟨_, _, ?_, happ'.owns, hfr₁.weaken.trans hfr₂⟩
        rw [if_neg hroom, if_neg (by omega), linkAfter_some hnew]
        simp only [some_bind, store_setPart, store_newBlockPart, Option.map_some]

/-! ## In front of a message -/

/-- **Bytes in front of the first part**, in its buffer. -/
theorem Prependable.write {f l t s e : ℕ} {bs chunk : Bytes} {mf : MsgPart} {X : MsgBuffer}
    (h : Prependable H r ⟨some f, some l, t, s, e⟩ bs) (hf : H.parts.cell f = some mf)
    (hsole : mf.refcnt = 1) (hX : H.buffers.cell mf.part = some X) (hone : X.refcnt = 1)
    (hfit : chunk.length ≤ s) :
    Prependable ((H.write mf.part X (s - chunk.length) chunk).setPart f
        { mf with offset := s - chunk.length }) r
      ⟨some f, some l, t + chunk.length, s - chunk.length, e⟩ (chunk ++ bs) ∧
    Frame False r H ((H.write mf.part X (s - chunk.length) chunk).setPart f
        { mf with offset := s - chunk.length }) := by
  have hoff := h.first f mf rfl hf
  dsimp only at hoff
  subst hoff
  obtain ⟨Y, hY, hle, hend⟩ := h.inv.buffer f mf hf
  obtain rfl := Option.mem_unique hX hY
  obtain ⟨rfl, n, hspan⟩ := h.holds.span
  have hplace : mf.offset - chunk.length + chunk.length ≤ X.data.length := by omega
  have hinv₁ : Inv (H.write mf.part X (mf.offset - chunk.length) chunk)
      (fun q => ref (some f) q + r q) := h.inv.write hX hplace
  have hf₁ : (H.write mf.part X (mf.offset - chunk.length) chunk).parts.cell f = some mf := hf
  have hX₁ : (H.write mf.part X (mf.offset - chunk.length) chunk).buffers.cell mf.part
      = some { X with data := memcpyAt X.data (mf.offset - chunk.length) chunk } :=
    buffer_write hX
  have hfr : ∀ R, Frame False R H (H.write mf.part X (mf.offset - chunk.length) chunk) :=
    fun R => Frame.write h.inv hf hX hone (by omega) (Or.inl (by omega))
  refine ⟨⟨?_, ?_, ?_⟩, (hfr r).trans ?_⟩
  · refine hinv₁.setRange hf₁ (by omega) (fun Y hY => ?_)
    rw [← Option.mem_unique hX₁ hY]
    dsimp only
    rw [length_memcpyAt hplace]
    exact hend
  · have hspan₁ : Span (H.write mf.part X (mf.offset - chunk.length) chunk) n f mf.offset l e bs :=
      hspan.frame (hfr (fun q => ref (some f) q + r q)) (ref_add_pos f)
    have hspan₂ : Span ((H.write mf.part X (mf.offset - chunk.length) chunk).setPart f
        { mf with offset := mf.offset - chunk.length }) n f mf.offset l e bs :=
      hspan₁.setFirst hinv₁ hf₁ rfl rfl (Nat.sub_le _ _) rfl
    have hspan₃ := hspan₂.extendFirst (cell_setPart_self hf₁) hX₁ le_rfl
      (Nat.sub_le _ chunk.length)
    have hback : mf.offset - (mf.offset - chunk.length) = chunk.length := by omega
    dsimp only at hspan₃
    rw [hback, slice_memcpyAt_self (by omega)] at hspan₃
    rw [Nat.add_comm, ← List.length_append]
    exact Holds.chain hspan₃
  · intro f' mf' hf' hcell
    obtain rfl := Option.some.inj hf'
    rw [cell_setPart_self hf₁] at hcell
    rw [← Option.some.inj hcell]
  · exact Frame.setPart _ ((Sole.first hf₁ hsole).not_reach hinv₁)

/-- **A new part in front of the first part.** -/
theorem Prependable.part {f l t s e hint i : ℕ} {bs chunk : Bytes}
    (h : Prependable H r ⟨some f, some l, t, s, e⟩ bs)
    (hfit : i + chunk.length ≤ bufferSize hint) :
    Prependable (H.newDataPart hint i chunk (some f)) r
      ⟨some H.parts.size, some l, t + chunk.length, i, e⟩ (chunk ++ bs) := by
  obtain ⟨rfl, n, hspan⟩ := h.holds.span
  obtain ⟨mf, -, hf, -⟩ := hspan.cell_first
  have hoff := h.first f mf rfl hf
  dsimp only at hoff
  subst hoff
  obtain ⟨X, hX, hbytes⟩ : ∃ X, (H.newDataPart hint i chunk (some f)).buffers.cell H.buffers.size
      = some X ∧ slice X.data i (i + chunk.length - i) = chunk := buffer_newDataPart hfit
  have hfr : Frame False (fun q => ref (some f) q + r q) H (H.newDataPart hint i chunk (some f)) :=
    Frame.newDataPart _ _ _ _
  have hc : (H.newDataPart hint i chunk (some f)).parts.cell H.parts.size
      = some ⟨1, some f, H.buffers.size, i, i + chunk.length⟩ := cell_newDataPart_self
  refine ⟨h.inv.newDataPart (fun q => rfl) hfit, ?_, ?_⟩
  · have hspan₁ := Span.step hc hX le_rfl (Nat.le_add_right _ _) rfl (cell_newDataPart hf)
      (hspan.frame hfr (ref_add_pos f))
    dsimp only at hspan₁
    rw [hbytes] at hspan₁
    rw [Nat.add_comm, ← List.length_append]
    exact Holds.chain hspan₁
  · intro f' mf' hf' hcell
    obtain rfl := Option.some.inj hf'
    rw [← Option.mem_unique hc hcell]

theorem take_append_slice (d : Bytes) {k m : ℕ} (h : k ≤ m) :
    d.take (m - k) ++ slice d (m - k) k = d.take m := by
  unfold slice
  conv_rhs => rw [show m = m - k + k by omega, List.take_add]

/-- The loop of `rwm_push_data_front`, with the first `m` bytes still to come. -/
theorem pushFrontFromLoop_spec (n : ℕ) (data : Bytes) {m : ℕ}
    (h : Prependable H r raw bs) (hm : m ≤ data.length) (hn : m ≤ n) :
    ∃ H' raw', pushFrontFromLoop (fun _ => data) n H raw m = some (H', raw') ∧
      Owns H' r raw' (data.take m ++ bs) ∧ Frame False r H H' := by
  induction n generalizing H raw bs m with
  | zero =>
    obtain rfl := Nat.le_zero.mp hn
    exact ⟨H, _, if_pos rfl, ⟨h.inv, h.holds⟩, Frame.refl _ _ _⟩
  | succ n ih =>
    unfold pushFrontFromLoop
    by_cases hzero : m = 0
    · subst hzero
      exact ⟨H, _, if_pos rfl, ⟨h.inv, h.holds⟩, Frame.refl _ _ _⟩
    · rw [if_neg hzero]
      dsimp only
      generalize (if msgSmallBuffer ≤ m then msgStdBuffer else msgSmallBuffer) = hint
      have hsize := bufferSize_pos hint
      have hchunk := length_slice data (m - min (bufferSize hint) m) (min (bufferSize hint) m)
        (by omega)
      have hsplit := take_append_slice data (Nat.min_le_right (bufferSize hint) m)
      generalize slice data (m - min (bufferSize hint) m) (min (bufferSize hint) m) = chunk at *
      -- the last bytes stand in front now, in a part of their own
      have hround : Prependable
          (H.newDataPart hint (bufferSize hint - min (bufferSize hint) m) chunk raw.first) r
          ⟨some H.parts.size, if raw.last.isNone then some H.parts.size else raw.last,
            raw.totalBytes + min (bufferSize hint) m,
            bufferSize hint - min (bufferSize hint) m,
            if raw.last.isNone then bufferSize hint else raw.lastOffset⟩ (chunk ++ bs) := by
        rw [← hchunk]
        obtain ⟨hinv, hholds, hfirst⟩ := h
        cases hholds with
        | clean =>
          have hinv₀ : Inv H r := hinv.congr (fun q => Nat.zero_add _)
          have hfit : bufferSize hint - chunk.length + chunk.length = bufferSize hint := by omega
          have hnew := hinv₀.newMessage hfit.le
          rw [hfit] at hnew
          rw [List.append_nil]
          dsimp only [rwmClean]
          rw [Nat.zero_add]
          refine ⟨hnew.inv, hnew.holds, ?_⟩
          intro f' mf' hf' hcell
          obtain rfl := Option.some.inj hf'
          rw [← Option.mem_unique cell_newDataPart_self hcell]
        | chain hspan =>
          exact Prependable.part ⟨hinv, Holds.chain hspan, hfirst⟩ (by omega)
      obtain ⟨H', raw', hloop, howns, hfr⟩ := ih (m := m - min (bufferSize hint) m) hround
        (by omega) (by omega)
      refine ⟨H', raw', hloop, ?_, (Frame.newDataPart _ _ _ _).trans hfr⟩
      rwa [← List.append_assoc, hsplit] at howns

/-- **`rwm_push_data_front`** puts the bytes in front of the message. -/
theorem rwmPushDataFront_spec (data : Bytes)
    (h : Owns H r raw bs) : ∃ H' raw',
      H.rwmPushDataFrontFrom raw (fun _ => data) data.length = some (H', raw', data.length) ∧
      H.rwmPushDataFront raw data = some (H', raw') ∧ Owns H' r raw' (data ++ bs) ∧
      Frame False r H H' := by
  suffices hpush : ∃ H' raw', (if data.length = 0 then some (H, raw)
      else H.pushFrontFrom raw (fun _ => data) data.length) = some (H', raw') ∧
      Owns H' r raw' (data ++ bs) ∧ Frame False r H H' by
    obtain ⟨H', raw', hrun, howns, hfr⟩ := hpush
    have hcount : H.rwmPushDataFrontFrom raw (fun _ => data) data.length
        = some (H', raw', data.length) := by
      unfold rwmPushDataFrontFrom
      split_ifs at hrun ⊢ with hzero
      · obtain ⟨rfl, rfl⟩ := Prod.mk.inj (Option.some.inj hrun)
        rw [hzero]
      · rw [hrun, Option.map_some]
    exact ⟨H', raw', hcount, congrArg (Option.map _) hcount, howns, hfr⟩
  obtain ⟨hinv, hholds⟩ := h
  have hloop {H : MsgHeap} {raw : RawMessage} {bs : Bytes} {m : ℕ} (h : Prependable H r raw bs)
      (hm : m ≤ data.length) := pushFrontFromLoop_spec data.length data h hm hm
  by_cases hnil : data.length = 0
  · rw [if_pos hnil, List.length_eq_zero_iff.mp hnil]
    exact ⟨H, raw, rfl, ⟨hinv, hholds⟩, Frame.refl _ _ _⟩
  · rw [if_neg hnil]
    unfold pushFrontFrom
    cases hholds with
    | clean =>
      have hready : Prependable H r rwmClean [] :=
        ⟨hinv, Holds.clean, fun f mf hf => absurd hf (by simp [rwmClean])⟩
      have hrun := hloop hready le_rfl
      rwa [List.take_length] at hrun
    | @chain n f l s e bs hspan =>
      obtain ⟨H₁, n₁, f₁, l₁, mf, hlock, hinv₁, hspan₁, hfr₁, hf, hoff, -⟩ :=
        rwmLockFirstPart_spec none hinv (by simp) hspan
      obtain ⟨X, hX, -, -⟩ := hinv₁.buffer _ _ hf
      have hready : Prependable H₁ r ⟨some f₁, some l₁, bs.length, s, e⟩ bs := by
        refine ⟨hinv₁, Holds.chain hspan₁, ?_⟩
        intro f' mf' hf' hcell
        obtain rfl := Option.some.inj hf'
        rw [← Option.mem_unique hf hcell]
        exact hoff
      simp only [hlock, hf, hX, some_bind]
      by_cases hroom : X.refcnt = 1 ∧ mf.refcnt = 1
      · rw [if_pos hroom]
        have hchunk := length_slice data (data.length - min s data.length) (min s data.length)
          (by omega)
        have hsplit := take_append_slice data (Nat.min_le_right s data.length)
        generalize slice data (data.length - min s data.length) (min s data.length) = chunk at *
        rw [List.take_length] at hsplit
        obtain ⟨hready', hfr₂⟩ := hready.write hf hroom.2 hX hroom.1 (by omega : chunk.length ≤ s)
        rw [hchunk] at hready' hfr₂
        obtain ⟨H', raw', hrun, howns, hfr₃⟩ := hloop hready' (Nat.sub_le _ _)
        rw [← List.append_assoc, hsplit] at howns
        exact ⟨H', raw', hrun, howns, (hfr₁.trans hfr₂).trans hfr₃⟩
      · rw [if_neg hroom]
        obtain ⟨H', raw', hrun, howns, hfr₃⟩ := hloop hready le_rfl
        rw [List.take_length] at howns
        exact ⟨H', raw', hrun, howns, hfr₁.trans hfr₃⟩

/-- **`rwm_prepend_alloc`** puts the bytes in front of the message, if they are not too many. -/
theorem rwmPrependAlloc_spec (data : Bytes)
    (h : Owns H r raw bs) : ∃ H' raw', H.rwmPrependAlloc raw data = some (H', raw') ∧
      Owns H' r raw' (if msgStdBuffer < data.length then bs else data ++ bs) ∧
      Frame True r H H' := by
  obtain ⟨hinv, hholds⟩ := h
  unfold rwmPrependAlloc rwmPrependAllocPlace
  by_cases hnone : data.length = 0 ∨ msgStdBuffer < data.length
  · rw [if_pos hnone]
    refine ⟨H, raw, rfl, ⟨hinv, ?_⟩, Frame.refl _ _ _⟩
    rcases hnone with hnil | hlen
    · rwa [List.length_eq_zero_iff.mp hnil, List.nil_append, ite_self]
    · rwa [if_pos hlen]
  · rw [if_neg hnone]
    push Not at hnone
    rw [if_neg (by omega)]
    cases hholds with
    | clean =>
      rw [List.append_nil]
      exact pushAllocPlace_spec (hinv.congr (fun q => Nat.zero_add _)) (by omega) hnone.2
    | @chain n f l s e bs hspan =>
      obtain ⟨H₁, n₁, f₁, l₁, mf, hlock, hinv₁, hspan₁, hfr₁, hf, hoff, -⟩ :=
        rwmLockFirstPart_spec none hinv (by simp) hspan
      obtain ⟨X, hX, -, -⟩ := hinv₁.buffer _ _ hf
      subst hoff
      have hready : Prependable H₁ r ⟨some f₁, some l₁, bs.length, mf.offset, e⟩ bs := by
        refine ⟨hinv₁, Holds.chain hspan₁, ?_⟩
        intro f' mf' hf' hcell
        obtain rfl := Option.some.inj hf'
        rw [← Option.mem_unique hf hcell]
      simp only [hlock, hf, hX, some_bind]
      rw [if_neg (fun hb => hb rfl)]
      unfold writePlace
      by_cases hroom : mf.refcnt = 1 ∧ data.length ≤ mf.offset ∧ X.refcnt = 1
      · obtain ⟨hready', hfr₂⟩ := hready.write hf hroom.1 hX hroom.2.2 hroom.2.1
        refine ⟨_, _, ?_, ⟨hready'.inv, hready'.holds⟩, (hfr₁.trans hfr₂).weaken⟩
        rw [if_pos hroom]
        simp only [some_bind, store_setPart, store_of_cell hX, Option.map_some]
      · have hfit := le_bufferSize hnone.2
        have hready' := hready.part (by omega : bufferSize data.length - data.length + data.length
          ≤ bufferSize data.length)
        refine ⟨_, _, ?_, ⟨hready'.inv, hready'.holds⟩,
          hfr₁.weaken.trans (Frame.newDataPart _ _ _ _)⟩
        rw [if_neg hroom, if_neg (by omega)]
        simp only [some_bind, store_newBlockPart, Option.map_some]

/-! ## One message behind another -/

/-- A part that goes on nowhere is not passed on the way to another one. -/
theorem not_path_of_last {t l m : ℕ} {ml mm : MsgPart} (hl : H.parts.cell l = some ml)
    (hlnone : ml.next = none) (hm : H.parts.cell m = some mm) (hmnone : mm.next = none)
    (htm : H.Path t m) (hne : m ≠ l) : ¬ H.Path t l := by
  intro htl
  refine hne (htm.last_unique htl ?_ ?_)
  · rintro q ⟨m', hm', hq⟩
    rw [← Option.mem_unique hm hm', hmnone] at hq
    exact absurd hq (by simp)
  · rintro q ⟨m', hm', hq⟩
    rw [← Option.mem_unique hl hm', hlnone] at hq
    exact absurd hq (by simp)

/-- **Two chains are linked**: the reference to the second one becomes the pointer. -/
theorem link_chains {n m f l s e t l' e' : ℕ} {bs bs' : Bytes} {ml mt : MsgPart} {R : ℕ → ℕ}
    (hinv : Inv H (fun q => ref (some t) q + R q)) (hspan : Span H n f s l e bs)
    (hl : H.parts.cell l = some ml) (hnone : ml.next = none) (hend : ml.dataEnd = e)
    (ht : H.parts.cell t = some mt) (htail : Span H m t mt.offset l' e' bs')
    (hno : ¬ H.Path t l) :
    Inv (H.setPart l { ml with next := some t }) R ∧
    Span (H.setPart l { ml with next := some t }) (n + 1 + m) f s l' e' (bs ++ bs') ∧
    ∀ r, Frame True r H (H.setPart l { ml with next := some t }) := by
  have hne : t ≠ l := by
    rintro rfl
    exact hno Relation.ReflTransGen.refl
  refine ⟨?_, ?_, ?_⟩
  · refine (hinv.link hl hno).congr (fun q => ?_)
    rw [hnone, ref_none, Nat.zero_add]
  · subst hend
    have hspan₁ : Span (H.setPart l { ml with next := some t }) n f s l ml.dataEnd bs :=
      hspan.setLast hinv hl rfl rfl le_rfl
    have hkeep : ∀ q, H.Path t q → Keeps False H (H.setPart l { ml with next := some t }) q := by
      intro q hq
      have hql : q ≠ l := by
        rintro rfl
        exact hno hq
      exact Keeps.of_eq (cell_setPart_ne hql) (fun mp X _ hX => ⟨X, hX, SameBytes.refl X _ _⟩)
    exact hspan₁.append (cell_setPart_self hl) rfl rfl ((cell_setPart_ne hne).trans ht)
      (htail.keep hkeep)
  · exact fun r => Frame.setPart_keep hl ⟨rfl, rfl, Or.inr ⟨trivial, hnone, le_rfl⟩⟩

/-- What `rwm_union` does once both messages are ready. -/
theorem union_link {n m f l s e t l' e' a b : ℕ} {bs bs' : Bytes} {ml mt ml' : MsgPart}
    {locked : Option ℕ}
    (hinv : Inv H (fun q => ref (some t) q + (ref (some f) q + r q)))
    (hspan : Span H n f s l e bs) (hl : H.parts.cell l = some ml) (hnone : ml.next = none)
    (hend : ml.dataEnd = e) (ht : H.parts.cell t = some mt) (htail : Span H m t mt.offset l' e' bs')
    (hl' : H.parts.cell l' = some ml') (hnone' : ml'.next = none) (hne : l' ≠ l)
    (hlocked : ∀ x, locked = some x → x = l) :
    ∃ H', (do
      let H ← H.msgPartIncref t
      let (H, raw) ← H.linkAfter ⟨some f, some l, a, s, e⟩ (some l) t
      let H ← H.rwmFree locked ⟨some t, some l', b, mt.offset, e'⟩
      some (H, ({ raw with
        last := some l'
        lastOffset := e'
        totalBytes := raw.totalBytes + b } : RawMessage)))
        = some (H', ⟨some f, some l', a + b, s, e'⟩) ∧
      Inv H' (fun q => ref (some f) q + r q) ∧ Span H' (n + 1 + m) f s l' e' (bs ++ bs') ∧
      Frame True r H H' := by
  obtain ⟨H₁, hinc, rfl, hinv₁⟩ := msgPartIncref_inv hinv ht
  have hcount : KeepsPart False mt { mt with refcnt := mt.refcnt + 1 } :=
    ⟨rfl, rfl, Or.inl ⟨rfl, rfl⟩⟩
  have hfr₁ : Frame False (fun q => ref (some t) q + (ref (some f) q + r q)) H
      (H.setPart t { mt with refcnt := mt.refcnt + 1 }) := Frame.setPart_keep ht hcount
  -- everything is as before, but for one count
  have htl : t ≠ l := by
    rintro rfl
    exact not_path_of_last hl hnone hl' hnone' htail.path hne Relation.ReflTransGen.refl
  have hl₁ : (H.setPart t { mt with refcnt := mt.refcnt + 1 }).parts.cell l = some ml :=
    (cell_setPart_ne htl.symm).trans hl
  have ht₁ : (H.setPart t { mt with refcnt := mt.refcnt + 1 }).parts.cell t
      = some { mt with refcnt := mt.refcnt + 1 } := cell_setPart_self ht
  have hspan₁ := hspan.frame hfr₁ (by rw [ref_self]; omega)
  have htail₁ := htail.frame hfr₁ (by rw [ref_self]; omega)
  have hreach : Reach (fun q => ref (some t) q + (ref (some f) q + r q)) H l' :=
    (reach_ref t).path htail.path
  obtain ⟨ml'', hl'', hnone''⟩ := (hfr₁ l' hreach).last hl' hnone'
  have hno := not_path_of_last hl₁ hnone hl'' hnone'' htail₁.path hne
  obtain ⟨hinv₂, hspan₂, hfr₂⟩ := link_chains hinv₁ hspan₁ hl₁ hnone hend ht₁ htail₁ hno
  obtain ⟨H₃, hdec, hinv₃, hfr₃⟩ := msgPartDecref_spec locked hinv₂ (fun x hx => by
    rw [hlocked x hx]
    have hpath := (hfr₂ (fun q => ref (some f) q + r q)).path (reach_ref f) hspan₁.path
    exact (reach_ref f).path hpath)
  refine ⟨H₃, ?_, hinv₃, hspan₂.frame hfr₃ (ref_add_pos f), ?_⟩
  · simp only [hinc, linkAfter_some hl₁, rwmFree, hdec, some_bind]
  · refine (hfr₁.mono (fun q => by omega)).weaken.trans ((hfr₂ r).trans ?_)
    exact (hfr₃.mono (fun q => Nat.le_add_left _ _)).weaken

/-- **`rwm_union`** puts the tail behind the message, and gives up the tail. -/
theorem rwmUnion_spec {raw tail : RawMessage} {bs bs' : Bytes}
    (hinv : Inv H (fun q => ref raw.first q + (ref tail.first q + r q))) (h : Holds H raw bs)
    (htail : Holds H tail bs') : ∃ H' raw', H.rwmUnion raw tail = some (H', raw') ∧
      Owns H' r raw' (bs ++ bs') ∧ Frame True r H H' := by
  unfold rwmUnion
  cases h with
  | clean =>
    exact ⟨H, tail, if_pos rfl, ⟨hinv.congr (fun q => Nat.zero_add _), htail⟩, Frame.refl _ _ _⟩
  | @chain n f l s e bs hspan =>
    rw [if_neg (by simp)]
    cases htail with
    | clean =>
      refine ⟨H, _, rfl, ⟨hinv.congr (fun q => ?_), ?_⟩, Frame.refl _ _ _⟩
      · rw [show rwmClean.first = none from rfl, ref_none, Nat.zero_add]
      · rw [List.append_nil]
        exact Holds.chain hspan
    | @chain m t u s' e' bs' hspan' =>
      -- the message becomes ready for more bytes; the tail stays
      obtain ⟨locked, H₁, f₁, l₁, hlock, happ, hfr₁, hlocked⟩ :=
        rwmLockLastPart_spec none hinv (by simp) hspan
      have hinv₁ : Inv H₁ (fun q => ref (some t) q + (ref (some f₁) q + r q)) :=
        happ.inv.congr (fun q => Nat.add_left_comm _ _ _)
      obtain ⟨-, n₁, hspan₁⟩ := happ.holds.span
      obtain ⟨l', ml, hl₀, hl, hnone, hend⟩ := happ.last
      obtain rfl := Option.some.inj hl₀
      have hspan₁' := hspan'.frame hfr₁ (ref_add_pos t)
      have hreach : Reach (fun q => ref (some f₁) q + r q) H₁ l₁ := (reach_ref f₁).path hspan₁.path
      have hheld : ∀ x, locked = some x → x = l₁ := by
        intro x hx
        rcases hlocked with ⟨hl, -⟩ | ⟨hno, -⟩
        · rw [hl] at hx
          exact (Option.some.inj hx).symm
        · rw [hno] at hx
          exact absurd hx (by simp)
      -- so does the tail, which gets other parts if the two would end with the same one
      obtain ⟨locked₂, H₂, t₂, u₂, hlock₂, happ₂, hfr₂, hlocked₂⟩ :=
        rwmLockLastPart_spec locked hinv₁ (fun x hx => by rw [hheld x hx]; exact hreach) hspan₁'
      have hne : u₂ ≠ l₁ := by
        rcases hlocked₂ with ⟨-, -, -, rfl, hother⟩ | ⟨-, haway⟩
        · rcases hlocked with ⟨hl, -⟩ | ⟨-, haway⟩
          · rintro rfl
            exact hother hl
          · rintro rfl
            exact haway ((reach_ref t).path hspan₁'.path)
        · rintro rfl
          exact haway (hfr₂.reach hreach)
      obtain ⟨-, m₂, hspan₂'⟩ := happ₂.holds.span
      obtain ⟨u', mu, hu₀, hu, hunone, -⟩ := happ₂.last
      obtain rfl := Option.some.inj hu₀
      have hspan₂ := hspan₁.frame hfr₂ (ref_add_pos f₁)
      obtain ⟨ml₂, hl₂, hkeep₂, -⟩ := hfr₂ l₁ hreach ml hl
      obtain ⟨H₃, m₃, t₃, u₃, mt, hlock₃, hinv₃, hspan₃', hfr₃, ht, rfl, hu₃, hulast⟩ :=
        rwmLockFirstPart_spec locked happ₂.inv
          (fun x hx => by rw [hheld x hx]; exact hfr₂.reach hreach) hspan₂'
      obtain ⟨mu₃, hmu₃, hunone₃⟩ := hulast mu hu hunone
      have hspan₃ := hspan₂.frame hfr₃ (ref_add_pos f₁)
      obtain ⟨ml₃, hl₃, hkeep₃, -⟩ := hfr₃ l₁ (hfr₂.reach hreach) ml₂ hl₂
      have hne₃ : u₃ ≠ l₁ := by
        rcases hu₃ with rfl | rfl
        · exact hne
        · have := Store.lt_size hl₂
          omega
      dsimp only at hend
      obtain ⟨H₄, hrun, hinv₄, hspan₄, hfr₄⟩ := union_link (a := bs.length) (b := bs'.length) hinv₃
        hspan₃ hl₃
        (hkeep₃.exact.1.trans (hkeep₂.exact.1.trans hnone))
        (hkeep₃.exact.2.trans (hkeep₂.exact.2.trans hend)) ht hspan₃' hmu₃ hunone₃ hne₃ hheld
      refine ⟨H₄, ⟨some f₁, some u₃, bs.length + bs'.length, s, e'⟩, ?_, ⟨hinv₄, ?_⟩, ?_⟩
      · simp only [hlock, hlock₂, hlock₃, some_bind]
        exact hrun
      · rw [← List.length_append]
        exact Holds.chain hspan₄
      · have hle : ∀ x q, r q ≤ ref x q + r q := fun x q => Nat.le_add_left _ _
        exact (((hfr₁.mono (hle _)).trans (hfr₂.mono (hle _))).trans
          (hfr₃.mono (hle _))).weaken.trans hfr₄

end MsgHeap

end MtprotoProxy
