/-
# Growing a message

What the operations of `net/net-msg.c` that add to a message leave and return: the count of
`rwm_push_data_ext` for all sizes, and the places that `rwm_postpone_alloc` and
`rwm_prepend_alloc` give away.

* `growing`: each of them adds what it should, returns the full count, and leaves the message in
  order and the clones as they were.

`rwm_postpone_alloc` and `rwm_prepend_alloc` return a null pointer for no bytes, and for more than
`MSG_STD_BUFFER` of them (`not_growing`).
-/
import MtprotoProxy.MsgSlicing

namespace MtprotoProxy

open CLib

namespace MsgHeap

variable {H H' : MsgHeap} {r : ℕ → ℕ} {raw : RawMessage} {bs : Bytes}

/-! ## Places that are given away -/

/-- `k` bytes at the place are in one buffer, which nothing else uses. -/
def Writable (H : MsgHeap) (place : ℕ × ℕ) (k : ℕ) : Prop :=
  ∃ X, H.buffers.cell place.1 = some X ∧ X.refcnt = 1 ∧ place.2 + k ≤ X.data.length

theorem newBlockPart_writable {hint i k : ℕ} {next : Option ℕ} (h : i + k ≤ bufferSize hint) :
    (H.newBlockPart hint i k none next).Writable (H.buffers.size, i) k := by
  refine ⟨_, Store.cell_alloc_self _, rfl, ?_⟩
  rw [Option.map_none, Option.getD_none, List.length_map, List.length_range]
  exact h

theorem pushAllocPlace_writable {k : ℕ} (hfirst : raw.first = none) (hpos : 0 < k)
    (hk : k ≤ msgStdBuffer) :
    ∃ H' raw' place, H.pushAllocPlace raw k = some (H', raw', some place) ∧
      H'.Writable place k :=
  ⟨_, _, _, pushAllocPlace_first hfirst hpos hk, newBlockPart_writable (firstBuffer_fits hk)⟩

theorem rwmPostponeAllocPlace_writable {k : ℕ} (h : Owns H r raw bs) (hpos : 0 < k)
    (hk : k ≤ msgStdBuffer) :
    ∃ H' raw' place, H.rwmPostponeAllocPlace raw k = some (H', raw', some place) ∧
      H'.Writable place k := by
  obtain ⟨hinv, hholds⟩ := h
  unfold rwmPostponeAllocPlace
  rw [if_neg (by omega)]
  cases hholds with
  | clean => exact pushAllocPlace_writable rfl hpos hk
  | @chain n f l s e bs hspan =>
    obtain ⟨locked, H₁, f₁, l₁, hlock, happ, hfr₁, -⟩ :=
      rwmLockLastPart_spec none hinv (by simp) hspan
    obtain ⟨l', ml, hl₀, hl, -, hend⟩ := happ.last
    obtain rfl := Option.some.inj hl₀
    obtain ⟨X, hX, -, hX'⟩ := happ.inv.buffer _ _ hl
    simp only [hlock, hl, hX, Option.bind_eq_bind, Option.bind_some]
    by_cases hroom : ml.dataEnd + k ≤ X.data.length ∧ X.refcnt = 1
    · rw [if_pos hroom]
      exact ⟨_, _, _, rfl, X, hX, hroom.2, hroom.1⟩
    · have hfit := le_bufferSize hk
      have hnew : (H₁.newBlockPart k 0 k none none).parts.cell l₁ = some ml :=
        Store.cell_alloc_of_some hl
      have hwritable : (H₁.newBlockPart k 0 k none none).Writable (H₁.buffers.size, 0) k :=
        newBlockPart_writable (by omega)
      rw [if_neg hroom, if_neg (by omega), linkAfter_some hnew, Option.bind_some]
      exact ⟨_, _, _, rfl, hwritable⟩

theorem rwmPrependAllocPlace_writable {k : ℕ} (h : Owns H r raw bs) (hpos : 0 < k)
    (hk : k ≤ msgStdBuffer) :
    ∃ H' raw' place, H.rwmPrependAllocPlace raw k = some (H', raw', some place) ∧
      H'.Writable place k := by
  obtain ⟨hinv, hholds⟩ := h
  unfold rwmPrependAllocPlace
  rw [if_neg (by omega)]
  cases hholds with
  | clean => exact pushAllocPlace_writable rfl hpos hk
  | @chain n f l s e bs hspan =>
    obtain ⟨H₁, n₁, f₁, l₁, mf, hlock, hinv₁, -, -, hf, hoff, -⟩ :=
      rwmLockFirstPart_spec none hinv (by simp) hspan
    obtain ⟨X, hX, hle, hend⟩ := hinv₁.buffer _ _ hf
    simp only [hlock, hf, hX, some_bind]
    rw [if_neg (not_not.mpr hoff.symm)]
    by_cases hroom : mf.refcnt = 1 ∧ k ≤ mf.offset ∧ X.refcnt = 1
    · rw [if_pos hroom]
      refine ⟨_, _, _, rfl, X, hX, hroom.2.2, ?_⟩
      dsimp only
      omega
    · have hfit := le_bufferSize hk
      rw [if_neg hroom, if_neg (by omega)]
      exact ⟨_, _, _, rfl, newBlockPart_writable (by omega)⟩

/-- Bytes that are written where they are change nothing. -/
theorem store_self {place : ℕ × ℕ} {k : ℕ} {X : MsgBuffer}
    (hX : H.buffers.cell place.1 = some X) (hfit : place.2 + k ≤ X.data.length) :
    H.store place (slice X.data place.2 k) = some H := by
  have hdata : memcpyAt X.data place.2 (slice X.data place.2 k) = X.data := by
    unfold memcpyAt
    rw [length_slice _ _ _ hfit]
    unfold slice
    rw [List.append_assoc, ← List.drop_drop, List.take_append_drop, List.take_append_drop]
  unfold store
  rw [hX, some_bind]
  unfold write setBuffer
  rw [hdata, Store.put_self hX]

/-- The message has the bytes `bs` after a call, its count fits into an `int`, and it passes
`rwm_check`; the clones have the bytes that they had. -/
structure Grown (r : ℕ → ℕ) (H H' : MsgHeap) (raw' : RawMessage) (bs : Bytes) : Prop where
  owns : Owns H' r raw' bs
  total : IsInt32 raw'.totalBytes
  check : H'.rwmCheck raw' = some ()
  clones : ∀ clone cs, Holds H clone cs → (∀ f, clone.first = some f → 0 < r f) →
    Holds H' clone cs

theorem Owns.grown {grow : Prop} {raw' : RawMessage} (h : Owns H' r raw' bs)
    (hfr : Frame grow r H H') (hint : bs.length < 2 ^ 31) : Grown r H H' raw' bs := by
  refine ⟨h, ?_, h.holds.check h.inv, fun clone cs hclone hroot => hclone.frame hfr hroot⟩
  rw [h.holds.totalBytes]
  constructor <;> omega

/-- The message grows by `k` bytes at a place that is given away: whatever is written there is put
on, and so is what is there already. -/
def Extends (r : ℕ → ℕ) (H : MsgHeap) (k : ℕ) (grown : Bytes → Bytes)
    (result : Option (MsgHeap × RawMessage × Option (ℕ × ℕ))) : Prop :=
  ∃ H' raw' place, result = some (H', raw', some place) ∧ H'.Writable place k ∧
    (∃ data, data.length = k ∧ H'.store place data = some H') ∧
    ∀ data, data.length = k → ∃ H'', H'.store place data = some H'' ∧
      Grown r H H'' raw' (grown data)

/-- A place that is given away, when writing to it is known to put the bytes on. -/
theorem extends_of_writePlace {k : ℕ} {grown : Bytes → Bytes}
    {result : Option (MsgHeap × RawMessage × Option (ℕ × ℕ))}
    (hplace : ∃ H' raw' place, result = some (H', raw', some place) ∧ H'.Writable place k)
    (hwrite : ∀ data, data.length = k → ∃ H'' raw', writePlace result data = some (H'', raw') ∧
      Grown r H H'' raw' (grown data)) : Extends r H k grown result := by
  obtain ⟨H', raw', place, rfl, hwritable⟩ := hplace
  refine ⟨H', raw', place, rfl, hwritable, ?_, ?_⟩
  · obtain ⟨X, hX, -, hfit⟩ := hwritable
    exact ⟨_, length_slice _ _ _ hfit, store_self hX hfit⟩
  · intro data hlen
    obtain ⟨H'', raw'', hrun, hgrown⟩ := hwrite data hlen
    unfold writePlace at hrun
    rw [some_bind] at hrun
    obtain ⟨H₁, hstore, heq⟩ := Option.map_eq_some_iff.mp hrun
    obtain ⟨rfl, rfl⟩ := Prod.mk.inj heq
    exact ⟨H₁, hstore, hgrown⟩

/-- **`rwm_postpone_alloc`** extends the message at the end. -/
theorem rwmPostponeAllocPlace_spec {k : ℕ} (h : Owns H r raw bs) (hpos : 0 < k)
    (hk : k ≤ msgStdBuffer) (hint : bs.length + k < 2 ^ 31) :
    Extends r H k (fun data => bs ++ data) (H.rwmPostponeAllocPlace raw k) := by
  apply extends_of_writePlace (rwmPostponeAllocPlace_writable h hpos hk)
  rintro data rfl
  obtain ⟨H'', raw', hrun, howns, hfr⟩ := rwmPostponeAlloc_spec data h
  rw [if_neg (by omega)] at howns
  exact ⟨H'', raw', hrun, howns.grown hfr (by rwa [List.length_append])⟩

/-- **`rwm_prepend_alloc`** extends the message at the front. -/
theorem rwmPrependAllocPlace_spec {k : ℕ} (h : Owns H r raw bs) (hpos : 0 < k)
    (hk : k ≤ msgStdBuffer) (hint : bs.length + k < 2 ^ 31) :
    Extends r H k (fun data => data ++ bs) (H.rwmPrependAllocPlace raw k) := by
  apply extends_of_writePlace (rwmPrependAllocPlace_writable h hpos hk)
  rintro data rfl
  obtain ⟨H'', raw', hrun, howns, hfr⟩ := rwmPrependAlloc_spec data h
  rw [if_neg (by omega)] at howns
  exact ⟨H'', raw', hrun, howns.grown hfr (by rwa [List.length_append, Nat.add_comm])⟩

/-! ## All of them -/

/-- **A message grows** by what is pushed, united with it or written to a place that it gives away;
no place is given away for no bytes or more than `MSG_STD_BUFFER` of them. -/
theorem growing {tail : RawMessage} {bs' : Bytes} {prepend smallBuffer stdBuffer k : ℕ}
    (hinv : Inv H (fun q => ref raw.first q + (ref tail.first q + r q))) (h : Holds H raw bs)
    (htail : Holds H tail bs') (data : Bytes) (hdata : bs.length + data.length < 2 ^ 31)
    (hunion : bs.length + bs'.length < 2 ^ 31) (hsmall : prepend ≤ bufferSize smallBuffer)
    (hstd : prepend ≤ bufferSize stdBuffer) (hpos : 0 < k) (hk : k ≤ msgStdBuffer)
    (hint : bs.length + k < 2 ^ 31) :
    (∃ H' raw', H.rwmPushDataExt raw (some data) data.length prepend smallBuffer stdBuffer
        = some (H', raw', data.length) ∧
      Grown (fun q => ref tail.first q + r q) H H' raw' (bs ++ data)) ∧
    (∃ H' raw', H.rwmPushDataCount raw (some data) data.length = some (H', raw', data.length) ∧
      Grown (fun q => ref tail.first q + r q) H H' raw' (bs ++ data)) ∧
    (∃ H' raw', H.rwmPushDataFrontFrom raw (fun _ => data) data.length
        = some (H', raw', data.length) ∧
      Grown (fun q => ref tail.first q + r q) H H' raw' (data ++ bs)) ∧
    (∃ H' raw', H.rwmUnion raw tail = some (H', raw') ∧ Grown r H H' raw' (bs ++ bs')) ∧
    Extends (fun q => ref tail.first q + r q) H k (fun d => bs ++ d)
      (H.rwmPostponeAllocPlace raw k) ∧
    Extends (fun q => ref tail.first q + r q) H k (fun d => d ++ bs)
      (H.rwmPrependAllocPlace raw k) ∧
    ∀ m, m = 0 ∨ msgStdBuffer < m → H.rwmPostponeAllocPlace raw m = some (H, raw, none) ∧
      H.rwmPrependAllocPlace raw m = some (H, raw, none) := by
  have howns : Owns H (fun q => ref tail.first q + r q) raw bs := ⟨hinv, h⟩
  have hback : (bs ++ data).length < 2 ^ 31 := by rwa [List.length_append]
  have hfront : (data ++ bs).length < 2 ^ 31 := by rwa [List.length_append, Nat.add_comm]
  refine ⟨?_, ?_, ?_, ?_, rwmPostponeAllocPlace_spec howns hpos hk hint,
    rwmPrependAllocPlace_spec howns hpos hk hint, fun m hm => ⟨if_pos hm, if_pos hm⟩⟩
  · obtain ⟨H', raw', hrun, howns', hfr⟩ := rwmPushDataExt_spec data howns hsmall hstd
    exact ⟨H', raw', hrun, howns'.grown hfr hback⟩
  · obtain ⟨H', raw', hrun, -, howns', hfr⟩ := rwmPushData_spec data howns
    exact ⟨H', raw', hrun, howns'.grown hfr hback⟩
  · obtain ⟨H', raw', hrun, -, howns', hfr⟩ := rwmPushDataFront_spec data howns
    exact ⟨H', raw', hrun, howns'.grown hfr hfront⟩
  · obtain ⟨H', raw', hrun, howns', hfr⟩ := rwmUnion_spec hinv h htail
    exact ⟨H', raw', hrun, howns'.grown hfr (by rwa [List.length_append])⟩

/-- Two bytes, an empty message, and a place for three bytes. -/
theorem growing_twoParts :
    (∃ H' raw', twoParts.rwmPushDataExt twoPartsMessage (some [4, 5]) 2 128 512 2048
        = some (H', raw', 2) ∧
      Grown (fun _ => 0) twoParts H' raw' [1, 2, 3, 4, 5]) ∧
    (∃ H' raw', twoParts.rwmPushDataCount twoPartsMessage (some [4, 5]) 2
        = some (H', raw', 2) ∧
      Grown (fun _ => 0) twoParts H' raw' [1, 2, 3, 4, 5]) ∧
    (∃ H' raw', twoParts.rwmPushDataFrontFrom twoPartsMessage (fun _ => [4, 5]) 2
        = some (H', raw', 2) ∧
      Grown (fun _ => 0) twoParts H' raw' [4, 5, 1, 2, 3]) ∧
    (∃ H' raw', twoParts.rwmUnion twoPartsMessage rwmClean = some (H', raw') ∧
      Grown (fun _ => 0) twoParts H' raw' [1, 2, 3]) ∧
    Extends (fun _ => 0) twoParts 3 (fun d => [1, 2, 3] ++ d)
      (twoParts.rwmPostponeAllocPlace twoPartsMessage 3) ∧
    Extends (fun _ => 0) twoParts 3 (fun d => d ++ [1, 2, 3])
      (twoParts.rwmPrependAllocPlace twoPartsMessage 3) ∧
    ∀ m, m = 0 ∨ msgStdBuffer < m →
      twoParts.rwmPostponeAllocPlace twoPartsMessage m = some (twoParts, twoPartsMessage, none) ∧
      twoParts.rwmPrependAllocPlace twoPartsMessage m = some (twoParts, twoPartsMessage, none) := by
  have hinv : Inv twoParts (fun q => ref twoPartsMessage.first q + (ref rwmClean.first q + 0)) :=
    twoParts_owns.inv
  exact growing hinv twoParts_owns.holds Holds.clean [4, 5] (by decide) (by decide) (by decide)
    (by decide) (by decide) (by decide) (by decide)

/-- No place is given away for more than `MSG_STD_BUFFER` bytes. -/
theorem not_growing : Owns twoParts (fun _ => 0) twoPartsMessage [1, 2, 3] ∧
    ¬ Extends (fun _ => 0) twoParts 2049 (fun d => [1, 2, 3] ++ d)
      (twoParts.rwmPostponeAllocPlace twoPartsMessage 2049) := by
  refine ⟨twoParts_owns, ?_⟩
  rintro ⟨H', raw', place, hrun, -⟩
  cases hrun

end MsgHeap

end MtprotoProxy
