/-
# A message is a list to `rwm_process_ex`

`rwm_process_ex` of `net/net-msg.c` with the blocks that it hands to `process_block` one by one
and the number that it returns, and `rwm_check`.

* `rwmProcess_slicing`: the blocks make up the slice that was asked for, and what is left of the
  message is what the flags say, for any chain of parts.

A call for no bytes returns before it looks at the flags, also where the bytes in front of
`offset` are not all there are.
-/
import MtprotoProxy.MsgRun

namespace MtprotoProxy

open CLib

namespace MsgHeap

variable (H : MsgHeap)

/-- The loop of `rwm_check` from the part `p` on. -/
def checkLoop (raw : RawMessage) : ℕ → ℕ → ℤ → Option ℤ
  | 0, _, _ => none
  | n + 1, p, totalSize => do
    let mp ← H.parts.cell p
    let size : ℤ := partEnd raw p mp - partStart raw p mp
    let X ← H.buffers.cell mp.part
    guard (mp.dataEnd ≤ X.data.length)
    if raw.last = some p then some (totalSize + size)
    else do
      let q ← mp.next
      checkLoop raw n q (totalSize + size)

/-- `rwm_check`. -/
def rwmCheck (raw : RawMessage) : Option Unit :=
  match raw.first with
  | none => guard (raw.totalBytes = 0)
  | some f => do
    let mf ← H.parts.cell f
    guard (mf.offset ≤ raw.firstOffset)
    let l ← raw.last
    let ml ← H.parts.cell l
    guard (raw.lastOffset ≤ ml.dataEnd)
    let totalSize ← H.checkLoop raw (H.parts.size + 1) f 0
    guard (totalSize = raw.totalBytes)

/-- `rwm_fetch_lookup_back`. -/
def rwmFetchLookupBack (raw : RawMessage) (bytes : ℕ) : Option Bytes :=
  let bytes := min bytes raw.totalBytes
  if bytes = 0 then some []
  else (H.rwmProcessEx raw bytes (raw.totalBytes - bytes) .keep).map (fun r => r.2.2)

variable {H} {H' : MsgHeap} {r : ℕ → ℕ}

/-! ## The check -/

theorem checkLoop_eq {raw : RawMessage} {n f p l s e : ℕ} {bs : Bytes} {mp : MsgPart}
    (fuel : ℕ) (totalSize : ℤ) (hinv : Inv H r) (hf : raw.first = some f)
    (hl : raw.last = some l) (he : raw.lastOffset = e) (hpath : H.Path f p)
    (hp : H.parts.cell p = some mp) (hs : partStart raw p mp = s) (h : Span H n p s l e bs)
    (hfuel : n < fuel) : H.checkLoop raw fuel p totalSize = some (totalSize + bs.length) := by
  induction fuel generalizing n p s mp bs totalSize with
  | zero => exact absurd hfuel (Nat.not_lt_zero _)
  | succ fuel ih =>
    have hend : partEnd raw p mp = if n = 0 then e else mp.dataEnd := h.partEnd_eq hinv hl he
    obtain ⟨Y, hY, -, hle⟩ := hinv.buffer p mp hp
    unfold checkLoop
    simp only [hp, hY, hs, hend, hle, guard_true, Option.pure_def, Option.bind_eq_bind,
      Option.bind_some]
    cases h with
    | last hp₀ hX _ hse he' =>
      obtain rfl := Option.mem_unique hp hp₀
      obtain rfl := Option.mem_unique hY hX
      have hlen : (slice Y.data s (e - s)).length = e - s := by
        unfold slice
        rw [List.length_take, List.length_drop]
        omega
      rw [if_pos hl, if_pos rfl, hlen, Nat.cast_sub hse]
    | @step n _ _ q _ _ mp₀ mq X bs hp₀ hX hs₀ hse hnext hq hrest =>
      have hne := (Span.step hp₀ hX hs₀ hse hnext hq hrest).first_ne_last hinv
      obtain rfl := Option.mem_unique hp hp₀
      obtain rfl := Option.mem_unique hY hX
      have hlen : (slice Y.data s (mp.dataEnd - s)).length = mp.dataEnd - s := by
        unfold slice
        rw [List.length_take, List.length_drop]
        omega
      have hpq : H.Next p q := ⟨mp, hp, hnext⟩
      rw [hl, if_neg (fun hb => hne (Option.some.inj hb).symm), if_neg (Nat.succ_ne_zero n), hnext,
        Option.bind_some, ih _ (hpath.tail hpq) hq (partStart_next hinv hf hpath hpq) hrest
          (by omega), List.length_append, hlen, Nat.cast_add, Nat.cast_sub hse, add_assoc]

/-- **A message that is in order passes `rwm_check`.** -/
theorem Holds.check {raw : RawMessage} {bs : Bytes} (h : Holds H raw bs) (hinv : Inv H r) :
    H.rwmCheck raw = some () := by
  cases h with
  | clean => rfl
  | @chain n f l s e bs hspan =>
    obtain ⟨mf, -, hf, -, hoff, -⟩ := hspan.cell_first
    obtain ⟨ml, -, hl, -, hle, hend⟩ := hspan.cell_last
    have hloop : H.checkLoop ⟨some f, some l, bs.length, s, e⟩ (H.parts.size + 1) f 0
        = some (0 + bs.length) := checkLoop_eq (H.parts.size + 1) 0 hinv
      rfl rfl rfl Relation.ReflTransGen.refl hf (if_pos rfl) hspan
      (Nat.lt_succ_of_lt (hspan.lt_size hinv))
    unfold rwmCheck
    simp only [hf, hl, hloop, hoff, hend, guard_true, zero_add, Option.pure_def, some_bind]

/-! ## Slices -/

/-- The message has the bytes `bs` after a call, and passes `rwm_check`; what other messages
reach is what it was. -/
structure Leaves (r : ℕ → ℕ) (H H' : MsgHeap) (raw' : RawMessage) (bs : Bytes) : Prop where
  owns : Owns H' r raw' bs
  check : H'.rwmCheck raw' = some ()
  frame : Frame False r H H'

theorem Owns.leaves {raw' : RawMessage} {bs : Bytes} (h : Owns H' r raw' bs)
    (hfr : Frame False r H H') : Leaves r H H' raw' bs :=
  ⟨h, h.holds.check h.inv, hfr⟩

/-- **`rwm_fetch_data_back`** takes the bytes from the end. -/
theorem rwmFetchDataBack_spec {raw : RawMessage} {bs : Bytes} (bytes : ℕ) (h : Owns H r raw bs) :
    ∃ H' raw', H.rwmFetchDataBack raw bytes
        = some (H', raw', bs.drop (bs.length - bytes)) ∧
      Owns H' r raw' (bs.take (bs.length - bytes)) ∧ Frame False r H H' := by
  have htotal := h.holds.totalBytes
  have hback : bs.length - min bytes bs.length = bs.length - bytes := by omega
  unfold rwmFetchDataBack
  rw [htotal]
  by_cases hzero : min bytes bs.length = 0
  · refine ⟨H, raw, ?_, ?_, Frame.refl _ _ _⟩
    · rw [← hback, hzero, Nat.sub_zero, List.drop_length]
      exact if_pos rfl
    · rwa [← hback, hzero, Nat.sub_zero, List.take_length]
  · rw [if_neg hzero]
    obtain ⟨H', raw', hrun, howns, hfr⟩ :=
      rwmProcessEx_spec (min bytes bs.length) (bs.length - min bytes bs.length) .truncate h
    rw [Nat.sub_sub_self (Nat.min_le_right _ _), min_self] at hrun howns
    refine ⟨H', raw', ?_, ?_, hfr⟩
    · rw [hrun, ← hback]
      unfold slice
      rw [List.take_of_length_le]
      rw [List.length_drop]
      omega
    · rw [if_neg hzero, hback] at howns
      exact howns

/-- **`rwm_fetch_lookup_back`** reads the bytes at the end. -/
theorem rwmFetchLookupBack_spec {raw : RawMessage} {bs : Bytes} (bytes : ℕ)
    (h : Owns H r raw bs) :
    H.rwmFetchLookupBack raw bytes = some (bs.drop (bs.length - bytes)) := by
  have htotal := h.holds.totalBytes
  have hback : bs.length - min bytes bs.length = bs.length - bytes := by omega
  unfold rwmFetchLookupBack
  rw [htotal]
  by_cases hzero : min bytes bs.length = 0
  · rw [← hback, hzero, Nat.sub_zero, List.drop_length]
    exact if_pos rfl
  · obtain ⟨H', raw', hrun, -, -⟩ :=
      rwmProcessEx_spec (min bytes bs.length) (bs.length - min bytes bs.length) .keep h
    rw [if_neg hzero, hrun, ← hback, Option.map_some]
    unfold slice
    rw [List.take_of_length_le]
    rw [List.length_drop]
    omega

/-- **`rwm_process_ex`** with the blocks and the number of their bytes. -/
theorem rwmProcess_spec {raw : RawMessage} {bs : Bytes} (h : Owns H r raw bs) {bytes offset : ℕ}
    (hsum : bytes + offset < 2 ^ 31) (flag : ProcessFlag) :
    ∃ H' raw' blocks, H.rwmProcess raw bytes offset flag
        = some (H', raw', blocks, min bytes (bs.length - offset)) ∧
      blocks.flatten = slice bs offset (min bytes (bs.length - offset)) ∧
      Owns H' r raw' (if min bytes (bs.length - offset) = 0 then bs
        else leftOf bs (min bytes (bs.length - offset)) offset flag) ∧ Frame False r H H' := by
  have hbytes : (if (raw.totalBytes : ℤ) < wrap32 (bytes + offset) then raw.totalBytes - offset
      else bytes) = min bytes (bs.length - offset) := by
    rw [h.holds.totalBytes, wrap32_of_isInt32 (by constructor <;> omega)]
    split_ifs <;> omega
  obtain ⟨H', raw', blocks, hrun, hflatten, howns, hfr⟩ :=
    processAll_spec flag h (min_le_right bytes (bs.length - offset))
  refine ⟨H', raw', blocks, ?_, hflatten, howns, hfr⟩
  unfold rwmProcess
  simp only [hbytes, hrun, Option.map_some]

/-- **A message is a list.**  The blocks that `rwm_process_ex` hands on make up the slice it is
asked for, their length is what it returns, and what is left is what the flag says unless the
slice is empty; the calls that are made of it take from and look at either end. -/
theorem rwmProcess_slicing {raw : RawMessage} {bs : Bytes} (h : Owns H r raw bs)
    {bytes offset : ℕ} (hoffset : offset ≤ bs.length) (hsum : bytes + offset < 2 ^ 31)
    (flag : ProcessFlag) :
    (∃ H' raw' calls, H.rwmProcess raw bytes offset flag
        = some (H', raw', calls, min bytes (bs.length - offset)) ∧
      calls.flatten = slice bs offset (min bytes (bs.length - offset)) ∧
      calls.flatten.length = min bytes (bs.length - offset) ∧
      Leaves r H H' raw' (if min bytes (bs.length - offset) = 0 then bs
        else leftOf bs (min bytes (bs.length - offset)) offset flag)) ∧
    (∃ H' raw', H.rwmFetchData raw bytes = some (H', raw', bs.take bytes) ∧
      Leaves r H H' raw' (bs.drop bytes)) ∧
    (∃ H' raw', H.rwmSkipData raw bytes = some (H', raw', (bs.take bytes).length) ∧
      Leaves r H H' raw' (bs.drop bytes)) ∧
    H.rwmFetchLookup raw bytes = some (bs.take bytes) ∧
    (∃ H' raw', H.rwmFetchDataBack raw bytes = some (H', raw', bs.drop (bs.length - bytes)) ∧
      Leaves r H H' raw' (bs.take (bs.length - bytes))) ∧
    H.rwmFetchLookupBack raw bytes = some (bs.drop (bs.length - bytes)) ∧
    (∃ H' raw', H.rwmTrunc raw bytes = some (H', raw') ∧ Leaves r H H' raw' (bs.take bytes)) := by
  refine ⟨?_, ?_, ?_, rwmFetchLookup_spec bytes h, ?_, rwmFetchLookupBack_spec bytes h, ?_⟩
  · obtain ⟨H', raw', calls, hrun, hcalls, howns, hfr⟩ := rwmProcess_spec h hsum flag
    refine ⟨H', raw', calls, hrun, hcalls, ?_, howns.leaves hfr⟩
    rw [hcalls]
    unfold slice
    rw [List.length_take, List.length_drop]
    omega
  · obtain ⟨H', raw', hrun, howns, hfr⟩ := rwmFetchData_spec bytes h
    exact ⟨H', raw', hrun, howns.leaves hfr⟩
  · obtain ⟨H', raw', hrun, howns, hfr⟩ := rwmSkipData_spec bytes h
    rw [← List.length_take] at hrun
    exact ⟨H', raw', hrun, howns.leaves hfr⟩
  · obtain ⟨H', raw', hrun, howns, hfr⟩ := rwmFetchDataBack_spec bytes h
    exact ⟨H', raw', hrun, howns.leaves hfr⟩
  · obtain ⟨H', raw', hrun, howns, hfr⟩ := rwmTrunc_spec bytes h
    exact ⟨H', raw', hrun, howns.leaves hfr⟩

/-! ## A message of two parts -/

/-- The memory with the bytes 1 and 2 in the part 1, and 3 in the part 0 behind it. -/
def twoParts : MsgHeap :=
  ((MsgHeap.empty (fun _ _ => 0)).newDataPart 1 0 [3] none).newDataPart 2 0 [1, 2] (some 0)

/-- The message in this memory. -/
def twoPartsMessage : RawMessage := ⟨some 1, some 0, 3, 0, 1⟩

theorem twoParts_owns : Owns twoParts (fun _ => 0) twoPartsMessage [1, 2, 3] := by
  have hback : Inv ((MsgHeap.empty (fun _ _ => 0)).newDataPart 1 0 [3] none)
      (fun q => ref (some 0) q + 0) :=
    (Inv.empty _).newDataPart (fun _ => rfl) (by decide)
  refine ⟨hback.newDataPart (fun _ => rfl) (by decide), ?_⟩
  have hlast : twoParts.parts.cell 0 = some ⟨1, none, 0, 0, 1⟩ := rfl
  have hfirst : twoParts.parts.cell 1 = some ⟨1, some 0, 1, 0, 2⟩ := rfl
  have hspan : Span twoParts 1 1 0 0 1 ([1, 2] ++ [3]) :=
    Span.step hfirst rfl le_rfl (Nat.zero_le 2) rfl hlast
      (Span.last hlast rfl le_rfl (Nat.zero_le 1) le_rfl)
  exact Holds.chain hspan

/-- Two bytes from the middle on are in two blocks, and the first one is left. -/
theorem rwmProcess_slicing_twoParts :
    (∃ H' raw' calls, twoParts.rwmProcess twoPartsMessage 2 1 .truncate
        = some (H', raw', calls, 2) ∧
      calls.flatten = [2, 3] ∧ calls.flatten.length = 2 ∧
      Leaves (fun _ => 0) twoParts H' raw' [1]) ∧
    (∃ H' raw', twoParts.rwmFetchData twoPartsMessage 2 = some (H', raw', [1, 2]) ∧
      Leaves (fun _ => 0) twoParts H' raw' [3]) ∧
    (∃ H' raw', twoParts.rwmSkipData twoPartsMessage 2 = some (H', raw', 2) ∧
      Leaves (fun _ => 0) twoParts H' raw' [3]) ∧
    twoParts.rwmFetchLookup twoPartsMessage 2 = some [1, 2] ∧
    (∃ H' raw', twoParts.rwmFetchDataBack twoPartsMessage 2 = some (H', raw', [2, 3]) ∧
      Leaves (fun _ => 0) twoParts H' raw' [1]) ∧
    twoParts.rwmFetchLookupBack twoPartsMessage 2 = some [2, 3] ∧
    (∃ H' raw', twoParts.rwmTrunc twoPartsMessage 2 = some (H', raw') ∧
      Leaves (fun _ => 0) twoParts H' raw' [1, 2]) :=
  rwmProcess_slicing twoParts_owns (by decide) (by decide) .truncate

/-- A call for no bytes behind the first one does not cut the message off there. -/
theorem rwmProcess_no_bytes : Owns twoParts (fun _ => 0) twoPartsMessage [1, 2, 3] ∧
    ¬ ∃ H' raw' calls ret, twoParts.rwmProcess twoPartsMessage 0 1 .truncate
        = some (H', raw', calls, ret) ∧ H'.Holds raw' (([1, 2, 3] : Bytes).take 1) := by
  refine ⟨twoParts_owns, ?_⟩
  rintro ⟨H', raw', calls, ret, hrun, hholds⟩
  have hsame : twoParts.rwmProcess twoPartsMessage 0 1 .truncate
      = some (twoParts, twoPartsMessage, [], 0) := rfl
  rw [hsame] at hrun
  simp only [Option.some.injEq, Prod.mk.injEq] at hrun
  obtain ⟨rfl, rfl, -⟩ := hrun
  exact absurd hholds.totalBytes (by decide)

end MsgHeap

end MtprotoProxy
