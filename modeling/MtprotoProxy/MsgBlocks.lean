/-
# The next bytes of a message in one place

`rwm_get_block_ptr_bytes` and `rwm_get_block_ptr` of `net/net-msg.c`, for readers that look at a
message block by block.  Parts in front that have no bytes left are taken from the message on the
way.

* `rwmGetBlockPtrBytes_iff`: the block is found, and nothing else changes, exactly when the first
  part has bytes left or another reference.

A part in front that is empty and has one reference is freed, and its pointer to the next part is
read afterwards; `rwm_skip_data` up to the end of a part leaves such a part
(`not_rwmGetBlockPtrBytes`).  Behind a part that others refer to no such part comes any more, since
the pointer in it counts.
-/
import MtprotoProxy.MsgReads

namespace MtprotoProxy

open CLib

namespace MsgHeap

variable (H : MsgHeap)

/-- How `rwm_get_block_ptr_bytes` takes the part `p` from the front of a message: the pointer of a
part with one reference is handed on, and otherwise the next part gets a reference. -/
def unlinkFirst (p : ℕ) (mp : MsgPart) : Option MsgHeap := do
  let H ← if mp.refcnt = 1 then some (H.setPart p { mp with next := none })
    else mp.next.bind H.msgPartIncref
  H.msgPartDecref none (some p)

/-- The loop of `rwm_get_block_ptr_bytes`.  The fuel bounds the number of parts. -/
def blockLoop : ℕ → MsgHeap → RawMessage → Option ℕ → Option (MsgHeap × RawMessage × ℤ)
  | 0, _, _, _ => none
  | n + 1, H, raw, mp => do
    let p ← mp
    let mp ← H.parts.cell p
    let bytes : ℤ := (if raw.last = some p then raw.lastOffset else mp.dataEnd) - raw.firstOffset
    if bytes ≠ 0 then some (H, raw, bytes)
    else if raw.last = some p then none
    else do
      let H ← H.unlinkFirst p mp
      let q ← mp.next
      let mq ← H.parts.cell q
      -- `mp = mp->next` reads the part that was let go of
      let mp ← H.parts.cell p
      blockLoop n H { raw with first := some q, firstOffset := mq.offset } mp.next

/-- `rwm_get_block_ptr_bytes`. -/
def rwmGetBlockPtrBytes (raw : RawMessage) : Option (MsgHeap × RawMessage × ℤ) :=
  if raw.totalBytes = 0 then some (H, raw, 0)
  else blockLoop (H.parts.size + 1) H raw raw.first

/-- `rwm_get_block_ptr`: a buffer and a place in it. -/
def rwmGetBlockPtr (raw : RawMessage) : Option (ℕ × ℕ) := do
  let f ← raw.first
  let mf ← H.parts.cell f
  some (mf.part, raw.firstOffset)

/-- The first part of the message has bytes left, or another reference. -/
def BlockReady (raw : RawMessage) : Prop :=
  ∀ f mf, raw.first = some f → H.parts.cell f = some mf →
    partEnd raw f mf ≠ raw.firstOffset ∨ mf.refcnt ≠ 1

/-- A block of the bytes `bs` is found: its length is returned, it is where `rwm_get_block_ptr`
says, and the message and what others reach are what they were. -/
def BlockFound (r : ℕ → ℕ) (raw : RawMessage) (bs : Bytes) : Prop :=
  ∃ (H' : MsgHeap) (raw' : RawMessage) (n b o : ℕ) (X : MsgBuffer),
    H.rwmGetBlockPtrBytes raw = some (H', raw', (n : ℤ)) ∧ 0 < n ∧
    H'.rwmGetBlockPtr raw' = some (b, o) ∧ H'.buffers.cell b = some X ∧
    o + n ≤ X.data.length ∧ slice X.data o n = bs.take n ∧
    Owns H' r raw' bs ∧ Frame False r H H'

variable {H} {r : ℕ → ℕ} {raw : RawMessage} {bs : Bytes}

/-! ## A part in front -/

/-- A reference among others is given up. -/
theorem msgPartDecref_many {p : ℕ} {mp : MsgPart} (hp : H.parts.cell p = some mp)
    (hmany : 1 < mp.refcnt) :
    H.msgPartDecref none (some p) = some (H.setPart p { mp with refcnt := mp.refcnt - 1 }) := by
  unfold msgPartDecref msgPartDecrefLoop
  rw [hp]
  exact if_pos hmany

/-- A part with one reference and without a pointer is freed. -/
theorem msgPartDecref_one {p : ℕ} {mp : MsgPart} {H' : MsgHeap} (hp : H.parts.cell p = some mp)
    (hone : mp.refcnt = 1) (hnext : mp.next = none)
    (h : H.msgPartDecref none (some p) = some H') : H'.parts.cell p = none := by
  simp only [msgPartDecref, msgPartDecrefLoop, hp, hone, hnext, lt_irrefl, if_false,
    Option.bind_eq_bind, Option.bind_some] at h
  obtain ⟨X, hX⟩ : ∃ X, H.buffers.cell mp.part = some X := by
    by_contra hno
    push Not at hno
    unfold msgBufferDecref at h
    rw [Option.eq_none_iff_forall_ne_some.mpr hno] at h
    cases h
  obtain ⟨H₁, hdec, hparts, -⟩ := msgBufferDecref_spec H hX
  rw [hdec, Option.bind_some] at h
  obtain rfl := Option.some.inj h
  have hp₁ : H₁.parts.cell p = some mp := by rwa [hparts]
  exact Store.cell_put_self hp₁ none

/-- A part with one reference is gone afterwards. -/
theorem unlinkFirst_one {p : ℕ} {mp : MsgPart} {H' : MsgHeap} (hp : H.parts.cell p = some mp)
    (hone : mp.refcnt = 1) (h : H.unlinkFirst p mp = some H') : H'.parts.cell p = none := by
  have hp' : (H.setPart p { mp with next := none }).parts.cell p = some { mp with next := none } :=
    cell_setPart_self hp
  unfold unlinkFirst at h
  rw [if_pos hone, some_bind] at h
  exact msgPartDecref_one hp' hone rfl h

/-- A part with more references stays, and the message has a reference to the next one. -/
theorem unlinkFirst_many {p q : ℕ} {mp mq : MsgPart}
    (hinv : Inv H (fun x => ref (some p) x + r x)) (hp : H.parts.cell p = some mp)
    (hmany : mp.refcnt ≠ 1) (hnext : mp.next = some q) (hq : H.parts.cell q = some mq) :
    ∃ H' mp' mq', H.unlinkFirst p mp = some H' ∧ H'.parts.cell p = some mp' ∧
      mp'.next = some q ∧ H'.parts.cell q = some mq' ∧ mq'.offset = mq.offset ∧
      mq'.refcnt ≠ 1 ∧ Inv H' (fun x => ref (some q) x + r x) ∧
      Frame False (fun x => ref (some q) x + r x) H H' := by
  have hpq : H.Next p q := ⟨mp, hp, hnext⟩
  have hne : p ≠ q := by
    rintro rfl
    exact hinv.not_cycle hpq Relation.ReflTransGen.refl
  obtain ⟨H', hadvance, hinv', hfr⟩ := advance_ref hinv hq
  have hpos := hinv.counted p mp hp
  have hqpos := hinv.counted q mq hq
  have hinc : H.msgPartIncref q = some (H.setPart q { mq with refcnt := mq.refcnt + 1 }) := by
    unfold msgPartIncref
    rw [hq]
    rfl
  have hp₁ : (H.setPart q { mq with refcnt := mq.refcnt + 1 }).parts.cell p = some mp :=
    (cell_setPart_ne hne).trans hp
  have hq₁ : (H.setPart q { mq with refcnt := mq.refcnt + 1 }).parts.cell q
      = some { mq with refcnt := mq.refcnt + 1 } := cell_setPart_self hq
  have hunlink : H.unlinkFirst p mp = some H' := by
    unfold unlinkFirst
    rwa [if_neg hmany, hnext, Option.bind_some]
  rw [hinc, some_bind, msgPartDecref_many hp₁ (by omega)] at hadvance
  obtain rfl := Option.some.inj hadvance
  exact ⟨_, { mp with refcnt := mp.refcnt - 1 }, { mq with refcnt := mq.refcnt + 1 }, hunlink,
    cell_setPart_self hp₁, hnext, (cell_setPart_ne hne.symm).trans hq₁, rfl,
    by dsimp only; omega, hinv', hfr⟩

/-! ## The block -/

theorem Span.start_le {n p s l e : ℕ} {mp : MsgPart} (h : Span H n p s l e bs) (hinv : Inv H r)
    (hp : H.parts.cell p = some mp) (hl : raw.last = some l) (he : raw.lastOffset = e) :
    s ≤ partEnd raw p mp := by
  rw [h.partEnd_eq hinv hl he]
  cases h with
  | last hp₀ hX hs hle _ => rwa [if_pos rfl]
  | step hp₀ hX hs hle _ _ _ =>
    obtain rfl := Option.mem_unique hp hp₀
    rwa [if_neg (Nat.succ_ne_zero _)]

/-- **The rounds of `rwm_get_block_ptr_bytes`**: the first part has bytes left or is taken off,
and the next one has a second reference then. -/
theorem blockLoop_spec {n f l s e : ℕ} {mf : MsgPart} (fuel : ℕ)
    (hinv : Inv H (fun x => ref (some f) x + r x)) (h : Span H n f s l e bs) (hne : bs ≠ [])
    (hf : H.parts.cell f = some mf)
    (hready : partEnd ⟨some f, some l, bs.length, s, e⟩ f mf ≠ s ∨ mf.refcnt ≠ 1)
    (hfuel : n < fuel) :
    ∃ (H' : MsgHeap) (f' m k s' : ℕ) (mf' : MsgPart) (X : MsgBuffer),
      blockLoop fuel H ⟨some f, some l, bs.length, s, e⟩ (some f)
        = some (H', ⟨some f', some l, bs.length, s', e⟩, (k : ℤ)) ∧ 0 < k ∧
      H'.parts.cell f' = some mf' ∧ H'.buffers.cell mf'.part = some X ∧
      s' + k ≤ X.data.length ∧ slice X.data s' k = bs.take k ∧
      Inv H' (fun x => ref (some f') x + r x) ∧ Span H' m f' s' l e bs ∧ Frame False r H H' := by
  induction fuel generalizing n f s mf H with
  | zero => exact absurd hfuel (Nat.not_lt_zero _)
  | succ fuel ih =>
    have hle : s ≤ partEnd ⟨some f, some l, bs.length, s, e⟩ f mf := h.start_le hinv hf rfl rfl
    have hcursor : CursorOf H ⟨some f, some l, bs.length, s, e⟩ l n
        ⟨f, s, partEnd ⟨some f, some l, bs.length, s, e⟩ f mf - s⟩ bs := by
      refine ⟨rfl, h, ?_⟩
      intro mp hp
      dsimp only at hp ⊢
      rw [hf] at hp
      rw [Option.some.inj hp]
    have hend : (if some l = some f then e else mf.dataEnd)
        = partEnd ⟨some f, some l, bs.length, s, e⟩ f mf := rfl
    unfold blockLoop
    simp only [hf, Option.bind_eq_bind, Option.bind_some]
    rw [hend]
    generalize partEnd ⟨some f, some l, bs.length, s, e⟩ f mf = stop at *
    by_cases hempty : stop = s
    · subst hempty
      have hlast : some l ≠ some f := by
        intro hl
        exact hne (hcursor.done hinv (Nat.sub_self _) hl)
      have hmany : mf.refcnt ≠ 1 := hready.resolve_left (not_not.mpr rfl)
      obtain ⟨m, q, mq, c', hnext, hq, -, hpart, hoff, hnextCursor, hlt⟩ :=
        hcursor.step hinv hf hlast
      have hrest := hnextCursor.span
      dsimp only at hrest
      rw [Nat.sub_self, List.drop_zero, hpart, hoff] at hrest
      obtain ⟨H₁, mf₁, mq₁, hunlink, hf₁, hnext₁, hq₁, hoff₁, hmany₁, hinv₁, hfr₁⟩ :=
        unlinkFirst_many hinv hf hmany hnext hq
      have hrest₁ := hrest.frame hfr₁ (ref_add_pos q)
      obtain ⟨H', f', m', k, s', mf', X, hrun, hk, hf', hX, hfits, hblock, hinv', hspan', hfr'⟩ :=
        ih hinv₁ hrest₁ hq₁ (Or.inr hmany₁) (by omega)
      have hle₁ : ∀ x, r x ≤ ref (some q) x + r x := fun x => Nat.le_add_left _ _
      refine ⟨H', f', m', k, s', mf', X, ?_, hk, hf', hX, hfits, hblock, hinv', hspan',
        (hfr₁.mono hle₁).trans hfr'⟩
      rw [if_neg (by simp), if_neg hlast]
      simp only [hunlink, hnext, hq₁, hf₁, hnext₁, hoff₁, Option.bind_some]
      exact hrun
    · obtain ⟨hlen, mp, X, hp, hX, hfits, hblock⟩ := hcursor.block hinv (le_refl (stop - s))
      refine ⟨H, f, n, stop - s, s, mp, X, ?_, by omega, hp, hX, hfits, hblock, hinv, h,
        Frame.refl _ _ _⟩
      rw [if_pos (by omega), Nat.cast_sub hle]

/-- Without bytes or another reference the first part is read after it is freed. -/
theorem blockLoop_eq_none {f : ℕ} {mf : MsgPart} (fuel : ℕ) (hfirst : raw.first = some f)
    (hf : H.parts.cell f = some mf) (hempty : partEnd raw f mf = raw.firstOffset)
    (hone : mf.refcnt = 1) : blockLoop fuel H raw raw.first = none := by
  cases fuel with
  | zero => rfl
  | succ fuel =>
    have hend : (if raw.last = some f then raw.lastOffset else mf.dataEnd) = raw.firstOffset :=
      hempty
    unfold blockLoop
    simp only [hfirst, hf, hend, Option.bind_eq_bind, Option.bind_some]
    rw [if_neg (by simp)]
    split_ifs with hlast
    · rfl
    · cases hunlink : H.unlinkFirst f mf with
      | none => rfl
      | some H' =>
        have hgone := unlinkFirst_one hf hone hunlink
        rw [Option.bind_some]
        cases mf.next with
        | none => rfl
        | some q =>
          rw [Option.bind_some]
          cases H'.parts.cell q with
          | none => rfl
          | some mq => rw [Option.bind_some, hgone, Option.bind_none]

/-- **A block is found exactly when the first part has bytes left or another reference.** -/
theorem rwmGetBlockPtrBytes_iff (h : Owns H r raw bs) (hne : bs ≠ []) :
    H.BlockFound r raw bs ↔ H.BlockReady raw := by
  have htotal : raw.totalBytes ≠ 0 := by
    rw [h.holds.totalBytes]
    exact fun hzero => hne (List.eq_nil_of_length_eq_zero hzero)
  constructor
  · rintro ⟨H', raw', n, b, o, X, hrun, -⟩ f mf hfirst hf
    by_contra hready
    push Not at hready
    unfold rwmGetBlockPtrBytes at hrun
    rw [if_neg htotal, blockLoop_eq_none _ hfirst hf hready.1 hready.2] at hrun
    cases hrun
  · intro hready
    obtain ⟨hinv, hholds⟩ := h
    cases hholds with
    | clean => exact absurd rfl hne
    | @chain n f l s e bs hspan =>
      obtain ⟨mf, -, hf, -⟩ := hspan.cell_first
      obtain ⟨H', f', m, k, s', mf', X, hrun, hk, hf', hX, hfits, hblock, hinv', hspan', hfr⟩ :=
        blockLoop_spec (H.parts.size + 1) hinv hspan hne hf (hready f mf rfl hf)
          (Nat.lt_succ_of_lt (hspan.lt_size hinv))
      refine ⟨H', ⟨some f', some l, bs.length, s', e⟩, k, mf'.part, s', X, ?_, hk, ?_, hX, hfits,
        hblock, ⟨hinv', Holds.chain hspan'⟩, hfr⟩
      · unfold rwmGetBlockPtrBytes
        rwa [if_neg htotal]
      · unfold rwmGetBlockPtr
        simp only [hf', some_bind]

/-- Three bytes in two parts, from the first byte on. -/
theorem rwmGetBlockPtrBytes_iff_twoParts :
    twoParts.BlockFound (fun _ => 0) twoPartsMessage [1, 2, 3] := by
  apply (rwmGetBlockPtrBytes_iff twoParts_owns (by decide)).mpr
  intro f mf hfirst hf
  obtain rfl := Option.some.inj hfirst
  obtain rfl := Option.some.inj hf
  exact Or.inl (by decide)

/-- When the bytes of the first part are skipped, the next block is not found. -/
theorem not_rwmGetBlockPtrBytes :
    ∃ H raw, twoParts.rwmSkipData twoPartsMessage 2 = some (H, raw, 2) ∧
      Owns H (fun _ => 0) raw [3] ∧ ¬ H.BlockFound (fun _ => 0) raw [3] := by
  obtain ⟨H, raw, hskip, howns, -⟩ := rwmSkipData_spec 2 twoParts_owns
  refine ⟨H, raw, hskip, howns, ?_⟩
  rintro ⟨H', raw', n, b, o, X, hrun, -⟩
  have hnone : (twoParts.rwmSkipData twoPartsMessage 2).bind
      (fun x => x.1.rwmGetBlockPtrBytes x.2.1) = none := rfl
  rw [hskip, Option.bind_some, hrun] at hnone
  cases hnone

end MsgHeap

end MtprotoProxy
