/-
# A string and a raw message are read alike

`Mirror` relates a state that reads the string `s` to one that reads a raw message with the same
bytes, however these are cut into parts: the message holds what is left of the string, and the
marks and the outputs hold the same bytes.  Each method of the two tables preserves it, and so the
operations agree.

The exception is `copy_through` with a flag `advance` that is not the length: the methods for a
string move the pointer by the flag.  `TlState.Sound` leaves this out, and two uses that the
methods for messages stop with an assertion: a step back by `skip`, and a mark that was not set.
-/
import MtprotoProxy.TlInput

namespace MtprotoProxy

open CLib

/-! ## Messages by their bytes -/

section Messages

variable {S S' : MsgState} {A : MessageValues} {op : RawOp} {i : ℕ} {bs : Bytes}

theorem Refines.live (h : Refines S A) (hi : A.cell i = some bs) : S.Live i := by
  have hrel := h.values.cell i
  rw [hi] at hrel
  generalize hx : S.handles.cell i = x at hrel
  cases hrel with
  | some _ => exact ⟨_, hx⟩

/-- An operation on messages does what it does on their bytes. -/
theorem Refines.run {A' : MessageValues} {out : Bytes} (h : Refines S A) (hop : S.Enabled op)
    (hstep : A.step op = some (A', out)) : ∃ S', S.step op = some (S', out) ∧ Refines S' A' := by
  obtain ⟨S', A'', out', hS, hA, hr⟩ := step_refines h hop
  rw [hstep] at hA
  obtain ⟨rfl, rfl⟩ := Prod.mk.inj (Option.some.inj hA)
  exact ⟨S', hS, hr⟩

theorem Refines.fetch (h : Refines S A) (hi : A.cell i = some bs) (n : ℕ) :
    ∃ S', S.step (.fetch i n) = some (S', bs.take n) ∧
      Refines S' (A.put i (some (bs.drop n))) := by
  refine h.run (h.live hi) ?_
  simp only [MessageValues.step, hi, some_bind]

theorem Refines.lookup (h : Refines S A) (hi : A.cell i = some bs) (n : ℕ) :
    ∃ raw, S.handles.cell i = some raw ∧ S.heap.rwmFetchLookup raw n = some (bs.take n) := by
  obtain ⟨raw, hraw⟩ := h.live hi
  obtain ⟨bs', hA, hholds⟩ := h.values.live hraw
  obtain rfl := Option.mem_unique hi hA
  exact ⟨raw, hraw, MsgHeap.rwmFetchLookup_spec n (h.owns hraw hholds)⟩

theorem Refines.skip (h : Refines S A) (hi : A.cell i = some bs) (n : ℕ) :
    ∃ raw H raw', S.handles.cell i = some raw ∧
      S.heap.rwmSkipData raw n = some (H, raw', min n bs.length) ∧
      Refines ⟨H, S.handles.put i (some raw')⟩ (A.put i (some (bs.drop n))) := by
  obtain ⟨raw, hraw⟩ := h.live hi
  obtain ⟨bs', hA, hholds⟩ := h.values.live hraw
  obtain rfl := Option.mem_unique hi hA
  obtain ⟨H, raw', hrun, howns, hfr⟩ := MsgHeap.rwmSkipData_spec n (h.owns hraw hholds)
  exact ⟨raw, H, raw', hraw, hrun, h.put hraw howns hfr⟩

theorem Refines.clone (h : Refines S A) (hi : A.cell i = some bs) :
    ∃ S', S.step (.clone i) = some (S', []) ∧ Refines S' (A.alloc bs) := by
  refine h.run (h.live hi) ?_
  simp only [MessageValues.step, hi, some_bind]

theorem Refines.free (h : Refines S A) (hi : A.cell i = some bs) :
    ∃ S', S.step (.free i) = some (S', []) ∧ Refines S' (A.put i none) := by
  refine h.run (h.live hi) ?_
  simp only [MessageValues.step, hi, some_bind]

theorem Refines.push (h : Refines S A) (hi : A.cell i = some bs) (data : Bytes) :
    ∃ S', S.step (.pushData i data) = some (S', []) ∧
      Refines S' (A.put i (some (bs ++ data))) := by
  refine h.run (h.live hi) ?_
  simp only [MessageValues.step, MessageValues.change, hi, some_bind]

/-- A union with a message at the end of the table. -/
theorem Refines.union {tail : Bytes} (h : Refines S (A.alloc tail)) (hi : A.cell i = some bs) :
    ∃ S', S.step (.union i A.size) = some (S', []) ∧
      Refines S' (((A.alloc tail).put A.size none).put i (some (bs ++ tail))) := by
  have hi' : (A.alloc tail).cell i = some bs := Store.cell_alloc_of_some hi
  have htail : (A.alloc tail).cell A.size = some tail := Store.cell_alloc_self tail
  refine h.run ⟨h.live hi', h.live htail, (Store.lt_size hi).ne⟩ ?_
  simp only [MessageValues.step, hi', htail, some_bind]

theorem Refines.size (h : Refines S A) : S.handles.size = A.size := h.values.size

/-- What a union with the message at the end leaves. -/
theorem cell_union {tail w : Bytes} {k : ℕ} (hk : A.cell k = some w) (x : Bytes) :
    (((A.alloc tail).put A.size none).put k (some x)).cell k = some x ∧
    ∀ j ≠ k, (((A.alloc tail).put A.size none).put k (some x)).cell j = A.cell j := by
  have hcell : ∀ j, ((A.alloc tail).put A.size none).cell j = A.cell j := by
    intro j
    rw [Store.cell_put (Store.cell_alloc_self tail), Store.cell_alloc]
    split_ifs with hj
    · rw [hj]
      cases hx : A.cell A.size with
      | none => rfl
      | some y => exact absurd (Store.lt_size hx) (lt_irrefl _)
    · rfl
  exact ⟨Store.cell_put_self ((hcell k).trans hk) _,
    fun j hj => (Store.cell_put_ne hj _).trans (hcell j)⟩

/-- The output gets a copy of the first bytes. -/
theorem rawCopyLookup_spec {k : ℕ} {w : Bytes} (len : ℤ) (h : Refines S A)
    (hi : A.cell i = some bs) (hk : A.cell k = some w) :
    ∃ S' A', rawCopyLookup i k len S = some S' ∧ Refines S' A' ∧
      A'.cell k = some (w ++ bs.take len.toNat) ∧ ∀ j ≠ k, A'.cell j = A.cell j := by
  obtain ⟨S₁, h₁, hS₁⟩ := h.clone hi
  have hr : (A.alloc bs).cell S.handles.size = some bs := by
    rw [h.size]
    exact Store.cell_alloc_self bs
  have htrunc : MessageValues.step (A.alloc bs) (.trunc S.handles.size len.toNat)
      = some (A.alloc (bs.take len.toNat), []) := by
    simp only [MessageValues.step, MessageValues.change, hr, some_bind]
    rw [h.size]
    congr 2
    refine Store.ext (fun j => ?_) rfl
    rw [Store.cell_put (Store.cell_alloc_self bs), Store.cell_alloc, Store.cell_alloc]
    split_ifs with hj
    · rfl
    · rfl
  have hop : S₁.Enabled (.trunc S.handles.size len.toNat) := hS₁.live hr
  obtain ⟨S₂, h₂, hS₂⟩ := hS₁.run hop htrunc
  obtain ⟨S₃, h₃, hS₃⟩ := hS₂.union hk
  refine ⟨S₃, _, ?_, hS₃, (cell_union hk _).1, (cell_union hk _).2⟩
  rw [← h.size] at h₃
  simp only [rawCopyLookup, h₁, h₂, h₃, some_bind]

/-- The output gets the first bytes. -/
theorem rawCopySplit_spec {k : ℕ} {w : Bytes} {len : ℤ} (h : Refines S A) (hlen : 0 < len)
    (hi : A.cell i = some bs) (hk : A.cell k = some w) (hki : k ≠ i) :
    ∃ S' A', rawCopySplit i k len S = some S' ∧ Refines S' A' ∧
      A'.cell k = some (w ++ bs.take len.toNat) ∧ A'.cell i = some (bs.drop len.toNat) ∧
      ∀ j ≠ k, j ≠ i → A'.cell j = A.cell j := by
  have hsplit : A.step (.splitHead i len.toNat)
      = some ((A.put i (some (bs.drop len.toNat))).alloc (bs.take len.toNat), []) := by
    simp only [MessageValues.step, hi, some_bind]
  have hop : S.Enabled (.splitHead i len.toNat) := ⟨h.live hi, by omega⟩
  obtain ⟨S₁, h₁, hS₁⟩ := h.run hop hsplit
  have hk' : (A.put i (some (bs.drop len.toNat))).cell k = some w :=
    (Store.cell_put_ne hki _).trans hk
  obtain ⟨S₂, h₂, hS₂⟩ := hS₁.union hk'
  refine ⟨S₂, _, ?_, hS₂, (cell_union hk' _).1, ?_, ?_⟩
  · rw [Store.size_put, ← h.size] at h₂
    simp only [rawCopySplit, h₁, h₂, some_bind]
  · rw [(cell_union hk' _).2 i hki.symm, Store.cell_put_self hi]
  · intro j hjk hji
    rw [(cell_union hk' _).2 j hjk, Store.cell_put_ne hji]

end Messages

/-! ## The relation -/

/-- The marks are at the same place of the string. -/
inductive MarkMirror (s : Bytes) (size : ℕ) (B : MessageValues) (i : ℕ) (markPos : ℤ) :
    Option ℤ → Option ℕ → Prop
  | unset : MarkMirror s size B i markPos none none
  | set {j : ℕ} (hpos : 0 ≤ markPos) (hle : markPos ≤ size) (hne : j ≠ i)
      (hrest : B.cell j = some (s.drop markPos.toNat)) :
      MarkMirror s size B i markPos (some markPos) (some j)

/-- The same bytes were copied out. -/
inductive OutMirror (A B : MessageValues) (i : ℕ) (mark : Option ℕ) : TlOut → TlOut → Prop
  | str (w : Bytes) (pos remaining : ℤ) :
      OutMirror A B i mark ⟨.str w, pos, remaining⟩ ⟨.str w, pos, remaining⟩
  | rawMsg {k k' : ℕ} {w : Bytes} (pos remaining : ℤ) (hleft : A.cell k = some w)
      (hright : B.cell k' = some w) (hinput : k' ≠ i) (hmark : mark ≠ some k') :
      OutMirror A B i mark ⟨.rawMsg k, pos, remaining⟩ ⟨.rawMsg k', pos, remaining⟩

/-- The message `i` holds what is left of the string. -/
structure MirrorAt (s : Bytes) (size : ℕ) (A B : MessageValues) (i : ℕ) (X : TlState ℤ)
    (Y : TlState ℕ) : Prop where
  left : Refines X.msgs A
  right : Refines Y.msgs B
  cur : Y.cur = X.cur
  pos : 0 ≤ X.cur.pos
  remaining : 0 ≤ X.cur.remaining
  total : X.cur.pos + X.cur.remaining = size
  input : X.input = some X.cur.pos
  message : Y.input = some i
  rest : B.cell i = some (s.drop X.cur.pos.toNat)
  mark : MarkMirror s size B i X.cur.markPos X.mark Y.mark
  out : OutMirror A B i Y.mark X.out Y.out

/-- A state that reads a string, and one that reads a message. -/
def Mirror (s : Bytes) (size : ℕ) (X : TlState ℤ) (Y : TlState ℕ) : Prop :=
  ∃ A B i, MirrorAt s size A B i X Y

/-- The same, with what the operations keep. -/
def At (s : Bytes) (size : ℕ) (c : TlIn) (X : TlState ℤ) (Y : TlState ℕ) : Prop :=
  Mirror s size X Y ∧ X.cur = c

section Methods

variable {s : Bytes} {size : ℕ} {A B : MessageValues} {i : ℕ} {X : TlState ℤ} {Y : TlState ℕ}
  {c : TlIn} {len : ℤ}

/-- The bytes of a string that are read from a message. -/
theorem strRead_of_le {pos : ℤ} (hpos : 0 ≤ pos) (hlen : 0 ≤ len) (h : pos + len ≤ s.length) :
    strRead s (some pos) len = some ((s.drop pos.toNat).take len.toNat) :=
  if_pos ⟨hpos, hlen, h⟩

theorem strRead_of_neg (p : Option ℤ) (hlen : len < 0) : strRead s p len = none := by
  cases p with
  | none => rfl
  | some p => exact if_neg (fun h => absurd h.2.1 (not_le.mpr hlen))

theorem drop_drop_toNat {pos : ℤ} (hpos : 0 ≤ pos) (hlen : 0 ≤ len) :
    (s.drop pos.toNat).drop len.toNat = s.drop (pos + len).toNat := by
  rw [List.drop_drop, ← Int.toNat_add hpos hlen]

/-- The message is as long as the rest of the string. -/
theorem MirrorAt.le_length (h : MirrorAt s size A B i X Y) (hsize : size ≤ s.length)
    (hle : len ≤ X.cur.remaining) :
    X.cur.pos + len ≤ s.length ∧ len.toNat ≤ (s.drop X.cur.pos.toNat).length := by
  have hpos := h.pos
  have htotal := h.total
  rw [List.length_drop]
  omega

theorem MarkMirror.ne {markPos : ℤ} {mX : Option ℤ} {mY : Option ℕ} {j : ℕ}
    (h : MarkMirror s size B i markPos mX mY) (hj : mY = some j) : j ≠ i := by
  cases h with
  | unset => exact absurd hj (by simp)
  | set _ _ hne _ => exact Option.some.inj hj ▸ hne

theorem MarkMirror.frame {B' : MessageValues} {markPos : ℤ} {mX : Option ℤ} {mY : Option ℕ}
    (h : MarkMirror s size B i markPos mX mY)
    (hB : ∀ j, mY = some j → B'.cell j = B.cell j) : MarkMirror s size B' i markPos mX mY := by
  cases h with
  | unset => exact .unset
  | set hpos hle hne hrest => exact .set hpos hle hne ((hB _ rfl).trans hrest)

/-- Only the message that is written to matters, and that it is another one. -/
theorem OutMirror.move {A' B' : MessageValues} {i' : ℕ} {mark mark' : Option ℕ} {o o' : TlOut}
    (h : OutMirror A B i mark o o') (hA : ∀ k w, A.cell k = some w → A'.cell k = some w)
    (hB : ∀ k w, k ≠ i → mark ≠ some k → B.cell k = some w →
      B'.cell k = some w ∧ k ≠ i' ∧ mark' ≠ some k) : OutMirror A' B' i' mark' o o' := by
  cases h with
  | str w pos remaining => exact .str w pos remaining
  | rawMsg pos remaining hleft hright hinput hmark =>
    obtain ⟨hright', hinput', hmark'⟩ := hB _ _ hinput hmark hright
    exact .rawMsg pos remaining (hA _ _ hleft) hright' hinput' hmark'

theorem OutMirror.frame {A' B' : MessageValues} {mark : Option ℕ} {o o' : TlOut}
    (h : OutMirror A B i mark o o') (hA : ∀ k w, A.cell k = some w → A'.cell k = some w)
    (hB : ∀ k w, k ≠ i → mark ≠ some k → B.cell k = some w → B'.cell k = some w) :
    OutMirror A' B' i mark o o' :=
  h.move hA (fun k w hki hk hw => ⟨hB k w hki hk hw, hki, hk⟩)

/-- Both move over bytes, and the outputs may change. -/
theorem MirrorAt.move {A' B' : MessageValues} {S S' : MsgState} {o o' : TlOut}
    (h : MirrorAt s size A B i X Y) (hlen : 0 ≤ len) (hle : len ≤ X.cur.remaining)
    (hleft : Refines S A') (hright : Refines S' B')
    (hrest : B'.cell i = some ((s.drop X.cur.pos.toNat).drop len.toNat))
    (hmark : ∀ j, Y.mark = some j → B'.cell j = B.cell j)
    (hout : OutMirror A' B' i Y.mark o o') :
    Mirror s size { X.moveIn len with msgs := S, cur := X.cur.advance len, out := o }
      { Y with msgs := S', input := some i, cur := Y.cur.advance len, out := o' } := by
  have hpos := h.pos
  have htotal := h.total
  refine ⟨A', B', i, ⟨hleft, hright, congrArg (·.advance len) h.cur, add_nonneg hpos hlen,
    sub_nonneg.mpr hle, ?_, ?_, rfl, ?_, h.mark.frame hmark, hout⟩⟩
  · change X.cur.pos + len + (X.cur.remaining - len) = size
    omega
  · change X.input.map (· + len) = some (X.cur.pos + len)
    rw [h.input, Option.map_some]
  · rw [hrest, drop_drop_toNat hpos hlen]
    rfl

theorem MirrorAt.over {S : MsgState} (h : MirrorAt s size A B i X Y) (hlen : 0 ≤ len)
    (hle : len ≤ X.cur.remaining)
    (hS : Refines S (B.put i (some ((s.drop X.cur.pos.toNat).drop len.toNat)))) :
    Mirror s size { X.moveIn len with cur := X.cur.advance len }
      { Y with msgs := S, input := some i, cur := Y.cur.advance len } :=
  h.move hlen hle h.left hS (Store.cell_put_self h.rest _)
    (fun _ hj => Store.cell_put_ne (h.mark.ne hj) _)
    (h.out.frame (fun _ _ hk => hk) (fun _ _ hki _ hk => (Store.cell_put_ne hki _).trans hk))

theorem takeRawData_eq {ι : Type} (M : TlInMethods ι) (X : TlState ι) :
    tlfTakeRawData M len X = (M.fetchRawData len X).bind
      (fun r => some (r.1, { r.2 with cur := r.2.cur.advance len })) := rfl

theorem skipRawData_eq {ι : Type} (M : TlInMethods ι) (X : TlState ι) :
    tlfSkipRawData M len X = (M.fetchMove len X).bind
      (fun r => some ((), { r.2 with cur := r.2.cur.advance len })) := rfl

/-- The bytes that are fetched are the same. -/
theorem takeRawData_agrees (hsize : size ≤ s.length) (hle : len ≤ c.remaining) :
    Agrees (At s size c) (tlfTakeRawData (tlInStrMethods s) len)
      (tlfTakeRawData tlInRawMsgMethods len) (fun _ => At s size (c.advance len)) := by
  rintro X Y ⟨⟨A, B, i, h⟩, rfl⟩
  rw [takeRawData_eq, takeRawData_eq]
  obtain ⟨hend, hlength⟩ := h.le_length hsize hle
  obtain ⟨S, hstep, hS⟩ := h.right.fetch h.rest len.toNat
  simp only [tlInStrMethods, tlInRawMsgMethods, strFetchRawData, rawFetchRawData, h.message, hstep,
    some_bind]
  rcases lt_or_ge len 0 with hneg | hlen
  · -- neither reads a negative number of bytes
    rw [strRead_of_neg _ hneg, if_neg (fun hb => absurd hb.1 (not_le.mpr hneg))]
    exact .inl ⟨rfl, rfl⟩
  · rw [h.input, strRead_of_le h.pos hlen hend,
      if_pos ⟨hlen, by rw [List.length_take, Nat.min_eq_left hlength]⟩]
    exact .inr ⟨_, _, _, rfl, rfl, h.over hlen hle hS, rfl⟩

/-- Both skip the same. -/
theorem skipRawData_agrees (hsize : size ≤ s.length) (hlen : 0 ≤ len) (hle : len ≤ c.remaining) :
    Agrees (At s size c) (tlfSkipRawData (tlInStrMethods s) len)
      (tlfSkipRawData tlInRawMsgMethods len) (fun _ => At s size (c.advance len)) := by
  rintro X Y ⟨⟨A, B, i, h⟩, rfl⟩
  rw [skipRawData_eq, skipRawData_eq]
  obtain ⟨hend, hlength⟩ := h.le_length hsize hle
  obtain ⟨raw, H, raw', hraw, hrun, hS⟩ := h.right.skip h.rest len.toNat
  simp only [tlInStrMethods, tlInRawMsgMethods, strFetchMove, rawFetchMove, h.message, hraw, hrun,
    some_bind]
  rw [if_pos ⟨hlen, Nat.min_eq_left hlength⟩]
  exact .inr ⟨_, _, _, rfl, rfl, h.over hlen hle hS, rfl⟩

/-- Both see the same bytes. -/
theorem lookup_agrees (hsize : size ≤ s.length) (hle : len ≤ c.remaining) :
    Agrees (At s size c) ((tlInStrMethods s).fetchLookup len)
      (tlInRawMsgMethods.fetchLookup len) (fun _ => At s size c) := by
  rintro X Y ⟨⟨A, B, i, h⟩, rfl⟩
  obtain ⟨hend, hlength⟩ := h.le_length hsize hle
  obtain ⟨raw, hraw, hrun⟩ := h.right.lookup h.rest len.toNat
  simp only [tlInStrMethods, tlInRawMsgMethods, strFetchLookup, rawFetchLookup, h.message, hraw,
    hrun, some_bind]
  rcases lt_or_ge len 0 with hneg | hlen
  · rw [strRead_of_neg _ hneg, if_neg (fun hb => absurd hb.1 (not_le.mpr hneg))]
    exact .inl ⟨rfl, rfl⟩
  · rw [h.input, strRead_of_le h.pos hlen hend,
      if_pos ⟨hlen, by rw [List.length_take, Nat.min_eq_left hlength]⟩]
    exact .inr ⟨_, _, _, rfl, rfl, ⟨A, B, i, h⟩, rfl⟩

/-- A mark keeps the place: as a pointer, and as a clone of the message. -/
theorem mark_agrees : Agrees (Mirror s size) (tlInStrMethods s).fetchMark
    tlInRawMsgMethods.fetchMark (fun _ => Mirror s size) := by
  rintro X Y ⟨A, B, i, h⟩
  obtain ⟨S, hstep, hS⟩ := h.right.clone h.rest
  simp only [tlInStrMethods, tlInRawMsgMethods, strFetchMark, rawFetchMark, h.message, hstep,
    some_bind]
  have hmark := h.mark
  generalize hmX : X.mark = mX at hmark ⊢
  generalize hmY : Y.mark = mY at hmark ⊢
  have hout := h.out
  rw [hmY] at hout
  cases hmark with
  | set => exact .inl ⟨rfl, rfl⟩
  | unset =>
    have hi : i < B.size := Store.lt_size h.rest
    have htotal := h.total
    have hremaining := h.remaining
    refine .inr ⟨_, _, _, rfl, rfl, A, _, i, h.left, hS, ?_, h.pos, h.remaining, h.total, h.input,
      rfl, Store.cell_alloc_of_some h.rest, ?_, ?_⟩
    · rw [h.cur]
    · change MarkMirror s size (B.alloc _) i X.cur.pos X.input (some Y.msgs.handles.size)
      rw [h.input, h.right.size]
      exact .set h.pos (by omega) (ne_of_gt hi) (Store.cell_alloc_self _)
    · change OutMirror A (B.alloc _) i (some Y.msgs.handles.size) X.out Y.out
      rw [h.right.size]
      exact hout.move (fun _ _ hw => hw) (fun k w hki _ hw => ⟨Store.cell_alloc_of_some hw, hki,
        fun hk => (Store.lt_size hw).ne (Option.some.inj hk).symm⟩)

/-- With a mark set, both go back to it. -/
theorem mark_restore_agrees : Agrees (fun X Y => Mirror s size X Y ∧ X.mark.isSome)
    (tlInStrMethods s).fetchMarkRestore tlInRawMsgMethods.fetchMarkRestore
    (fun _ => Mirror s size) := by
  rintro X Y ⟨⟨A, B, i, h⟩, hset⟩
  obtain ⟨S, hstep, hS⟩ := h.right.free h.rest
  have hmark := h.mark
  have hout := h.out
  have htotal := h.total
  generalize hmX : X.mark = mX at hmark hset
  generalize hmY : Y.mark = mY at hmark hout
  cases hmark with
  | unset => exact absurd hset (by simp)
  | @set j hpos hle hne hrest =>
    simp only [tlInStrMethods, tlInRawMsgMethods, strFetchMarkRestore, rawFetchMarkRestore,
      h.message, hmY, hstep, some_bind]
    refine .inr ⟨_, _, _, rfl, rfl, A, _, j, h.left, hS, ?_, hpos, ?_, ?_, hmX, rfl,
      (Store.cell_put_ne hne none).trans hrest, .unset, ?_⟩
    · rw [h.cur]
    · change 0 ≤ X.cur.remaining + (X.cur.pos - X.cur.markPos)
      omega
    · change X.cur.markPos + (X.cur.remaining + (X.cur.pos - X.cur.markPos)) = size
      omega
    · change OutMirror A (B.put i none) j none X.out Y.out
      exact hout.move (fun _ _ hw => hw) (fun k w hki hk hw =>
        ⟨(Store.cell_put_ne hki none).trans hw, fun hb => hk (congrArg some hb.symm), by simp⟩)

/-- With a mark set, both forget it. -/
theorem mark_delete_agrees : Agrees (fun X Y => Mirror s size X Y ∧ X.mark.isSome)
    (tlInStrMethods s).fetchMarkDelete tlInRawMsgMethods.fetchMarkDelete
    (fun _ => Mirror s size) := by
  rintro X Y ⟨⟨A, B, i, h⟩, hset⟩
  have hmark := h.mark
  have hout := h.out
  generalize hmX : X.mark = mX at hmark hset
  generalize hmY : Y.mark = mY at hmark hout
  cases hmark with
  | unset => exact absurd hset (by simp)
  | @set j hpos hle hne hrest =>
    obtain ⟨S, hstep, hS⟩ := h.right.free hrest
    simp only [tlInStrMethods, tlInRawMsgMethods, strFetchMarkDelete, rawFetchMarkDelete, hmY,
      hstep, some_bind]
    refine .inr ⟨_, _, _, rfl, rfl, A, _, i, h.left, hS, h.cur, h.pos, h.remaining, h.total,
      h.input, h.message, (Store.cell_put_ne hne.symm none).trans h.rest, .unset, ?_⟩
    change OutMirror A (B.put j none) i none X.out Y.out
    exact hout.move (fun _ _ hw => hw) (fun k w hki hk hw =>
      ⟨(Store.cell_put_ne (fun hb => hk (congrArg some hb.symm)) none).trans hw, hki, by simp⟩)

/-- **What is copied.**  Both outputs get the same bytes, and the inputs move alike. -/
theorem MirrorAt.copied {advance : ℤ} (h : MirrorAt s size A B i X Y) (hsize : size ≤ s.length)
    (hlen : 0 ≤ len) (hle : len ≤ X.cur.remaining) (hadv : advance = 0 ∨ advance = len) :
    ∃ S S' A' B' b b', strCopyThrough s len advance X
        = some ((), { X.moveIn advance with msgs := S, out := { X.out with buffer := b } }) ∧
      rawCopyThrough len advance Y
        = some ((), { Y with msgs := S', input := some i, out := { Y.out with buffer := b' } }) ∧
      Refines S A' ∧ Refines S' B' ∧
      B'.cell i = some ((s.drop X.cur.pos.toNat).drop advance.toNat) ∧
      (∀ j, Y.mark = some j → B'.cell j = B.cell j) ∧
      ∀ pos remaining, OutMirror A' B' i Y.mark ⟨b, pos, remaining⟩ ⟨b', pos, remaining⟩ := by
  obtain ⟨hend, hlength⟩ := h.le_length hsize hle
  obtain ⟨msgs, input, mark, c, out⟩ := X
  obtain ⟨msgs', input', mark', c', out'⟩ := Y
  obtain rfl : input = some c.pos := h.input
  obtain rfl : input' = some i := h.message
  have hread : strRead s (some c.pos) len = _ := strRead_of_le h.pos hlen hend
  have htake : (((s.drop c.pos.toNat).take len.toNat).length = len.toNat) := by
    rw [List.length_take, Nat.min_eq_left hlength]
  have hout : OutMirror A B i mark' out out' := h.out
  have hrefines : Refines msgs A := h.left
  have hrefines' : Refines msgs' B := h.right
  have hbytes : B.cell i = some (s.drop c.pos.toNat) := h.rest
  simp only [strCopyThrough, rawCopyThrough, TlState.write, hread, some_bind]
  cases hout with
  | str w pos remaining =>
    rcases eq_or_ne advance 0 with rfl | hne
    · obtain ⟨raw, hraw, hrun⟩ := hrefines'.lookup hbytes len.toNat
      refine ⟨msgs, msgs', A, B, _, _, rfl, ?_, h.left, h.right, h.rest, fun _ _ => rfl,
        fun pos remaining => .str _ pos remaining⟩
      simp only [if_true, rawFetchLookup, hraw, hrun, htake, hlen, some_bind, and_self]
    · obtain rfl := hadv.resolve_left hne
      obtain ⟨S, hstep, hS⟩ := hrefines'.fetch hbytes advance.toNat
      refine ⟨msgs, S, A, _, _, _, rfl, ?_, h.left, hS, Store.cell_put_self h.rest _,
        fun _ hj => Store.cell_put_ne (h.mark.ne hj) _, fun pos remaining => .str _ pos remaining⟩
      simp only [if_neg hne, rawFetchRawData, hstep, htake, hlen, some_bind, and_self, if_true]
  | @rawMsg k k' w pos remaining hleft hright hki hk =>
    obtain ⟨S, hpush, hS⟩ := hrefines.push hleft ((s.drop c.pos.toNat).take len.toNat)
    have hmark : ∀ j, mark' = some j → j ≠ k' := fun j hj hjk => hk (hjk ▸ hj)
    rcases eq_or_ne advance 0 with rfl | hne
    · obtain ⟨S', B', hcopy, hS', hout', hsame⟩ := rawCopyLookup_spec len hrefines' hbytes hright
      refine ⟨S, S', _, B', _, _, ?_, ?_, hS, hS', ?_, ?_, fun pos remaining =>
        .rawMsg pos remaining (Store.cell_put_self hleft _) hout' hki hk⟩
      · simp only [hpush, Option.map_some]
        rfl
      · simp only [if_true, hcopy, Option.map_some]
      · exact (hsame i hki.symm).trans h.rest
      · exact fun j hj => hsame j (hmark j hj)
    · obtain rfl := hadv.resolve_left hne
      obtain ⟨S', B', hcopy, hS', hout', hrest, hsame⟩ :=
        rawCopySplit_spec hrefines' (lt_of_le_of_ne hlen hne.symm) hbytes hright hki
      refine ⟨S, S', _, B', _, _, ?_, ?_, hS, hS', hrest, ?_, fun pos remaining =>
        .rawMsg pos remaining (Store.cell_put_self hleft _) hout' hki hk⟩
      · simp only [hpush, Option.map_some]
        rfl
      · simp only [if_neg hne, if_pos hlen, hcopy, Option.map_some]
      · exact fun j hj => hsame j (hmark j hj) (h.mark.ne hj)

/-- The end of `tl_copy_through`, after the checks. -/
theorem copy_eq {ι : Type} (M : TlInMethods ι) (advance : ℤ) (X : TlState ι) :
    (do
      M.copyThrough len advance
      tlAdvance len advance
      tlAdvanceOut len
      pure len : TlM ι ℤ) X = (M.copyThrough len advance X).bind (fun r => some (len,
        { r.2 with
          cur := if advance = 0 then r.2.cur else r.2.cur.advance len
          out := ⟨r.2.out.buffer, r.2.out.pos + len, r.2.out.remaining - len⟩ })) := rfl

theorem TlIn.advance_eq {advance : ℤ} (hadv : advance = 0 ∨ advance = len) (c : TlIn) :
    (if advance = 0 then c else c.advance len) = c.advance advance := by
  rcases eq_or_ne advance 0 with rfl | hne
  · simp only [TlIn.advance, add_zero, sub_zero, if_true]
  · rw [if_neg hne, hadv.resolve_left hne]

/-- Both copy the same when the flag is the length, or not set. -/
theorem copy_agrees {advance : ℤ} (hsize : size ≤ s.length) (hlen : 0 ≤ len)
    (hle : len ≤ c.remaining) (hadv : advance = 0 ∨ advance = len) :
    Agrees (At s size c)
      (do
        (tlInStrMethods s).copyThrough len advance
        tlAdvance len advance
        tlAdvanceOut len
        pure len)
      (do
        tlInRawMsgMethods.copyThrough len advance
        tlAdvance len advance
        tlAdvanceOut len
        pure len) (fun _ => Mirror s size) := by
  rintro X Y ⟨⟨A, B, i, h⟩, rfl⟩
  rw [copy_eq, copy_eq]
  obtain ⟨S, S', A', B', b, b', hstr, hraw, hS, hS', hrest, hmark, hout⟩ :=
    h.copied hsize hlen hle hadv
  simp only [tlInStrMethods, tlInRawMsgMethods, hstr, hraw, Option.bind_some,
    TlIn.advance_eq hadv]
  have hpos : Y.out.pos = X.out.pos ∧ Y.out.remaining = X.out.remaining := by
    have hout := h.out
    generalize X.out = o at hout ⊢
    generalize Y.out = o' at hout ⊢
    cases hout with
    | str => exact ⟨rfl, rfl⟩
    | rawMsg => exact ⟨rfl, rfl⟩
  rw [hpos.1, hpos.2]
  refine .inr ⟨_, _, _, rfl, rfl, h.move ?_ ?_ hS hS' hrest hmark (hout _ _)⟩
  · rcases hadv with rfl | rfl
    · exact le_refl 0
    · exact hlen
  · rcases hadv with rfl | rfl
    · exact h.remaining
    · exact hle

end Methods

end MtprotoProxy
