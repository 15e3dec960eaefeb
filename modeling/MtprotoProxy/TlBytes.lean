/-
# Inputs by the bytes that are left

`TlReader` says what the methods of an input do as long as they stay inside of it: bytes are seen,
taken or skipped in their order.  A string and a raw message are such inputs.  `TlLeft` says which
bytes the operations may still read, and each of the basic operations is described by what it does
to them.

`TlInMethods.within` is the same input with a guard: a method that is asked for more bytes than are
left has no result.
-/
import MtprotoProxy.Returns
import MtprotoProxy.TlReading

namespace MtprotoProxy

open CLib

section Readers

variable {ι : Type}

/-- The methods of an input, where `Has X bs` says that the input of `X` goes on with `bs`. -/
structure TlReader (M : TlInMethods ι) (Has : TlState ι → Bytes → Prop) : Prop where
  cur : ∀ X bs c, Has X bs → Has { X with cur := c } bs
  fetch : ∀ X bs (n : ℕ), Has X bs → n ≤ bs.length →
    ∃ X', M.fetchRawData n X = some (bs.take n, X') ∧ X'.cur = X.cur ∧ Has X' (bs.drop n)
  move : ∀ X bs (n : ℕ), Has X bs → n ≤ bs.length →
    ∃ X', M.fetchMove n X = some ((), X') ∧ X'.cur = X.cur ∧ Has X' (bs.drop n)
  lookup : ∀ X bs (n : ℕ), Has X bs → n ≤ bs.length → M.fetchLookup n X = some (bs.take n, X)

/-- A guard in front of a method: no more than what is left is asked for. -/
def tlGuard {α : Type} (len : ℤ) (m : TlM ι α) : TlM ι α :=
  fun X => if 0 ≤ len ∧ len ≤ X.cur.remaining then m X else none

/-- The methods that read, with a guard. -/
def TlInMethods.within (M : TlInMethods ι) : TlInMethods ι :=
  { M with
    fetchRawData := fun len => tlGuard len (M.fetchRawData len)
    fetchMove := fun len => tlGuard len (M.fetchMove len)
    fetchLookup := fun len => tlGuard len (M.fetchLookup len) }

/-- Two inputs are the same for whoever asks for no more than what is left. -/
structure SameWithin (M N : TlInMethods ι) : Prop where
  fetch : ∀ (n : ℕ) (X : TlState ι), n ≤ X.cur.remaining → N.fetchRawData n X = M.fetchRawData n X
  move : ∀ (n : ℕ) (X : TlState ι), n ≤ X.cur.remaining → N.fetchMove n X = M.fetchMove n X
  lookup : ∀ (n : ℕ) (X : TlState ι), n ≤ X.cur.remaining → N.fetchLookup n X = M.fetchLookup n X

theorem SameWithin.refl (M : TlInMethods ι) : SameWithin M M :=
  ⟨fun _ _ _ => rfl, fun _ _ _ => rfl, fun _ _ _ => rfl⟩

theorem SameWithin.within (M : TlInMethods ι) : SameWithin M M.within where
  fetch n _ h := if_pos ⟨Int.natCast_nonneg n, h⟩
  move n _ h := if_pos ⟨Int.natCast_nonneg n, h⟩
  lookup n _ h := if_pos ⟨Int.natCast_nonneg n, h⟩

/-! ## The two kinds of input -/

/-- A string goes on with the bytes behind a pointer. -/
def StrHas (s : Bytes) (X : TlState ℤ) (bs : Bytes) : Prop :=
  ∃ p : ℕ, X.input = some (p : ℤ) ∧ p ≤ s.length ∧ bs = s.drop p

/-- A message goes on with its bytes. -/
def MessageHas (X : TlState ℕ) (bs : Bytes) : Prop :=
  ∃ A i, Refines X.msgs A ∧ X.input = some i ∧ A.cell i = some bs

theorem strRead_drop {s : Bytes} {p n : ℕ} (hp : p ≤ s.length) (hn : n ≤ (s.drop p).length) :
    strRead s (some (p : ℤ)) n = some ((s.drop p).take n) := by
  rw [List.length_drop] at hn
  exact if_pos ⟨Int.natCast_nonneg p, Int.natCast_nonneg n, by omega⟩

/-- **A string is read** byte by byte. -/
theorem strReader (s : Bytes) : TlReader (tlInStrMethods s) (StrHas s) := by
  have hmove {X : TlState ℤ} {p n : ℕ} (hX : X.input = some (p : ℤ)) (hp : p ≤ s.length)
      (hn : n ≤ (s.drop p).length) : StrHas s (X.moveIn n) ((s.drop p).drop n) := by
    rw [List.length_drop] at hn
    refine ⟨p + n, ?_, by omega, by rw [List.drop_drop]⟩
    change X.input.map (· + (n : ℤ)) = _
    rw [hX, Option.map_some, Nat.cast_add]
  refine ⟨fun X bs c h => h, ?_, ?_, ?_⟩
  · rintro X bs n ⟨p, hX, hp, rfl⟩ hn
    refine ⟨X.moveIn n, ?_, rfl, hmove hX hp hn⟩
    simp only [tlInStrMethods, strFetchRawData, hX, strRead_drop hp hn, some_bind]
  · rintro X bs n ⟨p, hX, hp, rfl⟩ hn
    exact ⟨X.moveIn n, rfl, rfl, hmove hX hp hn⟩
  · rintro X bs n ⟨p, hX, hp, rfl⟩ hn
    simp only [tlInStrMethods, strFetchLookup, hX, strRead_drop hp hn, some_bind]

/-- **A message is read** byte by byte, however it is cut into parts. -/
theorem messageReader : TlReader tlInRawMsgMethods MessageHas := by
  refine ⟨fun X bs c h => h, ?_, ?_, ?_⟩
  · rintro X bs n ⟨A, i, hA, hX, hi⟩ hn
    obtain ⟨S, hstep, hS⟩ := hA.fetch hi n
    refine ⟨{ X with msgs := S }, ?_, rfl, _, i, hS, hX, Store.cell_put_self hi _⟩
    simp only [tlInRawMsgMethods, rawFetchRawData, hX, Int.toNat_natCast, hstep, some_bind]
    exact if_pos ⟨Int.natCast_nonneg n, by rw [List.length_take, Nat.min_eq_left hn]⟩
  · rintro X bs n ⟨A, i, hA, hX, hi⟩ hn
    obtain ⟨raw, H, raw', hraw, hrun, hS⟩ := hA.skip hi n
    refine ⟨{ X with msgs := ⟨H, X.msgs.handles.put i (some raw')⟩ }, ?_, rfl, _, i, hS, hX,
      Store.cell_put_self hi _⟩
    simp only [tlInRawMsgMethods, rawFetchMove, hX, Int.toNat_natCast, hraw, hrun, some_bind]
    exact if_pos ⟨Int.natCast_nonneg n, Nat.min_eq_left hn⟩
  · rintro X bs n ⟨A, i, hA, hX, hi⟩ hn
    obtain ⟨raw, hraw, hrun⟩ := hA.lookup hi n
    simp only [tlInRawMsgMethods, rawFetchLookup, hX, Int.toNat_natCast, hraw, hrun, some_bind]
    exact if_pos ⟨Int.natCast_nonneg n, by rw [List.length_take, Nat.min_eq_left hn]⟩

end Readers

/-! ## The basic operations -/

theorem TlIn.advance_advance (c : TlIn) (m n : ℕ) :
    (c.advance m).advance n = c.advance ((m + n : ℕ) : ℤ) := by
  unfold TlIn.advance
  rw [Nat.cast_add, add_assoc, sub_sub]

theorem TlIn.advance_zero (c : TlIn) : c.advance ((0 : ℕ) : ℤ) = c := by
  unfold TlIn.advance
  rw [Nat.cast_zero, add_zero, sub_zero]

theorem TlIn.check_of_fits {c : TlIn} {n : ℤ} (hfits : c.Fits n) (herror : c.error = none) :
    c.check n = (true, c) := by
  unfold TlIn.check
  rw [if_pos hfits, herror]
  rfl

theorem TlIn.check_counts (c : TlIn) (n : ℤ) :
    (c.check n).2.remaining = c.remaining ∧ (c.check n).2.pos = c.pos := by
  obtain ⟨hremaining, hpos, -⟩ := c.setError_counts TlIn.tlErrorNotEnoughData (c.notEnoughText n)
  unfold TlIn.check
  split_ifs
  · exact ⟨rfl, rfl⟩
  · exact ⟨hremaining, hpos⟩

theorem TlIn.setError_isSome (c : TlIn) (errnum : ℤ) (text : String) :
    (c.setError errnum text).error.isSome := by
  unfold TlIn.setError
  split_ifs with h
  · exact h
  · rfl

theorem TlIn.check_isSome {c : TlIn} {n : ℤ} (h : c.error.isSome ∨ c.remaining < n) (hn : 0 ≤ n) :
    (c.check n).2.error.isSome := by
  unfold TlIn.check
  split_ifs with hfits
  · rcases h with herror | hlt
    · exact herror
    · exact absurd (hfits.1 hn) (not_le.mpr hlt)
  · exact c.setError_isSome _ _

/-- The operations keep `c`, and may still read the bytes `bs`. -/
def TlLeft {ι : Type} (Has : TlState ι → Bytes → Prop) (c : TlIn) (bs : Bytes) (X : TlState ι) :
    Prop :=
  X.cur = c ∧ c.remaining = bs.length ∧ ∃ more, Has X (bs ++ more)

section Basic

variable {ι α β : Type} {M N : TlInMethods ι} {Has : TlState ι → Bytes → Prop} {c : TlIn}
  {bs : Bytes}

theorem TlLeft.setCur {X : TlState ι} (hM : TlReader M Has) (h : TlLeft Has c bs X) {c' : TlIn}
    (hremaining : c'.remaining = c.remaining) : TlLeft Has c' bs { X with cur := c' } := by
  obtain ⟨-, hlen, more, hhas⟩ := h
  exact ⟨rfl, hremaining.trans hlen, more, hM.cur X _ c' hhas⟩

theorem take_left {n : ℕ} (hn : n ≤ bs.length) (more : Bytes) :
    (bs ++ more).take n = bs.take n := by
  rw [List.take_append_of_le_length hn]

/-- What is left behind the first bytes. -/
theorem TlLeft.advance {X X' : TlState ι} {n : ℕ} (hM : TlReader M Has) (hn : n ≤ bs.length)
    (h : TlLeft Has c bs X) (hcur : X'.cur = X.cur) {more : Bytes}
    (hhas : Has X' ((bs ++ more).drop n)) :
    TlLeft Has (c.advance n) (bs.drop n) { X' with cur := X'.cur.advance n } := by
  obtain ⟨rfl, hlen, -⟩ := h
  rw [List.drop_append_of_le_length hn] at hhas
  refine ⟨by rw [hcur], ?_, more, hM.cur X' _ _ hhas⟩
  rw [List.length_drop]
  change X.cur.remaining - n = _
  omega

/-- Bytes are taken. -/
theorem takeRawData_returns (hM : TlReader M Has) (hN : SameWithin M N) {n : ℕ}
    (hn : n ≤ bs.length) :
    Returns (TlLeft Has c bs) (tlfTakeRawData M n) (tlfTakeRawData N n)
      (fun a X => a = bs.take n ∧ TlLeft Has (c.advance n) (bs.drop n) X) := by
  intro X h
  obtain ⟨rfl, hlen, more, hhas⟩ := id h
  obtain ⟨X', hrun, hcur, hhas'⟩ := hM.fetch X _ n hhas (by rw [List.length_append]; omega)
  rw [take_left hn] at hrun
  refine ⟨_, { X' with cur := X'.cur.advance n }, ?_, ?_, rfl, h.advance hM hn hcur hhas'⟩
  · rw [takeRawData_eq, hrun, Option.bind_some]
  · rw [takeRawData_eq, hN.fetch n X (by omega), hrun, Option.bind_some]

/-- Bytes are skipped. -/
theorem skipRawData_returns (hM : TlReader M Has) (hN : SameWithin M N) {n : ℕ}
    (hn : n ≤ bs.length) :
    Returns (TlLeft Has c bs) (tlfSkipRawData M n) (tlfSkipRawData N n)
      (fun _ => TlLeft Has (c.advance n) (bs.drop n)) := by
  intro X h
  obtain ⟨rfl, hlen, more, hhas⟩ := id h
  obtain ⟨X', hrun, hcur, hhas'⟩ := hM.move X _ n hhas (by rw [List.length_append]; omega)
  refine ⟨(), { X' with cur := X'.cur.advance n }, ?_, ?_, h.advance hM hn hcur hhas'⟩
  · rw [skipRawData_eq, hrun, Option.bind_some]
  · rw [skipRawData_eq, hN.move n X (by omega), hrun, Option.bind_some]

/-- Bytes are seen. -/
theorem lookup_returns (hM : TlReader M Has) (hN : SameWithin M N) {n : ℕ} (hn : n ≤ bs.length) :
    Returns (TlLeft Has c bs) (M.fetchLookup n) (N.fetchLookup n)
      (fun a X => a = bs.take n ∧ TlLeft Has c bs X) := by
  intro X h
  obtain ⟨rfl, hlen, more, hhas⟩ := id h
  have hrun := hM.lookup X _ n hhas (by rw [List.length_append]; omega)
  rw [take_left hn] at hrun
  exact ⟨_, X, hrun, by rw [hN.lookup n X (by omega), hrun], rfl, h⟩

/-- Reading what is kept. -/
theorem tlIn_returns {f g : TlIn → TlM ι β} {Q : β → TlState ι → Prop}
    (h : Returns (TlLeft Has c bs) (f c) (g c) Q) :
    Returns (TlLeft Has c bs) (tlIn >>= f) (tlIn >>= g) Q := by
  rintro X ⟨rfl, hX⟩
  exact h X ⟨rfl, hX⟩

/-- An operation that ends with an error. -/
theorem setError_returns (hM : TlReader M Has) (errnum : ℤ) (text : String) (a : α) :
    Returns (TlLeft Has c bs)
      (do
        tlfSetError errnum text
        pure a : TlM ι α)
      (do
        tlfSetError errnum text
        pure a : TlM ι α)
      (fun b X => b = a ∧ TlLeft Has (c.setError errnum text) bs X) := by
  rintro X ⟨rfl, hX⟩
  exact ⟨a, { X with cur := X.cur.setError errnum text }, rfl, rfl, rfl,
    TlLeft.setCur hM ⟨rfl, hX⟩ (X.cur.setError_counts errnum text).1⟩

theorem tlfCheck_returns (hM : TlReader M Has) (n : ℤ) :
    Returns (TlLeft Has c bs) (tlfCheck n) (tlfCheck n)
      (fun ok X => ok = (c.check n).1 ∧ TlLeft Has (c.check n).2 bs X) := by
  rintro X ⟨rfl, hX⟩
  exact ⟨_, { X with cur := (X.cur.check n).2 }, rfl, rfl, rfl,
    TlLeft.setCur hM ⟨rfl, hX⟩ (X.cur.check_counts n).1⟩

/-- A check for bytes that are there. -/
theorem check_returns (hM : TlReader M Has) {n : ℕ} {m m' e e' : TlM ι β}
    {Q : β → TlState ι → Prop} (herror : c.error = none) (hn : n ≤ bs.length)
    (hok : Returns (TlLeft Has c bs) m m' Q) :
    Returns (TlLeft Has c bs) (do if ← tlfCheck n then m else e)
      (do if ← tlfCheck n then m' else e') Q := by
  refine (tlfCheck_returns hM n).bind (fun ok => Returns.given ?_)
  rintro rfl X hX
  have hlen := hX.2.1
  rw [(c.check_counts n).1] at hlen
  have hcheck := TlIn.check_of_fits (n := n) ⟨fun _ => by omega, fun h => by omega⟩ herror
  rw [hcheck] at hX ⊢
  exact hok X hX

/-- A check that fails, for bytes that are not there or an error before. -/
theorem check_fails_returns (hM : TlReader M Has) {n : ℕ} {m m' e e' : TlM ι β}
    {Q : β → TlState ι → Prop} (hfail : c.error.isSome ∨ c.remaining < n)
    (herr : Returns (TlLeft Has (c.check n).2 bs) e e' Q) :
    Returns (TlLeft Has c bs) (do if ← tlfCheck n then m else e)
      (do if ← tlfCheck n then m' else e') Q := by
  have hcheck : (c.check n).1 = false := by
    unfold TlIn.check
    split_ifs with hfits
    · rcases hfail with herror | hn
      · obtain ⟨e, he⟩ := Option.isSome_iff_exists.mp herror
        rw [he]
        rfl
      · have := hfits.1 (Int.natCast_nonneg n)
        omega
    · rfl
  refine (tlfCheck_returns hM n).bind (fun ok => Returns.given ?_)
  rintro rfl
  rw [hcheck]
  exact herr

end Basic

end MtprotoProxy
