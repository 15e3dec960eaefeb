/-
# A store in two parts

`Parts K F H` says that the store `H` consists of the store `K` and, beside it, of the cells `F`.
A program that works on `K` leaves `F` as it is, whatever `F` is; what it proves of `K` it proves
of every store that `K` is a part of.

A cell that is set aside goes from `K` to `F` and back: `hide` and `unhide`.

This file names nothing of the proxy.
-/
import MtprotoProxy.Store

namespace Store

variable {α : Type*} {s K H : Store α} {F : ℕ → Option α} {w : α → ℕ} {p : ℕ} {a b : α}

theorem fresh_succ (s : Store α) : ∀ j, s.size + 1 ≤ j → s.cell j = none := by
  intro j hj
  exact s.fresh j (by omega)

/-- The next number is passed over. -/
def skip (s : Store α) : Store α where
  cell := s.cell
  size := s.size + 1
  fresh := fresh_succ s

@[simp] theorem cell_skip (i : ℕ) : s.skip.cell i = s.cell i := rfl

@[simp] theorem size_skip : s.skip.size = s.size + 1 := rfl

theorem cell_size : s.cell s.size = none := s.fresh _ le_rfl

/-- Any cell below `size` may be filled. -/
theorem cell_put_of_lt (h : p < s.size) (x : Option α) (j : ℕ) :
    (s.put p x).cell j = if j = p then x else s.cell j := by
  unfold put
  dsimp only
  by_cases hj : j = p
  · rw [if_pos ⟨hj, h⟩, if_pos hj]
  · rw [if_neg (fun hb => hj hb.1), if_neg hj]

theorem total_skip : total w s.skip = total w s := by
  unfold total
  rw [size_skip, Finset.sum_range_succ, cell_skip, cell_size]
  rfl

/-- A cell that is filled and freed again. -/
theorem put_put_none (hp : s.cell p = none) : (s.put p (some a)).put p none = s := by
  rw [put_put]
  apply ext
  · intro j
    unfold put
    dsimp only
    by_cases hj : j = p ∧ p < s.size
    · rw [if_pos hj, hj.1, hp]
    · rw [if_neg hj]
  · rfl

/-- **Filling an empty cell** adds what it weighs. -/
theorem total_fill (hp : s.cell p = none) (hlt : p < s.size) :
    total w (s.put p (some a)) = total w s + w a := by
  have hfull : (s.put p (some a)).cell p = some a := by
    rw [cell_put_of_lt hlt, if_pos rfl]
  have h := total_put (w := w) hfull none
  rw [put_put_none hp] at h
  exact h.symm

/-! ## The parts -/

/-- **The store `H` in two parts**: the store `K` and the cells `F`. -/
structure Parts (K : Store α) (F : ℕ → Option α) (H : Store α) : Prop where
  size_eq : H.size = K.size
  cell : ∀ p a, K.cell p = some a → H.cell p = some a ∧ F p = none
  rest : ∀ p, K.cell p = none → H.cell p = F p

namespace Parts

theorem refl (K : Store α) : Parts K (fun _ => none) K where
  size_eq := rfl
  cell := fun _ _ h => ⟨h, rfl⟩
  rest := fun _ h => h

/-- Nothing beside `K`. -/
theorem eq (h : Parts K (fun _ => none) H) : H = K := by
  apply ext
  · intro p
    cases hp : K.cell p with
    | none => exact h.rest p hp
    | some a => exact (h.cell p a hp).1
  · exact h.size_eq

theorem get (h : Parts K F H) (hp : K.cell p = some a) : H.cell p = some a := (h.cell p a hp).1

/-- A cell beside `K`. -/
theorem aside (h : Parts K F H) (hp : F p = some a) :
    H.cell p = some a ∧ K.cell p = none ∧ p < K.size := by
  have hnone : K.cell p = none := by
    cases hK : K.cell p with
    | none => rfl
    | some b =>
      rw [(h.cell p b hK).2] at hp
      exact absurd hp (by simp)
  have hcell := (h.rest p hnone).trans hp
  refine ⟨hcell, hnone, ?_⟩
  rw [← h.size_eq]
  exact lt_size hcell

/-- No cell beside `K` has the next number. -/
theorem none_size (h : Parts K F H) : F K.size = none := by
  rw [← h.rest _ cell_size, ← h.size_eq, cell_size]

/-- A cell of `K` is changed. -/
theorem put (h : Parts K F H) (hp : K.cell p = some a) (x : Option α) :
    Parts (K.put p x) F (H.put p x) := by
  obtain ⟨hH, hF⟩ := h.cell p a hp
  constructor
  · exact h.size_eq
  · intro q b hq
    rw [cell_put hp] at hq
    rw [cell_put hH]
    by_cases hqp : q = p
    · rw [if_pos hqp] at hq ⊢
      exact ⟨hq, by rw [hqp, hF]⟩
    · rw [if_neg hqp] at hq ⊢
      exact h.cell q b hq
  · intro q hq
    rw [cell_put hp] at hq
    rw [cell_put hH]
    by_cases hqp : q = p
    · rw [if_pos hqp] at hq ⊢
      rw [hq, hqp, hF]
    · rw [if_neg hqp] at hq ⊢
      exact h.rest q hq

/-- A new cell of `K`. -/
theorem alloc (h : Parts K F H) (a : α) : Parts (K.alloc a) F (H.alloc a) := by
  constructor
  · rw [size_alloc, size_alloc, h.size_eq]
  · intro q b hq
    rw [cell_alloc] at hq
    rw [cell_alloc, h.size_eq]
    by_cases hqs : q = K.size
    · rw [if_pos hqs] at hq ⊢
      exact ⟨hq, by rw [hqs, h.none_size]⟩
    · rw [if_neg hqs] at hq ⊢
      exact h.cell q b hq
  · intro q hq
    rw [cell_alloc] at hq
    rw [cell_alloc, h.size_eq]
    by_cases hqs : q = K.size
    · rw [if_pos hqs] at hq
      exact absurd hq (by simp)
    · rw [if_neg hqs] at hq ⊢
      exact h.rest q hq

/-- **A cell of `K` is set aside.** -/
theorem hide (h : Parts K F H) (hp : K.cell p = some a) :
    Parts (K.put p none) (Function.update F p (some a)) H := by
  constructor
  · exact h.size_eq
  · intro q b hq
    rw [cell_put hp] at hq
    by_cases hqp : q = p
    · rw [if_pos hqp] at hq
      exact absurd hq (by simp)
    · rw [if_neg hqp] at hq
      rw [Function.update_of_ne hqp]
      exact h.cell q b hq
  · intro q hq
    rw [cell_put hp] at hq
    by_cases hqp : q = p
    · rw [hqp, Function.update_self]
      exact h.get hp
    · rw [if_neg hqp] at hq
      rw [Function.update_of_ne hqp]
      exact h.rest q hq

/-- **A cell comes back.** -/
theorem unhide (h : Parts K (Function.update F p (some a)) H) (hF : F p = none) :
    Parts (K.put p (some a)) F H := by
  obtain ⟨hcell, hnone, hlt⟩ := h.aside (Function.update_self p (some a) F)
  constructor
  · exact h.size_eq
  · intro q b hq
    rw [cell_put_of_lt hlt] at hq
    by_cases hqp : q = p
    · rw [if_pos hqp] at hq
      rw [hqp, hF, hcell, hq]
      exact ⟨rfl, rfl⟩
    · rw [if_neg hqp] at hq
      have hrest := h.cell q b hq
      rwa [Function.update_of_ne hqp] at hrest
  · intro q hq
    rw [cell_put_of_lt hlt] at hq
    by_cases hqp : q = p
    · rw [if_pos hqp] at hq
      exact absurd hq (by simp)
    · rw [if_neg hqp] at hq
      have hrest := h.rest q hq
      rwa [Function.update_of_ne hqp] at hrest

/-- A new cell that is set aside at once. -/
theorem alloc_aside (h : Parts K F H) (a : α) :
    Parts K.skip (Function.update F K.size (some a)) (H.alloc a) := by
  have hnew := (h.alloc a).hide (cell_alloc_self a)
  have hskip : (K.alloc a).put K.size none = K.skip := by
    apply ext
    · intro j
      rw [cell_put (cell_alloc_self a), cell_alloc, cell_skip]
      by_cases hj : j = K.size
      · rw [if_pos hj, hj, cell_size]
      · rw [if_neg hj, if_neg hj]
    · rfl
  rwa [hskip] at hnew

/-- A cell that is set aside is changed. -/
theorem put_aside (h : Parts K (Function.update F p (some a)) H) (b : α) :
    Parts K (Function.update F p (some b)) (H.put p (some b)) := by
  obtain ⟨hcell, hnone, -⟩ := h.aside (Function.update_self p (some a) F)
  constructor
  · exact h.size_eq
  · intro q c hq
    have hqp : q ≠ p := by
      rintro rfl
      rw [hnone] at hq
      exact absurd hq (by simp)
    have hrest := h.cell q c hq
    rw [Function.update_of_ne hqp] at hrest ⊢
    rwa [cell_put_ne hqp]
  · intro q hq
    rw [cell_put hcell]
    by_cases hqp : q = p
    · rw [if_pos hqp, hqp, Function.update_self]
    · have hrest := h.rest q hq
      rw [Function.update_of_ne hqp] at hrest ⊢
      rwa [if_neg hqp]

/-- A cell that is set aside is freed. -/
theorem free_aside (h : Parts K (Function.update F p (some a)) H) (hF : F p = none) :
    Parts K F (H.put p none) := by
  obtain ⟨-, hnone, hlt⟩ := h.aside (Function.update_self p (some a) F)
  have hput := (h.unhide hF).put (p := p) (a := a) (by rw [cell_put_of_lt hlt, if_pos rfl]) none
  rwa [put_put_none hnone] at hput

end Parts

end Store
