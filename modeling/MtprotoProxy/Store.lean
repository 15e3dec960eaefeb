/-
# Memory cells by number

A `Store` is what an allocator hands out: cells with numbers, each full or free, and the number
that the next new cell gets.  Numbers are not used again, so that a cell that was freed stays
free.

`total w` adds up a weight over the full cells.  It is how reference counts are stated: the
references to a thing are the sum, over all cells, of the references that a cell holds.  What an
operation does to such a sum is said by `total_put` and `total_alloc`.

This file names nothing of the proxy.
-/
import Mathlib
import MtprotoProxy.Runs

open Finset

/-- Numbered cells. -/
structure Store (α : Type*) where
  cell : ℕ → Option α
  size : ℕ
  fresh : ∀ i, size ≤ i → cell i = none

namespace Store

variable {α : Type*} {s : Store α} {w : α → ℕ}

/-- No cells. -/
def empty : Store α := ⟨fun _ => none, 0, fun _ _ => rfl⟩

@[simp] theorem cell_empty (i : ℕ) : (empty : Store α).cell i = none := rfl

/-- The cell `i` with other contents; `none` frees it. -/
def put (s : Store α) (i : ℕ) (x : Option α) : Store α where
  cell := fun j => if j = i ∧ i < s.size then x else s.cell j
  size := s.size
  fresh := by
    intro j hj
    rw [if_neg (by omega)]
    exact s.fresh j hj

/-- A new cell; its number is `s.size`. -/
def alloc (s : Store α) (a : α) : Store α where
  cell := fun j => if j = s.size then some a else s.cell j
  size := s.size + 1
  fresh := by
    intro j hj
    rw [if_neg (by omega)]
    exact s.fresh j (by omega)

theorem lt_size {i : ℕ} {a : α} (h : s.cell i = some a) : i < s.size := by
  by_contra hi
  rw [s.fresh i (by omega)] at h
  exact absurd h (by simp)

@[simp] theorem size_put (i : ℕ) (x : Option α) : (s.put i x).size = s.size := rfl

@[simp] theorem size_alloc (a : α) : (s.alloc a).size = s.size + 1 := rfl

theorem cell_put {i : ℕ} {a : α} (h : s.cell i = some a) (x : Option α) (j : ℕ) :
    (s.put i x).cell j = if j = i then x else s.cell j := by
  unfold put
  dsimp only
  by_cases hj : j = i
  · rw [if_pos ⟨hj, lt_size h⟩, if_pos hj]
  · rw [if_neg (fun hb => hj hb.1), if_neg hj]

theorem cell_put_self {i : ℕ} {a : α} (h : s.cell i = some a) (x : Option α) :
    (s.put i x).cell i = x := by
  rw [cell_put h, if_pos rfl]

theorem cell_put_ne {i j : ℕ} (hj : j ≠ i) (x : Option α) : (s.put i x).cell j = s.cell j := by
  unfold put
  dsimp only
  rw [if_neg (fun hb => hj hb.1)]

theorem cell_alloc (a : α) (j : ℕ) :
    (s.alloc a).cell j = if j = s.size then some a else s.cell j := rfl

@[simp] theorem cell_alloc_self (a : α) : (s.alloc a).cell s.size = some a := if_pos rfl

/-- A full cell keeps its contents when a new one is made. -/
theorem cell_alloc_of_some {i : ℕ} {a b : α} (h : s.cell i = some b) :
    (s.alloc a).cell i = some b := by
  have := lt_size h
  rw [cell_alloc, if_neg (by omega), h]

theorem ext {s t : Store α} (hcell : ∀ i, s.cell i = t.cell i) (hsize : s.size = t.size) :
    s = t := by
  obtain ⟨c, n, hc⟩ := s
  obtain ⟨d, m, hd⟩ := t
  obtain rfl : c = d := funext hcell
  obtain rfl : n = m := hsize
  rfl

/-- The last of two changes of one cell counts. -/
theorem put_put (i : ℕ) (x y : Option α) : (s.put i x).put i y = s.put i y := by
  apply ext
  · intro j
    unfold put
    dsimp only
    split_ifs <;> rfl
  · rfl

/-- A cell may be filled with what is in it. -/
theorem put_self {i : ℕ} {a : α} (h : s.cell i = some a) : s.put i (some a) = s := by
  apply ext
  · intro j
    rw [cell_put h]
    split_ifs with hj
    · rw [hj, h]
    · rfl
  · rfl

/-- A new cell may be filled at once. -/
theorem put_alloc (a b : α) : (s.alloc a).put s.size (some b) = s.alloc b := by
  apply ext
  · intro j
    unfold put alloc
    dsimp only
    by_cases hj : j = s.size
    · rw [if_pos ⟨hj, Nat.lt_succ_self _⟩, if_pos hj]
    · rw [if_neg (fun h => hj h.1), if_neg hj, if_neg hj]
  · rfl

/-! ## Sums over the cells -/

/-- The sum of a weight over the full cells. -/
def total (w : α → ℕ) (s : Store α) : ℕ := ∑ i ∈ range s.size, (s.cell i).elim 0 w

/-- **Changing one cell** changes the sum by what that cell weighs. -/
theorem total_put {i : ℕ} {a : α} (h : s.cell i = some a) (x : Option α) :
    total w (s.put i x) + w a = total w s + x.elim 0 w := by
  have hi : i ∈ range s.size := mem_range.mpr (lt_size h)
  have hrest : ∑ j ∈ (range s.size).erase i, ((s.put i x).cell j).elim 0 w
      = ∑ j ∈ (range s.size).erase i, (s.cell j).elim 0 w := by
    apply sum_congr rfl
    intro j hj
    rw [cell_put_ne (ne_of_mem_erase hj)]
  unfold total
  rw [size_put, ← add_sum_erase _ _ hi, ← add_sum_erase (range s.size) (fun j =>
    (s.cell j).elim 0 w) hi, hrest, cell_put_self h, h, Option.elim_some]
  omega

/-- **A new cell** adds its weight. -/
theorem total_alloc (a : α) : total w (s.alloc a) = total w s + w a := by
  have hold : ∑ j ∈ range s.size, ((s.alloc a).cell j).elim 0 w = total w s := by
    apply sum_congr rfl
    intro j hj
    rw [cell_alloc, if_neg (ne_of_lt (mem_range.mp hj))]
  rw [← hold]
  unfold total
  rw [size_alloc, sum_range_succ, cell_alloc_self, Option.elim_some]

/-- A cell weighs at most the sum. -/
theorem le_total {i : ℕ} {a : α} (h : s.cell i = some a) : w a ≤ total w s := by
  have hi : i ∈ range s.size := mem_range.mpr (lt_size h)
  have hle := single_le_sum (f := fun j => (s.cell j).elim 0 w) (fun _ _ => Nat.zero_le _) hi
  simpa [total, h] using hle

/-- Two cells weigh at most the sum. -/
theorem add_le_total {i j : ℕ} {a b : α} (hi : s.cell i = some a) (hj : s.cell j = some b)
    (hne : i ≠ j) : w a + w b ≤ total w s := by
  have hput := total_put (w := w) hi none
  have hb : (s.put i none).cell j = some b := by rw [cell_put_ne (Ne.symm hne), hj]
  have hle := le_total (w := w) hb
  simp only [Option.elim_none, Nat.add_zero] at hput
  omega

/-- A sum that is not zero has a cell to it. -/
theorem exists_of_total_pos (h : 0 < total w s) : ∃ i a, s.cell i = some a ∧ 0 < w a := by
  obtain ⟨i, -, hi⟩ := exists_ne_zero_of_sum_ne_zero (Nat.pos_iff_ne_zero.mp h)
  cases hc : s.cell i with
  | none => simp [hc] at hi
  | some a =>
    refine ⟨i, a, hc, ?_⟩
    rw [hc, Option.elim_some] at hi
    omega

/-- The sum is zero when every cell weighs nothing. -/
theorem total_eq_zero (h : ∀ i a, s.cell i = some a → w a = 0) : total w s = 0 := by
  by_contra hne
  obtain ⟨i, a, hi, ha⟩ := exists_of_total_pos (Nat.pos_of_ne_zero hne)
  rw [h i a hi] at ha
  exact lt_irrefl 0 ha

/-- There are at most `size` full cells. -/
theorem total_one_le_size : total (fun _ : α => 1) s ≤ s.size := by
  calc total (fun _ : α => 1) s ≤ ∑ _i ∈ range s.size, 1 := by
        apply sum_le_sum
        intro i _
        cases s.cell i <;> simp
    _ = s.size := by simp

end Store
