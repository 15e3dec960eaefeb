/-
# Arrays with keys, as lists

A C array of records together with its element count, seen as a list: assignment to
one element (`List.modify`), removal by moving the last element into the gap
(`swapRemove`), and what these do to the list of the records' keys.

This file names nothing of the proxy.
-/
import Mathlib

namespace CLib

variable {α κ : Type*}

/-! ## Assignment to one element -/

/-- An assignment that keeps the key keeps the list of keys. -/
theorem map_modify_of_key_eq {g : α → κ} {f : α → α} (hg : ∀ a, g (f a) = g a)
    (l : List α) (i : ℕ) : (l.modify i f).map g = l.map g := by
  apply List.ext_getElem
  · simp
  · intro j hj hj'
    simp only [List.getElem_map, List.getElem_modify]
    split
    · exact hg _
    · rfl

variable {l : List α} {i : ℕ}

/-- An element of the array after an assignment is an old one or the new one. -/
theorem mem_modify {f : α → α} {b : α} (h : b ∈ l.modify i f) :
    b ∈ l ∨ ∃ a, l[i]? = some a ∧ b = f a := by
  obtain ⟨j, hj, rfl⟩ := List.mem_iff_getElem.mp h
  rw [List.length_modify] at hj
  rw [List.getElem_modify]
  split
  · rename_i hij
    subst hij
    exact Or.inr ⟨l[i], List.getElem?_eq_getElem hj, rfl⟩
  · exact Or.inl (List.getElem_mem hj)

/-- A property of all elements survives an assignment that keeps it. -/
theorem forall_mem_modify {P : α → Prop} {f : α → α} (hP : ∀ a ∈ l, P a)
    (hf : ∀ a, l[i]? = some a → P (f a)) : ∀ b ∈ l.modify i f, P b := by
  intro b hb
  rcases mem_modify hb with hb | ⟨a, ha, rfl⟩
  · exact hP b hb
  · exact hf a ha

/-- An assignment that changes one key keeps the keys distinct when no other element
has the new key. -/
theorem nodup_map_modify {g : α → κ} {f : α → α} {a : α}
    (hl : (l.map g).Nodup) (hi : l[i]? = some a)
    (hnew : ∀ j b, l[j]? = some b → j ≠ i → g b ≠ g (f a)) :
    ((l.modify i f).map g).Nodup := by
  obtain ⟨hlt, hia⟩ := List.getElem?_eq_some_iff.mp hi
  have hset : (l.modify i f).map g = (l.map g).set i (g (f a)) := by
    apply List.ext_getElem
    · simp
    · intro j hj hj'
      simp only [List.getElem_map, List.getElem_modify, List.getElem_set]
      by_cases hij : i = j
      · subst hij
        rw [if_pos rfl, if_pos rfl, hia]
      · rw [if_neg hij, if_neg hij]
  rw [hset]
  by_cases hsame : g (f a) = g a
  · have hlt' : i < (l.map g).length := by rwa [List.length_map]
    have hget : (l.map g)[i] = g a := by simp [hia]
    rw [hsame, ← hget, List.set_getElem_self]
    exact hl
  · apply hl.set
    intro hmem
    obtain ⟨j, hj, hjeq⟩ := List.mem_iff_getElem.mp hmem
    rw [List.length_map] at hj
    rw [List.getElem_map] at hjeq
    by_cases hji : j = i
    · subst hji
      rw [hia] at hjeq
      exact hsame hjeq.symm
    · exact hnew j l[j] (List.getElem?_eq_getElem hj) hji hjeq

/-- An assignment does nothing exactly when the element has the new value already. -/
theorem modify_eq_self_iff {f : α → α} :
    l.modify i f = l ↔ ∀ a, l[i]? = some a → f a = a := by
  constructor
  · intro h a ha
    have hget : (l.modify i f)[i]? = some (f a) := by
      rw [List.getElem?_modify, ha]
      simp
    rw [h, ha] at hget
    exact (Option.some.inj hget).symm
  · intro h
    apply List.ext_getElem?
    intro j
    rw [List.getElem?_modify]
    by_cases hij : i = j
    · subst hij
      cases ha : l[i]? with
      | none => rfl
      | some a => simpa using h a ha
    · simp [hij]

/-- The same assignment to all elements does nothing exactly when it does nothing to
each of them. -/
theorem map_eq_self_iff {f : α → α} {l : List α} : l.map f = l ↔ ∀ a ∈ l, f a = a := by
  constructor
  · intro h
    have h' : l.map f = l.map id := by rw [List.map_id, h]
    exact fun a ha => List.map_inj_left.mp h' a ha
  · intro h
    rw [List.map_congr_left (g := id) h, List.map_id]

/-- Two indices of an array with distinct keys that hold the same key are the same. -/
theorem index_eq_of_key_eq {g : α → κ} {l : List α} {i j : ℕ} {a b : α}
    (hl : (l.map g).Nodup) (hi : l[i]? = some a) (hj : l[j]? = some b) (hkey : g a = g b) :
    i = j := by
  have hget : (l.map g)[i]? = (l.map g)[j]? := by
    rw [List.getElem?_map, List.getElem?_map, hi, hj, Option.map_some, Option.map_some, hkey]
  have hlt : i < (l.map g).length := by
    rw [List.length_map]
    exact (List.getElem?_eq_some_iff.mp hi).1
  exact (List.getElem?_inj hlt hl).mp hget

/-- A record with a new key at the end keeps the keys distinct. -/
theorem nodup_map_concat {g : α → κ} {l : List α} {a : α} (hl : (l.map g).Nodup)
    (hnew : ∀ b ∈ l, g b ≠ g a) : ((l ++ [a]).map g).Nodup := by
  rw [List.map_append, List.map_singleton, List.nodup_append_comm, List.singleton_append,
    List.nodup_cons]
  refine ⟨?_, hl⟩
  intro hmem
  obtain ⟨b, hb, hba⟩ := List.mem_map.mp hmem
  exact hnew b hb hba

/-! ## Removal -/

/-- `a[i] = a[n - 1]; n--`. -/
def swapRemove (l : List α) (i : ℕ) : List α :=
  match l.getLast? with
  | none => l
  | some a => (l.set i a).dropLast

/-- **Swap removal removes exactly the element at `i`**, up to the order of the rest. -/
theorem swapRemove_perm (h : i < l.length) :
    (swapRemove l i).Perm (l.eraseIdx i) := by
  obtain ⟨init, a, rfl⟩ : ∃ init a, l = init ++ [a] := by
    have hne : l ≠ [] := List.ne_nil_of_length_pos (by omega)
    exact ⟨l.dropLast, l.getLast hne, (List.dropLast_append_getLast hne).symm⟩
  have hlast : (init ++ [a]).getLast? = some a := List.getLast?_concat
  unfold swapRemove
  rw [hlast]
  show ((init ++ [a]).set i a).dropLast.Perm _
  by_cases hi : i < init.length
  · rw [List.set_append_left _ _ hi, List.dropLast_concat,
      List.eraseIdx_append_of_lt_length hi]
    have hcomm : ([a] ++ init.eraseIdx i).Perm (init.eraseIdx i ++ [a]) :=
      List.perm_append_comm
    exact (List.set_perm_cons_eraseIdx hi a).trans hcomm
  · have hieq : i = init.length := by
      rw [List.length_append, List.length_singleton] at h
      omega
    subst hieq
    rw [List.eraseIdx_append_of_length_le le_rfl]
    simp

theorem length_swapRemove (h : i < l.length) :
    (swapRemove l i).length + 1 = l.length := by
  rw [(swapRemove_perm h).length_eq]
  have := List.length_eraseIdx_add_one h
  omega

/-- Removal at any index makes no list longer. -/
theorem length_swapRemove_le (l : List α) (i : ℕ) : (swapRemove l i).length ≤ l.length := by
  unfold swapRemove
  split
  · exact le_rfl
  · rw [List.length_dropLast, List.length_set]
    exact Nat.sub_le _ _

theorem mem_of_mem_swapRemove {a : α} (h : i < l.length)
    (ha : a ∈ swapRemove l i) : a ∈ l :=
  List.mem_of_mem_eraseIdx ((swapRemove_perm h).mem_iff.mp ha)

theorem nodup_map_swapRemove {g : α → κ} (h : i < l.length)
    (hl : (l.map g).Nodup) : ((swapRemove l i).map g).Nodup := by
  rw [((swapRemove_perm h).map g).nodup_iff]
  exact hl.sublist ((List.eraseIdx_sublist l i).map g)

/-! ## Counting by keys -/

/-- Distinct positive keys below `n` leave room for fewer than `n` records. -/
theorem length_lt_of_keys {g : α → ℤ} {l : List α} {n : ℤ} (hn : 1 ≤ n)
    (hl : (l.map g).Nodup) (hg : ∀ a ∈ l, 0 < g a ∧ g a < n) : (l.length : ℤ) < n := by
  have hsub : (l.map g).toFinset ⊆ Finset.Ico 1 n := by
    intro x hx
    obtain ⟨a, ha, rfl⟩ := List.mem_map.mp (List.mem_toFinset.mp hx)
    have := hg a ha
    exact Finset.mem_Ico.mpr ⟨by omega, this.2⟩
  have hcard := Finset.card_le_card hsub
  rw [List.toFinset_card_of_nodup hl, List.length_map, Int.card_Ico] at hcard
  omega

/-! ## Sums over cells -/

section Sums

variable {M : Type*} [AddCommMonoid M]

/-- Adding to one cell adds to the sum. -/
theorem sum_set_add (d : M) :
    ∀ {l : List M} {i : ℕ}, i < l.length → (l.set i (l.getD i 0 + d)).sum = l.sum + d
  | [], i, h => absurd h (by simp)
  | a :: l, 0, _ => by
    simp only [List.set_cons_zero, List.sum_cons, List.getD_cons_zero]
    rw [add_right_comm]
  | a :: l, i + 1, h => by
    have hi : i < l.length := by simpa using h
    simp only [List.set_cons_succ, List.sum_cons, List.getD_cons_succ]
    rw [sum_set_add d hi, add_assoc]

/-- The sum over an array is the sum over its indices. -/
theorem sum_eq_sum_range (l : List M) : l.sum = ∑ i ∈ Finset.range l.length, l.getD i 0 := by
  induction l with
  | nil => rfl
  | cons a l ih =>
    rw [List.sum_cons, List.length_cons, Finset.sum_range_succ', ih, add_comm]
    rfl

/-- **The cells that records refer to carry the whole sum** when the other cells are
zero. -/
theorem sum_eq_sum_map_key {cells : List M} {l : List α} {g : α → ℕ} (hl : (l.map g).Nodup)
    (hlt : ∀ a ∈ l, g a < cells.length)
    (hzero : ∀ i < cells.length, (∀ a ∈ l, g a ≠ i) → cells.getD i 0 = 0) :
    cells.sum = (l.map (fun a => cells.getD (g a) 0)).sum := by
  have hsub : (l.map g).toFinset ⊆ Finset.range cells.length := by
    intro i hi
    obtain ⟨a, ha, rfl⟩ := List.mem_map.mp (List.mem_toFinset.mp hi)
    exact Finset.mem_range.mpr (hlt a ha)
  have hmap : (l.map (fun a => cells.getD (g a) 0)).sum
      = ((l.map g).map (fun i => cells.getD i 0)).sum := by
    rw [List.map_map]
    rfl
  rw [hmap, ← List.sum_toFinset (fun i => cells.getD i 0) hl, sum_eq_sum_range]
  symm
  apply Finset.sum_subset hsub
  intro i hi hnot
  refine hzero i (Finset.mem_range.mp hi) (fun a ha heq => hnot ?_)
  rw [List.mem_toFinset, ← heq]
  exact List.mem_map_of_mem ha

end Sums

/-- An array taken apart at an index, and an assignment there. -/
theorem exists_split_of_getElem? {a : α} (h : l[i]? = some a) :
    ∃ pre post, l = pre ++ a :: post ∧ ∀ f : α → α, l.modify i f = pre ++ f a :: post := by
  obtain ⟨hlt, rfl⟩ := List.getElem?_eq_some_iff.mp h
  have hsplit : l = l.take i ++ l[i] :: l.drop (i + 1) := by
    rw [List.getElem_cons_drop, List.take_append_drop]
  refine ⟨l.take i, l.drop (i + 1), hsplit, fun f => ?_⟩
  rw [List.modify_eq_take_cons_drop hlt]

end CLib
