/-
# Singly linked lists in a store

`Thread next s p xs q` says that in the store `s` the links lead from the pointer `p` through
the cells `xs` to the pointer `q`.  With `q = none` it is a list that ends in the null pointer;
with another `q` it is a piece of a list, so that lists are cut and joined by `thread_append`.

A list that ends in the null pointer is determined by its first pointer and runs through no cell
twice.  A change of the store outside the list does not matter to it.

This file names nothing of the proxy.
-/
import MtprotoProxy.Store

namespace Store

variable {α : Type*} {next : α → Option ℕ} {s t : Store α} {p q : Option ℕ} {x : ℕ} {a b : α}
  {xs ys : List ℕ}

/-- The links lead from `p` through the cells `xs` to `q`. -/
def Thread (next : α → Option ℕ) (s : Store α) : Option ℕ → List ℕ → Option ℕ → Prop
  | p, [], q => p = q
  | p, x :: xs, q => p = some x ∧ ∃ a, s.cell x = some a ∧ Thread next s (next a) xs q

@[simp] theorem thread_nil : Thread next s p [] q ↔ p = q := Iff.rfl

theorem thread_cons : Thread next s p (x :: xs) q ↔
    p = some x ∧ ∃ a, s.cell x = some a ∧ Thread next s (next a) xs q := Iff.rfl

/-- Two pieces, one after the other. -/
theorem thread_append : Thread next s p (xs ++ ys) q ↔
    ∃ m, Thread next s p xs m ∧ Thread next s m ys q := by
  induction xs generalizing p with
  | nil => simp
  | cons x xs ih =>
    rw [List.cons_append, thread_cons]
    constructor
    · rintro ⟨hp, a, ha, hrest⟩
      obtain ⟨m, hxs, hys⟩ := ih.mp hrest
      exact ⟨m, ⟨hp, a, ha, hxs⟩, hys⟩
    · rintro ⟨m, ⟨hp, a, ha, hxs⟩, hys⟩
      exact ⟨hp, a, ha, ih.mpr ⟨m, hxs, hys⟩⟩

/-- A piece with its last cell. -/
theorem thread_concat : Thread next s p (xs ++ [x]) q ↔
    Thread next s p xs (some x) ∧ ∃ a, s.cell x = some a ∧ next a = q := by
  rw [thread_append]
  constructor
  · rintro ⟨m, hxs, rfl, a, ha, hq⟩
    exact ⟨hxs, a, ha, hq⟩
  · rintro ⟨hxs, a, ha, hq⟩
    exact ⟨some x, hxs, rfl, a, ha, hq⟩

/-- The cells of a list are full. -/
theorem Thread.full (h : Thread next s p xs q) (hx : x ∈ xs) : ∃ a, s.cell x = some a := by
  induction xs generalizing p with
  | nil => exact absurd hx List.not_mem_nil
  | cons y xs ih =>
    obtain ⟨-, a, ha, hrest⟩ := h
    rcases List.mem_cons.mp hx with rfl | hx
    · exact ⟨a, ha⟩
    · exact ih hrest hx

/-- A list only looks at the links of its own cells. -/
theorem Thread.congr (h : Thread next s p xs q)
    (hst : ∀ x ∈ xs, ∀ a, s.cell x = some a → ∃ b, t.cell x = some b ∧ next b = next a) :
    Thread next t p xs q := by
  induction xs generalizing p with
  | nil => exact h
  | cons x xs ih =>
    obtain ⟨hp, a, ha, hrest⟩ := h
    obtain ⟨b, hb, hab⟩ := hst x List.mem_cons_self a ha
    refine ⟨hp, b, hb, ?_⟩
    rw [hab]
    exact ih hrest (fun y hy => hst y (List.mem_cons_of_mem _ hy))

/-- A change of the store outside a list. -/
theorem Thread.frame (h : Thread next s p xs q) (hst : ∀ x ∈ xs, t.cell x = s.cell x) :
    Thread next t p xs q :=
  h.congr (fun x hx a ha => ⟨a, by rw [hst x hx, ha], rfl⟩)

/-- A change of a cell that is not in the list. -/
theorem Thread.put (h : Thread next s p xs q) (hx : x ∉ xs) (o : Option α) :
    Thread next (s.put x o) p xs q :=
  h.frame (fun _ hy => cell_put_ne (ne_of_mem_of_not_mem hy hx) o)

/-- A change of a cell that keeps its link. -/
theorem Thread.put_same (h : Thread next s p xs q) (ha : s.cell x = some a)
    (hab : next b = next a) : Thread next (s.put x (some b)) p xs q := by
  refine h.congr (fun y _ c hc => ?_)
  by_cases hyx : y = x
  · subst hyx
    rw [ha] at hc
    cases hc
    exact ⟨b, cell_put_self ha _, hab⟩
  · exact ⟨c, by rw [cell_put_ne hyx, hc], rfl⟩

/-- A new cell beside a list. -/
theorem Thread.alloc (h : Thread next s p xs q) (a : α) : Thread next (s.alloc a) p xs q :=
  h.congr (fun _ _ b hb => ⟨b, cell_alloc_of_some hb, rfl⟩)

/-- Where a list starts. -/
theorem Thread.start (h : Thread next s p xs none) : p = xs.head? := by
  cases xs with
  | nil => exact h
  | cons x xs => exact h.1

/-- **The first pointer determines the list.** -/
theorem Thread.unique (hxs : Thread next s p xs none) (hys : Thread next s p ys none) :
    xs = ys := by
  induction xs generalizing p ys with
  | nil =>
    obtain rfl : p = none := hxs
    cases ys with
    | nil => rfl
    | cons y ys => exact absurd hys.1 (by simp)
  | cons x xs ih =>
    obtain ⟨rfl, a, ha, hrest⟩ := hxs
    cases ys with
    | nil => exact absurd hys (by simp)
    | cons y ys =>
      obtain ⟨hxy, b, hb, hrest'⟩ := hys
      obtain rfl : x = y := Option.some.inj hxy
      obtain rfl : a = b := Option.some.inj (ha.symm.trans hb)
      rw [ih hrest hrest']

/-- **A list that ends runs through no cell twice.** -/
theorem Thread.nodup (h : Thread next s p xs none) : xs.Nodup := by
  induction xs generalizing p with
  | nil => exact List.nodup_nil
  | cons x xs ih =>
    have hcons := h
    obtain ⟨rfl, a, ha, hrest⟩ := h
    refine List.nodup_cons.mpr ⟨fun hmem => ?_, ih hrest⟩
    -- a second visit of `x` would start the same list again, which is shorter
    obtain ⟨ys, zs, rfl⟩ := List.append_of_mem hmem
    obtain ⟨m, -, hm⟩ := thread_append.mp hrest
    obtain rfl : m = some x := hm.1
    have hlen := congrArg List.length (hcons.unique hm)
    simp only [List.length_cons, List.length_append] at hlen
    omega

/-- A list that ends has at most as many cells as there are. -/
theorem Thread.length_le (h : Thread next s p xs none) : xs.length ≤ s.size := by
  have hsub : xs ⊆ List.range s.size := by
    intro x hx
    obtain ⟨a, ha⟩ := h.full hx
    exact List.mem_range.mpr (lt_size ha)
  have hle := (h.nodup.subperm hsub).length_le
  rwa [List.length_range] at hle

/-- **Turning the link of the last cell.** -/
theorem Thread.relink (h : Thread next s p (xs ++ [x]) q) (hx : x ∉ xs) {r : Option ℕ}
    (hb : next b = r) : Thread next (s.put x (some b)) p (xs ++ [x]) r := by
  obtain ⟨hxs, a, ha, -⟩ := thread_concat.mp h
  exact thread_concat.mpr ⟨hxs.put hx _, b, cell_put_self ha _, hb⟩

end Store
