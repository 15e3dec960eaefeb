/-
# Trees that count

A complete binary tree in an array: the node `i` has the children `2 * i` and `2 * i + 1`, the root
is `1`, and the leaves are the nodes from `n` on.  Every inner node counts what its children count.

A leaf changes together with the nodes above it, which are its number without some of the last
binary digits.  `AppliedOn f P c c'` says that `f` was applied at the nodes `P`; a program may do it
in any order and in parts.

This file names nothing of the proxy.
-/
import Mathlib

namespace CountTree

/-! ## Nodes above a node -/

/-- `x` is `y`, or a node above it. -/
def Above (x y : ℕ) : Prop := ∃ k, y / 2 ^ k = x

theorem above_refl (x : ℕ) : Above x x := ⟨0, by rw [pow_zero, Nat.div_one]⟩

theorem above_iff {x y : ℕ} : Above x y ↔ x = y ∨ Above x (y / 2) := by
  constructor
  · rintro ⟨k, rfl⟩
    cases k with
    | zero => exact Or.inl (by rw [pow_zero, Nat.div_one])
    | succ k => exact Or.inr ⟨k, by rw [Nat.div_div_eq_div_mul, pow_succ']⟩
  · rintro (rfl | ⟨k, rfl⟩)
    · exact above_refl x
    · exact ⟨k + 1, by rw [Nat.div_div_eq_div_mul, pow_succ']⟩

theorem Above.le {x y : ℕ} (h : Above x y) : x ≤ y := by
  obtain ⟨k, rfl⟩ := h
  exact Nat.div_le_self y _

theorem Above.trans {x y z : ℕ} (hxy : Above x y) (hyz : Above y z) : Above x z := by
  obtain ⟨j, rfl⟩ := hxy
  obtain ⟨k, rfl⟩ := hyz
  exact ⟨k + j, by rw [Nat.div_div_eq_div_mul, pow_add]⟩

theorem above_child {x y : ℕ} (h : y / 2 = x) : Above x y :=
  (above_iff).mpr (Or.inr (h ▸ above_refl x))

/-- The nodes above a child are the child and those above its parent. -/
theorem above_child_iff {x y z : ℕ} (h : y / 2 = z) : Above x y ↔ x = y ∨ Above x z := by
  rw [above_iff, h]

/-- Of two nodes above a third, the smaller is above the other. -/
theorem Above.of_le {x y z : ℕ} (hx : Above x z) (hy : Above y z) (hpos : 0 < x) (hle : x ≤ y) :
    Above x y := by
  obtain ⟨j, rfl⟩ := hx
  obtain ⟨k, rfl⟩ := hy
  rcases le_total k j with hkj | hjk
  · refine ⟨j - k, ?_⟩
    rw [Nat.div_div_eq_div_mul, ← pow_add, Nat.add_sub_cancel' hkj]
  · have hge : z / 2 ^ k ≤ z / 2 ^ j :=
      Nat.div_le_div_left (Nat.pow_le_pow_right two_pos hjk) (by positivity)
    rw [le_antisymm hle hge]
    exact above_refl _

/-- Below a node on the way to `y` the way goes on to one of its children. -/
theorem Above.child {x y : ℕ} (h : Above x y) (hne : x ≠ y) :
    Above (2 * x) y ∨ Above (2 * x + 1) y := by
  obtain ⟨k, rfl⟩ := h
  cases k with
  | zero => exact absurd (by rw [pow_zero, Nat.div_one]) hne
  | succ k =>
    have hhalf : y / 2 ^ (k + 1) = y / 2 ^ k / 2 := by
      rw [Nat.div_div_eq_div_mul, pow_succ]
    have hstep : Above (y / 2 ^ k) y := ⟨k, rfl⟩
    rw [hhalf]
    rcases Nat.even_or_odd' (y / 2 ^ k) with ⟨m, hm | hm⟩
    · left
      rwa [show 2 * (y / 2 ^ k / 2) = y / 2 ^ k by omega]
    · right
      rwa [show 2 * (y / 2 ^ k / 2) + 1 = y / 2 ^ k by omega]

theorem not_above_both {x y : ℕ} (hx : 0 < x) (h : Above (2 * x) y) :
    ¬ Above (2 * x + 1) y := by
  intro h'
  have hle := h.of_le h' (by omega) (by omega)
  rcases (above_child_iff (by omega : (2 * x + 1) / 2 = x)).mp hle with heq | habove
  · omega
  · have := habove.le
    omega

/-- The way from the root to the node `y`. -/
def Way (y x : ℕ) : Prop := 0 < x ∧ Above x y

theorem way_root {y : ℕ} (hy : 0 < y) : Way y 1 := by
  induction y using Nat.strong_induction_on with
  | _ y ih =>
    by_cases hone : y = 1
    · rw [hone]
      exact ⟨one_pos, above_refl 1⟩
    · exact ⟨one_pos, (above_iff).mpr (Or.inr (ih (y / 2) (by omega) (by omega)).2)⟩

/-! ## Changes at some nodes -/

/-- `f` was applied at the nodes `P`. -/
structure AppliedOn (f : ℕ → ℕ) (P : ℕ → Prop) (c c' : ℕ → ℕ) : Prop where
  on : ∀ x, P x → c' x = f (c x)
  off : ∀ x, ¬ P x → c' x = c x

section AppliedOn

variable {f : ℕ → ℕ} {P Q : ℕ → Prop} {c c' c'' : ℕ → ℕ}

theorem AppliedOn.refl (f : ℕ → ℕ) (c : ℕ → ℕ) : AppliedOn f (fun _ => False) c c :=
  ⟨fun _ h => h.elim, fun _ _ => rfl⟩

theorem AppliedOn.congr (h : AppliedOn f P c c') (hPQ : ∀ x, Q x ↔ P x) : AppliedOn f Q c c' :=
  ⟨fun x hx => h.on x ((hPQ x).mp hx), fun x hx => h.off x (mt (hPQ x).mpr hx)⟩

/-- One more node. -/
theorem AppliedOn.update (h : AppliedOn f P c c') {i : ℕ} (hi : ¬ P i) :
    AppliedOn f (fun x => x = i ∨ P x) c (Function.update c' i (f (c' i))) := by
  constructor
  · rintro x hx
    by_cases hxi : x = i
    · rw [hxi, Function.update_self, h.off i hi]
    · rw [Function.update_of_ne hxi]
      exact h.on x (hx.resolve_left hxi)
  · intro x hx
    rw [not_or] at hx
    rw [Function.update_of_ne hx.1]
    exact h.off x hx.2

/-- Other nodes. -/
theorem AppliedOn.trans (h : AppliedOn f P c c') (h' : AppliedOn f Q c' c'')
    (hdisj : ∀ x, P x → ¬ Q x) : AppliedOn f (fun x => P x ∨ Q x) c c'' := by
  constructor
  · rintro x (hx | hx)
    · rw [h'.off x (hdisj x hx), h.on x hx]
    · rw [h'.on x hx, h.off x (fun hP => hdisj x hP hx)]
  · intro x hx
    rw [not_or] at hx
    rw [h'.off x hx.2, h.off x hx.1]

end AppliedOn

/-! ## Counts -/

/-- **Every inner node counts what its children count.** -/
def IsCount (n : ℕ) (c : ℕ → ℕ) : Prop :=
  ∀ i, 0 < i → i < n → c i = c (2 * i) + c (2 * i + 1)

section IsCount

variable {n y : ℕ} {f : ℕ → ℕ} {c c' : ℕ → ℕ}

/-- **The change of a leaf** and of all nodes above it by as much. -/
theorem IsCount.applied (h : IsCount n c) (hy : n ≤ y) (hc : AppliedOn f (Way y) c c') {a b : ℕ}
    (hf : ∀ x, Way y x → f (c x) + a = c x + b) : IsCount n c' := by
  intro i hpos hi
  have hcount := h i hpos hi
  by_cases hway : Way y i
  · have hself := hf i hway
    rw [← hc.on i hway] at hself
    -- the way goes on to one child, and the other one is off it
    rcases hway.2.child (by omega) with hleft | hright
    · have hl : Way y (2 * i) := ⟨by omega, hleft⟩
      have hchild := hf _ hl
      rw [← hc.on _ hl] at hchild
      have hother := hc.off (2 * i + 1) (fun hr => not_above_both hpos hleft hr.2)
      omega
    · have hr : Way y (2 * i + 1) := ⟨by omega, hright⟩
      have hchild := hf _ hr
      rw [← hc.on _ hr] at hchild
      have hother := hc.off (2 * i) (fun hl => not_above_both hpos hl.2 hright)
      omega
  · have hl := hc.off (2 * i) (fun hl =>
      hway ⟨hpos, (above_child (by omega : 2 * i / 2 = i)).trans hl.2⟩)
    have hr := hc.off (2 * i + 1) (fun hr =>
      hway ⟨hpos, (above_child (by omega : (2 * i + 1) / 2 = i)).trans hr.2⟩)
    rw [hc.off i hway, hl, hr]
    exact hcount

/-- A node counts at least what a node below it counts. -/
theorem IsCount.le_of_above (h : IsCount n c) {x : ℕ} (hxy : Above x y) (hx : 0 < x)
    (hy : y < 2 * n) : c y ≤ c x := by
  induction y using Nat.strong_induction_on with
  | _ y ih =>
    rcases (above_iff).mp hxy with rfl | hhalf
    · exact le_rfl
    · have hpos : 0 < y / 2 := hx.trans_le hhalf.le
      have hcount := h (y / 2) hpos (by omega)
      have hparent := ih (y / 2) (by omega) hhalf (by omega)
      rcases Nat.even_or_odd' y with ⟨m, rfl | rfl⟩
      · rw [show 2 * m / 2 = m by omega] at hcount hparent
        omega
      · rw [show (2 * m + 1) / 2 = m by omega] at hcount hparent
        omega

/-- A node counts the leaves below it: `a` levels are above the node, and `e` below. -/
theorem IsCount.eq_sum {a e : ℕ} (h : IsCount (2 ^ (a + e)) c) {i : ℕ} (hi : 0 < i)
    (hia : i < 2 ^ (a + 1)) : c i = ∑ t ∈ Finset.range (2 ^ e), c (i * 2 ^ e + t) := by
  induction e generalizing i a with
  | zero => rw [pow_zero, Finset.sum_range_one, mul_one, add_zero]
  | succ e ih =>
    have hin : i < 2 ^ (a + (e + 1)) :=
      hia.trans_le (Nat.pow_le_pow_right two_pos (by omega))
    have h' : IsCount (2 ^ (a + 1 + e)) c := by rwa [add_assoc, add_comm 1 e]
    have hpow : 2 ^ (a + 1 + 1) = 2 * 2 ^ (a + 1) := pow_succ' 2 (a + 1)
    have hleft := ih h' (i := 2 * i) (by omega) (by omega)
    have hright := ih h' (i := 2 * i + 1) (by omega) (by omega)
    have hl (t : ℕ) : 2 * i * 2 ^ e + t = i * (2 ^ e + 2 ^ e) + t := by ring
    have hr (t : ℕ) : (2 * i + 1) * 2 ^ e + t = i * (2 ^ e + 2 ^ e) + (2 ^ e + t) := by ring
    rw [h i hi hin, hleft, hright, pow_succ 2 e, mul_two, Finset.sum_range_add]
    simp only [hl, hr]

/-- **The root counts the leaves.** -/
theorem IsCount.root {d : ℕ} (h : IsCount (2 ^ d) c) :
    c 1 = ∑ t ∈ Finset.range (2 ^ d), c (2 ^ d + t) := by
  have h' : IsCount (2 ^ (0 + d)) c := by rwa [zero_add]
  have hsum := h'.eq_sum one_pos (by norm_num)
  rwa [one_mul] at hsum

end IsCount

/-! ## Counting from the leaves -/

section Leaves

open Classical in
/-- How many of the leaves `n`, …, `n + m - 1` are below a node. -/
noncomputable def leavesBelow (n m i : ℕ) : ℕ :=
  ((Finset.range m).filter (fun t => Above i (n + t))).card

variable {n m : ℕ}

theorem leavesBelow_le (i : ℕ) : leavesBelow n m i ≤ m := by
  classical
  unfold leavesBelow
  calc _ ≤ (Finset.range m).card := Finset.card_filter_le _ _
    _ = m := Finset.card_range m

theorem isCount_leavesBelow : IsCount n (leavesBelow n m) := by
  classical
  intro i hpos hi
  unfold leavesBelow
  rw [← Finset.card_union_of_disjoint]
  · congr 1
    ext t
    simp only [Finset.mem_union, Finset.mem_filter, ← and_or_left]
    constructor
    · rintro ⟨ht, habove⟩
      exact ⟨ht, habove.child (by omega)⟩
    · rintro ⟨ht, hl | hr⟩
      · exact ⟨ht, (above_child (by omega : 2 * i / 2 = i)).trans hl⟩
      · exact ⟨ht, (above_child (by omega : (2 * i + 1) / 2 = i)).trans hr⟩
  · rw [Finset.disjoint_filter]
    intro t _ hl hr
    exact not_above_both hpos hl hr

/-- A leaf is below itself alone. -/
theorem leavesBelow_leaf {t : ℕ} (ht : t < n) (hm : m ≤ n) :
    leavesBelow n m (n + t) = if t < m then 1 else 0 := by
  classical
  have honly (t' : ℕ) (ht' : t' < m) : Above (n + t) (n + t') ↔ t' = t := by
    constructor
    · intro h
      rcases (above_iff).mp h with heq | hhalf
      · omega
      · have := hhalf.le
        omega
    · rintro rfl
      exact above_refl _
  unfold leavesBelow
  by_cases htm : t < m
  · rw [if_pos htm, Finset.card_eq_one]
    refine ⟨t, ?_⟩
    ext t'
    rw [Finset.mem_filter, Finset.mem_range, Finset.mem_singleton]
    constructor
    · rintro ⟨ht', habove⟩
      exact (honly t' ht').mp habove
    · rintro rfl
      exact ⟨htm, above_refl _⟩
  · rw [if_neg htm, Finset.card_eq_zero]
    ext t'
    rw [Finset.mem_filter, Finset.mem_range]
    constructor
    · rintro ⟨ht', habove⟩
      exact absurd ((honly t' ht').mp habove ▸ ht') htm
    · intro h
      exact absurd h (Finset.notMem_empty t')

end Leaves

end CountTree
