/-
# Treaps

Binary trees of keys with priorities: search trees on the keys and heaps on the priorities.
`insert` goes down to the first node whose priority is not above the new one and splits what is
below it; `delete` merges the two subtrees of the node that goes.  Nothing is assumed of the
priorities, which may be equal.

This file names nothing of the proxy.
-/
import Mathlib

/-- A tree of keys with priorities. -/
inductive Treap (κ π : Type*) where
  | leaf : Treap κ π
  | node (l : Treap κ π) (x : κ) (y : π) (r : Treap κ π) : Treap κ π

namespace Treap

variable {κ π : Type*}

def height : Treap κ π → ℕ
  | leaf => 0
  | node l _ _ r => max l.height r.height + 1

@[simp] theorem height_leaf : (leaf : Treap κ π).height = 0 := rfl

@[simp] theorem height_node (l : Treap κ π) (x : κ) (y : π) (r : Treap κ π) :
    (node l x y r).height = max l.height r.height + 1 := rfl

/-! ## Search trees -/

section Keys

variable [LinearOrder κ]

def keys : Treap κ π → Finset κ
  | leaf => ∅
  | node l x _ r => insert x (l.keys ∪ r.keys)

@[simp] theorem keys_leaf : (leaf : Treap κ π).keys = ∅ := rfl

theorem mem_keys_node {l : Treap κ π} {x : κ} {y : π} {r : Treap κ π} {z : κ} :
    z ∈ (node l x y r).keys ↔ z = x ∨ z ∈ l.keys ∨ z ∈ r.keys := by
  rw [keys, Finset.mem_insert, Finset.mem_union]

/-- The keys are in order. -/
def IsSearch : Treap κ π → Prop
  | leaf => True
  | node l x _ r => l.IsSearch ∧ r.IsSearch ∧ (∀ z ∈ l.keys, z < x) ∧ ∀ z ∈ r.keys, x < z

theorem isSearch_single (x : κ) (y : π) : (node leaf x y leaf).IsSearch :=
  ⟨trivial, trivial, fun z hz => absurd hz (Finset.notMem_empty z),
    fun z hz => absurd hz (Finset.notMem_empty z)⟩

/-- In a search tree the key of the root is in neither subtree. -/
theorem IsSearch.notMem {l r : Treap κ π} {x : κ} {y : π} (h : (node l x y r).IsSearch) :
    x ∉ l.keys ∧ x ∉ r.keys :=
  ⟨fun hmem => lt_irrefl x (h.2.2.1 x hmem), fun hmem => lt_irrefl x (h.2.2.2 x hmem)⟩

/-- The keys up to `x`, and those above. -/
def split (x : κ) : Treap κ π → Treap κ π × Treap κ π
  | leaf => (leaf, leaf)
  | node l x' y r =>
    if x < x' then ((split x l).1, node (split x l).2 x' y r)
    else (node l x' y (split x r).1, (split x r).2)

/-- A split keeps the keys. -/
theorem mem_keys_split (x : κ) (t : Treap κ π) (z : κ) :
    z ∈ t.keys ↔ z ∈ (split x t).1.keys ∨ z ∈ (split x t).2.keys := by
  induction t with
  | leaf => simp [split]
  | node l x' y r ihl ihr =>
    rw [split]
    by_cases h : x < x'
    · rw [if_pos h, mem_keys_node, mem_keys_node, ihl]
      simp only [or_comm, or_left_comm]
    · rw [if_neg h, mem_keys_node, mem_keys_node, ihr]
      simp only [or_assoc]

/-- **What `split` does** to a search tree. -/
theorem IsSearch.split {t : Treap κ π} (h : t.IsSearch) (x : κ) :
    (t.split x).1.IsSearch ∧ (t.split x).2.IsSearch ∧
      (∀ z ∈ (t.split x).1.keys, z ≤ x) ∧ ∀ z ∈ (t.split x).2.keys, x < z := by
  induction t with
  | leaf =>
    refine ⟨trivial, trivial, ?_, ?_⟩ <;> intro z hz <;> exact absurd hz (Finset.notMem_empty z)
  | node l x' y r ihl ihr =>
    obtain ⟨hl, hr, hbelow, habove⟩ := h
    rw [Treap.split]
    by_cases hx : x < x'
    · rw [if_pos hx]
      obtain ⟨h₁, h₂, hle, hlt⟩ := ihl hl
      refine ⟨h₁, ⟨h₂, hr, ?_, habove⟩, hle, ?_⟩
      · intro z hz
        exact hbelow z ((mem_keys_split x l z).mpr (Or.inr hz))
      · intro z hz
        rcases (mem_keys_node).mp hz with rfl | hz | hz
        · exact hx
        · exact hlt z hz
        · exact hx.trans (habove z hz)
    · rw [if_neg hx]
      obtain ⟨h₁, h₂, hle, hlt⟩ := ihr hr
      have hx' : x' ≤ x := not_lt.mp hx
      refine ⟨⟨hl, h₁, hbelow, ?_⟩, h₂, ?_, hlt⟩
      · intro z hz
        exact habove z ((mem_keys_split x r z).mpr (Or.inl hz))
      · intro z hz
        rcases (mem_keys_node).mp hz with rfl | hz | hz
        · exact hx'
        · exact ((hbelow z hz).trans_le hx').le
        · exact hle z hz

end Keys

/-! ## Heaps -/

section Priorities

variable [LinearOrder π]

/-- The root, if there is one, has no priority above `y`. -/
def Under (y : π) : Treap κ π → Prop
  | leaf => True
  | node _ _ y' _ => y' ≤ y

/-- No priority is below one that comes under it. -/
def IsHeap : Treap κ π → Prop
  | leaf => True
  | node l _ y r => l.IsHeap ∧ r.IsHeap ∧ l.Under y ∧ r.Under y

/-- A bound on the priorities can be raised. -/
theorem Under.trans {t : Treap κ π} {y y' : π} (h : t.Under y) (hy : y ≤ y') : t.Under y' := by
  cases t with
  | leaf => trivial
  | node l x z r => exact le_trans h hy

/-- The trees as one, the keys of `l` before those of `r`. -/
def merge : Treap κ π → Treap κ π → Treap κ π
  | leaf, r => r
  | node l x y r, leaf => node l x y r
  | node l x y r, node l' x' y' r' =>
    if y' < y then node l x y (merge r (node l' x' y' r'))
    else node (merge (node l x y r) l') x' y' r'
termination_by l r => l.height + r.height
decreasing_by
  · rw [height_node l x y r]
    omega
  · rw [height_node l' x' y' r']
    omega

/-- The cases of `merge`. -/
@[simp] theorem merge_leaf_left (r : Treap κ π) : merge leaf r = r := by
  rw [merge]

@[simp] theorem merge_leaf_right (l : Treap κ π) : merge l leaf = l := by
  cases l <;> rw [merge]

theorem merge_node_of_lt {l l' r r' : Treap κ π} {x x' : κ} {y y' : π} (h : y' < y) :
    merge (node l x y r) (node l' x' y' r') = node l x y (merge r (node l' x' y' r')) := by
  rw [merge, if_pos h]

theorem merge_node_of_le {l l' r r' : Treap κ π} {x x' : κ} {y y' : π} (h : y ≤ y') :
    merge (node l x y r) (node l' x' y' r') = node (merge (node l x y r) l') x' y' r' := by
  rw [merge, if_neg (not_lt.mpr h)]

/-- Merging keeps a bound and the heap order. -/
theorem Under.merge {l r : Treap κ π} {y : π} (hl : l.Under y) (hr : r.Under y) :
    (merge l r).Under y := by
  cases l with
  | leaf => rwa [merge_leaf_left]
  | node l₁ x₁ y₁ r₁ =>
    cases r with
    | leaf => rwa [merge_leaf_right]
    | node l₂ x₂ y₂ r₂ =>
      rw [Treap.merge]
      split_ifs
      · exact hl
      · exact hr

theorem IsHeap.merge {l r : Treap κ π} (hl : l.IsHeap) (hr : r.IsHeap) : (merge l r).IsHeap := by
  induction l, r using merge.induct with
  | case1 r => rwa [merge_leaf_left]
  | case2 l x y r => rwa [merge_leaf_right]
  | case3 l x y r l' x' y' r' h ih =>
    rw [merge_node_of_lt h]
    obtain ⟨hll, hlr, hul, hur⟩ := hl
    have hroot : (node l' x' y' r').Under y := h.le
    exact ⟨hll, ih hlr hr, hul, hur.merge hroot⟩
  | case4 l x y r l' x' y' r' h ih =>
    rw [merge_node_of_le (not_lt.mp h)]
    obtain ⟨hrl, hrr, hul, hur⟩ := hr
    have hroot : (node l x y r).Under y' := not_lt.mp h
    exact ⟨ih hl hrl, hrr, hroot.merge hul, hur⟩

end Priorities

/-! ## The operations -/

section Operations

variable [LinearOrder κ] [LinearOrder π]

/-- The tree with one key more. -/
def insert (x : κ) (y : π) : Treap κ π → Treap κ π
  | leaf => node leaf x y leaf
  | node l x' y' r =>
    if y < y' then
      if x < x' then node (insert x y l) x' y' r
      else node l x' y' (insert x y r)
    else node (split x (node l x' y' r)).1 x y (split x (node l x' y' r)).2

/-- The tree without the key `x`. -/
def delete (x : κ) : Treap κ π → Treap κ π
  | leaf => leaf
  | node l x' y r =>
    if x = x' then merge l r
    else if x < x' then node (delete x l) x' y r
    else node l x' y (delete x r)

/-- The keys after an insertion. -/
theorem mem_keys_insert (x : κ) (y : π) (t : Treap κ π) (z : κ) :
    z ∈ (t.insert x y).keys ↔ z = x ∨ z ∈ t.keys := by
  induction t with
  | leaf => simp [insert, mem_keys_node]
  | node l x' y' r ihl ihr =>
    rw [insert]
    by_cases hy : y < y'
    · rw [if_pos hy]
      by_cases hx : x < x'
      · rw [if_pos hx, mem_keys_node, mem_keys_node, ihl]
        simp only [or_assoc, or_left_comm]
      · rw [if_neg hx, mem_keys_node, mem_keys_node, ihr]
        simp only [or_left_comm]
    · rw [if_neg hy, mem_keys_node, mem_keys_split x (node l x' y' r)]

/-- A merge has the keys of both. -/
theorem mem_keys_merge (l r : Treap κ π) (z : κ) :
    z ∈ (merge l r).keys ↔ z ∈ l.keys ∨ z ∈ r.keys := by
  induction l, r using merge.induct with
  | case1 r => simp
  | case2 l x y r => simp
  | case3 l x y r l' x' y' r' h ih =>
    rw [merge_node_of_lt h, mem_keys_node, mem_keys_node, ih]
    simp only [or_assoc]
  | case4 l x y r l' x' y' r' h ih =>
    rw [merge_node_of_le (not_lt.mp h), mem_keys_node, mem_keys_node (l := l'), ih]
    simp only [or_assoc, or_comm, or_left_comm]

/-- A new key keeps the order. -/
theorem IsSearch.insert {t : Treap κ π} (h : t.IsSearch) {x : κ} (hx : x ∉ t.keys) (y : π) :
    (t.insert x y).IsSearch := by
  induction t with
  | leaf => exact isSearch_single x y
  | node l x' y' r ihl ihr =>
    rw [Treap.insert]
    by_cases hy : y < y'
    · obtain ⟨hl, hr, hbelow, habove⟩ := h
      rw [mem_keys_node, not_or, not_or] at hx
      rw [if_pos hy]
      by_cases hlt : x < x'
      · rw [if_pos hlt]
        refine ⟨ihl hl hx.2.1, hr, ?_, habove⟩
        intro z hz
        rcases (mem_keys_insert x y l z).mp hz with rfl | hz
        · exact hlt
        · exact hbelow z hz
      · rw [if_neg hlt]
        refine ⟨hl, ihr hr hx.2.2, hbelow, ?_⟩
        intro z hz
        rcases (mem_keys_insert x y r z).mp hz with rfl | hz
        · exact lt_of_le_of_ne (not_lt.mp hlt) (Ne.symm hx.1)
        · exact habove z hz
    · rw [if_neg hy]
      obtain ⟨h₁, h₂, hle, hlt⟩ := h.split x
      refine ⟨h₁, h₂, ?_, hlt⟩
      intro z hz
      apply lt_of_le_of_ne (hle z hz)
      rintro rfl
      exact hx ((mem_keys_split z _ z).mpr (Or.inl hz))

/-- Search trees one beside the other merge to a search tree. -/
theorem IsSearch.merge {l r : Treap κ π} (hl : l.IsSearch) (hr : r.IsSearch)
    (hlt : ∀ z ∈ l.keys, ∀ z' ∈ r.keys, z < z') : (merge l r).IsSearch := by
  induction l, r using merge.induct with
  | case1 r => rwa [merge_leaf_left]
  | case2 l x y r => rwa [merge_leaf_right]
  | case3 l x y r l' x' y' r' h ih =>
    rw [merge_node_of_lt h]
    obtain ⟨hll, hlr, hbelow, habove⟩ := hl
    refine ⟨hll, ih hlr hr ?_, hbelow, ?_⟩
    · intro z hz
      exact hlt z ((mem_keys_node).mpr (Or.inr (Or.inr hz)))
    · intro z hz
      rcases (mem_keys_merge _ _ z).mp hz with hz | hz
      · exact habove z hz
      · exact hlt x ((mem_keys_node).mpr (Or.inl rfl)) z hz
  | case4 l x y r l' x' y' r' h ih =>
    rw [merge_node_of_le (not_lt.mp h)]
    obtain ⟨hrl, hrr, hbelow, habove⟩ := hr
    refine ⟨ih hl hrl ?_, hrr, ?_, habove⟩
    · intro z hz z' hz'
      exact hlt z hz z' ((mem_keys_node).mpr (Or.inr (Or.inl hz')))
    · intro z hz
      rcases (mem_keys_merge _ _ z).mp hz with hz | hz
      · exact hlt z hz x' ((mem_keys_node).mpr (Or.inl rfl))
      · exact hbelow z hz

/-- **What `delete` leaves** of a search tree. -/
theorem IsSearch.mem_keys_delete {t : Treap κ π} (h : t.IsSearch) (x z : κ) :
    z ∈ (t.delete x).keys ↔ z ∈ t.keys ∧ z ≠ x := by
  induction t with
  | leaf => simp [Treap.delete]
  | node l x' y r ihl ihr =>
    obtain ⟨hxl, hxr⟩ := h.notMem
    obtain ⟨hl, hr, hbelow, habove⟩ := h
    rw [Treap.delete]
    by_cases heq : x = x'
    · rw [if_pos heq, mem_keys_merge, mem_keys_node, heq]
      constructor
      · rintro (hz | hz)
        · exact ⟨Or.inr (Or.inl hz), fun hzx => hxl (hzx ▸ hz)⟩
        · exact ⟨Or.inr (Or.inr hz), fun hzx => hxr (hzx ▸ hz)⟩
      · rintro ⟨hz | hz, hne⟩
        · exact absurd hz hne
        · exact hz
    · rw [if_neg heq]
      by_cases hlt : x < x'
      · rw [if_pos hlt, mem_keys_node, mem_keys_node, ihl hl]
        constructor
        · rintro (rfl | hz | hz)
          · exact ⟨Or.inl rfl, Ne.symm heq⟩
          · exact ⟨Or.inr (Or.inl hz.1), hz.2⟩
          · exact ⟨Or.inr (Or.inr hz), (hlt.trans (habove z hz)).ne'⟩
        · rintro ⟨hz | hz | hz, hne⟩
          · exact Or.inl hz
          · exact Or.inr (Or.inl ⟨hz, hne⟩)
          · exact Or.inr (Or.inr hz)
      · have hgt : x' < x := lt_of_le_of_ne (not_lt.mp hlt) (Ne.symm heq)
        rw [if_neg hlt, mem_keys_node, mem_keys_node, ihr hr]
        constructor
        · rintro (rfl | hz | hz)
          · exact ⟨Or.inl rfl, Ne.symm heq⟩
          · exact ⟨Or.inr (Or.inl hz), ((hbelow z hz).trans hgt).ne⟩
          · exact ⟨Or.inr (Or.inr hz.1), hz.2⟩
        · rintro ⟨hz | hz | hz, hne⟩
          · exact Or.inl hz
          · exact Or.inr (Or.inl hz)
          · exact Or.inr (Or.inr ⟨hz, hne⟩)

/-- What a deletion leaves is a search tree. -/
theorem IsSearch.delete {t : Treap κ π} (h : t.IsSearch) (x : κ) : (t.delete x).IsSearch := by
  induction t with
  | leaf => trivial
  | node l x' y r ihl ihr =>
    obtain ⟨hl, hr, hbelow, habove⟩ := h
    rw [Treap.delete]
    by_cases heq : x = x'
    · rw [if_pos heq]
      exact hl.merge hr (fun z hz z' hz' => (hbelow z hz).trans (habove z' hz'))
    · rw [if_neg heq]
      by_cases hlt : x < x'
      · rw [if_pos hlt]
        exact ⟨ihl hl, hr, fun z hz => hbelow z ((hl.mem_keys_delete x z).mp hz).1, habove⟩
      · rw [if_neg hlt]
        exact ⟨hl, ihr hr, hbelow, fun z hz => habove z ((hr.mem_keys_delete x z).mp hz).1⟩

/-- Splitting keeps a bound and the heap order. -/
theorem Under.split {t : Treap κ π} {y : π} (h : t.Under y) (hheap : t.IsHeap) (x : κ) :
    (t.split x).1.Under y ∧ (t.split x).2.Under y := by
  induction t with
  | leaf => exact ⟨trivial, trivial⟩
  | node l x' y' r ihl ihr =>
    obtain ⟨hl, hr, hul, hur⟩ := hheap
    rw [Treap.split]
    by_cases hx : x < x'
    · rw [if_pos hx]
      exact ⟨(ihl (hul.trans h) hl).1, h⟩
    · rw [if_neg hx]
      exact ⟨h, (ihr (hur.trans h) hr).2⟩

theorem IsHeap.split {t : Treap κ π} (h : t.IsHeap) (x : κ) :
    (t.split x).1.IsHeap ∧ (t.split x).2.IsHeap := by
  induction t with
  | leaf => exact ⟨trivial, trivial⟩
  | node l x' y r ihl ihr =>
    obtain ⟨hl, hr, hul, hur⟩ := h
    rw [Treap.split]
    by_cases hx : x < x'
    · rw [if_pos hx]
      exact ⟨(ihl hl).1, (ihl hl).2, hr, (hul.split hl x).2, hur⟩
    · rw [if_neg hx]
      exact ⟨⟨hl, (ihr hr).1, hul, (hur.split hr x).1⟩, (ihr hr).2⟩

/-- Inserting keeps a bound. -/
theorem Under.insert {t : Treap κ π} {y y' : π} (h : t.Under y') (hy : y ≤ y') (x : κ) :
    (t.insert x y).Under y' := by
  cases t with
  | leaf => exact hy
  | node l x' z r =>
    rw [Treap.insert]
    split_ifs
    · exact h
    · exact h
    · exact hy

/-- A new key keeps the order of the priorities. -/
theorem IsHeap.insert {t : Treap κ π} (h : t.IsHeap) (x : κ) (y : π) : (t.insert x y).IsHeap := by
  induction t with
  | leaf => exact ⟨trivial, trivial, trivial, trivial⟩
  | node l x' y' r ihl ihr =>
    rw [Treap.insert]
    by_cases hy : y < y'
    · obtain ⟨hl, hr, hul, hur⟩ := h
      rw [if_pos hy]
      by_cases hx : x < x'
      · rw [if_pos hx]
        exact ⟨ihl hl, hr, hul.insert hy.le x, hur⟩
      · rw [if_neg hx]
        exact ⟨hl, ihr hr, hul, hur.insert hy.le x⟩
    · rw [if_neg hy]
      have hroot : (node l x' y' r).Under y := not_lt.mp hy
      obtain ⟨h₁, h₂⟩ := h.split x
      obtain ⟨hu₁, hu₂⟩ := hroot.split h x
      exact ⟨h₁, h₂, hu₁, hu₂⟩

/-- So do deletions. -/
theorem Under.delete {t : Treap κ π} {y : π} (h : t.Under y) (hheap : t.IsHeap) (x : κ) :
    (t.delete x).Under y := by
  cases t with
  | leaf => trivial
  | node l x' y' r =>
    obtain ⟨-, -, hul, hur⟩ := hheap
    rw [Treap.delete]
    split_ifs
    · exact (hul.merge hur).trans h
    · exact h
    · exact h

theorem IsHeap.delete {t : Treap κ π} (h : t.IsHeap) (x : κ) : (t.delete x).IsHeap := by
  induction t with
  | leaf => trivial
  | node l x' y r ihl ihr =>
    obtain ⟨hl, hr, hul, hur⟩ := h
    rw [Treap.delete]
    split_ifs
    · exact hl.merge hr
    · exact ⟨ihl hl, hr, hul.delete hl x, hur⟩
    · exact ⟨hl, ihr hr, hul, hur.delete hr x⟩

end Operations

end Treap
