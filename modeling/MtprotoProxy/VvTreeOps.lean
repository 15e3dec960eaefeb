/-
# The operations on trees that share their nodes

What each function of the tree does to the memory, for pointers `M` that somebody holds meanwhile:
the trees at these stay what they are.  The pointers that an operation takes are used up, and those
that it gives are held.  A copy needs room for one reference more to each node.

A node that an operation is about to link to others is not part of the memory that its calls work
on: it is set aside, with `Aside`, and comes back with `close`.
-/
import MtprotoProxy.VvTreeInv

namespace MtprotoProxy

namespace TreeHeap

open CLib
open Store (Parts)

variable {κ π : Type} [LinearOrder κ] {H K : TreeHeap κ π} {F : ℕ → Option (TreeNode κ π)}
  {M : Held κ π}

/-! ## Counts -/

/-- A count that stays above zero and below `2 ^ 31`. -/
theorem wrap32_of_counted {n : ℤ} (h : 0 ≤ n ∧ n < 2 ^ 31) : wrap32 n = n :=
  wrap32_of_isInt32 ⟨by omega, h.2⟩

/-- Room for one reference more to a node. -/
theorem Inv.refcnt_lt (h : Inv K M) {p : ℕ} {T : TreeNode κ π} {t : Treap κ π}
    (hroom : Room 0 ((some p, t) ::ₘ M)) (hp : Rep K (some p) t) (hT : K.cell p = some T) :
    T.refcnt + 1 < 2 ^ 31 := by
  have hle := h.count_le hT
  have hx := hroom T.x
  rw [Multiset.countP_cons, if_pos (hp.key_mem Relation.ReflTransGen.refl hT)] at hx
  rw [h.refcnt p T hT]
  omega

variable {p : Option ℕ} {t : Treap κ π}

/-- One reference more. -/
theorem increfPtr_spec (hj : Parts K F H) (h : Inv K M) (hp : Rep K p t)
    (hroom : Room 0 ((p, t) ::ₘ M)) :
    ∃ H' K', increfPtr H p = some H' ∧ Parts K' F H' ∧ Inv K' ((p, t) ::ₘ M) ∧
      Extends K K' := by
  cases p with
  | none =>
    rw [hp.eq_leaf]
    exact ⟨H, K, rfl, hj, h.cons_none, fun _ _ ht => ht⟩
  | some p =>
    obtain ⟨T, -, -, hT, -⟩ := hp.exists_node
    have hcount := h.refcnt p T hT
    have hlt := h.refcnt_lt hroom hp hT
    have hself : T.refcnt + 1 = (holds ((some p, t) ::ₘ M) p + links K p : ℕ) := by
      rw [holds_cons_self]
      omega
    have hheld : ∀ e ∈ (some p, t) ::ₘ M, Rep K e.1 e.2 := by
      intro e he
      rcases Multiset.mem_cons.mp he with rfl | he
      · exact hp
      · exact h.held e he
    obtain ⟨hinv, hextends⟩ :=
      h.put_refcnt hT (by omega) hself (fun q hq => holds_cons_ne hq t) hheld
    refine ⟨_, _, ?_, hj.put hT _, hinv, hextends⟩
    unfold increfPtr
    simp only [hj.get hT, some_bind, Option.pure_def]
    rw [wrap32_of_counted (by omega)]

/-- **`tree_free`** gives back a reference, and frees what nobody refers to any more. -/
theorem treeFreeRec_spec {n : ℕ} (hj : Parts K F H)
    (h : Inv K ((p, t) ::ₘ M)) (hn : t.height ≤ n) :
    ∃ H' K', treeFreeRec n H p = some H' ∧ Parts K' F H' ∧ Inv K' M := by
  induction t generalizing n p K H F M with
  | leaf =>
    obtain rfl : p = none := h.head
    refine ⟨H, K, ?_, hj, h.of_cons_none⟩
    cases n <;> rfl
  | node l x y r ihl ihr =>
    rw [Treap.height_node] at hn
    obtain ⟨n, rfl⟩ : ∃ m, n = m + 1 := ⟨n - 1, by omega⟩
    obtain ⟨p, T, rfl, hT, rfl, rfl, hl, hr⟩ := h.head
    have hcount := h.refcnt p T hT
    have hpos := h.counted p T hT
    rw [holds_cons_self] at hcount
    rw [treeFreeRec]
    simp only [hj.get hT, Option.bind_eq_bind, Option.bind_some, Option.pure_def]
    rw [wrap32_of_counted (by omega)]
    by_cases hmany : T.refcnt > 1
    · rw [if_pos hmany]
      have hself : T.refcnt - 1 = (holds M p + links K p : ℕ) := by omega
      obtain ⟨hinv, -⟩ := h.put_refcnt hT (by omega) hself
        (fun q hq => (holds_cons_ne hq _).symm)
        (fun e he => h.held e (Multiset.mem_cons_of_mem he))
      exact ⟨_, _, rfl, hj.put hT _, hinv⟩
    · have hone : T.refcnt = 1 := by omega
      -- the node is set aside while its subtrees go
      have hzero := hj.put hT (some { T with refcnt := T.refcnt - 1 })
      have haside := hzero.hide (Store.cell_put_self hT _)
      rw [Store.put_put] at haside
      have hF := (hj.cell p T hT).2
      obtain ⟨H₁, K₁, hrun₁, hj₁, hinv₁⟩ :=
        ihl haside (h.remove hT hone hl hr) (by omega : l.height ≤ n)
      obtain ⟨H₂, K₂, hrun₂, hj₂, hinv₂⟩ := ihr hj₁ hinv₁ (by omega : r.height ≤ n)
      refine ⟨H₂.put p none, K₂, ?_, hj₂.free_aside hF, hinv₂⟩
      rw [if_neg hmany, guard, if_pos (by omega)]
      simp only [Option.pure_def, Option.bind_some,
        Store.cell_put_self (hj.get hT) (some { T with refcnt := T.refcnt - 1 }), hrun₁,
        (hj₁.aside (Function.update_self ..)).1, hrun₂]

theorem treeFree_spec (hj : Parts K F H)
    (h : Inv K ((p, t) ::ₘ M)) :
    ∃ H' K', treeFree H p = some H' ∧ Parts K' F H' ∧ Inv K' M := by
  apply treeFreeRec_spec hj h
  rw [hj.size_eq]
  exact h.head.height_le

/-! ## A node in the hands of an operation -/

/-- The node `q` is set aside, with the pointers `a` and `b` in it. -/
structure Aside (K : TreeHeap κ π) (F : ℕ → Option (TreeNode κ π)) (H : TreeHeap κ π) (q : ℕ)
    (a b : Option ℕ) (x : κ) (y : π) : Prop where
  unused : F q = none
  joined : Parts K (Function.update F q (some ⟨a, b, x, y, 1⟩)) H

section Aside

variable {q : ℕ} {a b : Option ℕ} {x : κ} {y : π}

omit [LinearOrder κ] in
theorem Aside.cell (h : Aside K F H q a b x y) : H.cell q = some ⟨a, b, x, y, 1⟩ :=
  (h.joined.aside (Function.update_self ..)).1

omit [LinearOrder κ] in
theorem Aside.setLeft (h : Aside K F H q a b x y) (v : Option ℕ) :
    ∃ H', H.setLeft q v = some H' ∧ Aside K F H' q v b x y := by
  refine ⟨_, ?_, h.unused, h.joined.put_aside ⟨v, b, x, y, 1⟩⟩
  unfold TreeHeap.setLeft
  simp only [h.cell, some_bind, Option.pure_def]

omit [LinearOrder κ] in
theorem Aside.setRight (h : Aside K F H q a b x y) (v : Option ℕ) :
    ∃ H', H.setRight q v = some H' ∧ Aside K F H' q a v x y := by
  refine ⟨_, ?_, h.unused, h.joined.put_aside ⟨a, v, x, y, 1⟩⟩
  unfold TreeHeap.setRight
  simp only [h.cell, some_bind, Option.pure_def]

/-- **The node is finished**, and held. -/
theorem Aside.close (hq : Aside K F H q a b x y) {l r : Treap κ π}
    (h : Inv K ((a, l) ::ₘ (b, r) ::ₘ M)) (hs : (Treap.node l x y r).IsSearch) :
    ∃ K', Parts K' F H ∧ Inv K' ((some q, .node l x y r) ::ₘ M) := by
  obtain ⟨-, hnone, hlt⟩ := hq.joined.aside (Function.update_self ..)
  exact ⟨_, hq.joined.unhide hq.unused, h.add hs hnone hlt⟩

end Aside

theorem Inv.skip (h : Inv K M) : Inv K.skip M := by
  have hextends : Extends K K.skip := extends_of_cells (fun _ T hT => ⟨T.refcnt, hT⟩)
  refine ⟨?_, h.counted, fun e he => hextends _ _ (h.held e he), ?_⟩
  · intro p T hp
    have hlinks : links K.skip p = links K p := Store.total_skip
    rw [hlinks]
    exact h.refcnt p T hp
  · intro p T hp
    obtain ⟨t, ht, hsearch⟩ := h.tree p T hp
    exact ⟨t, hextends _ _ ht, hsearch⟩

/-- **`tree_clone`**: the copy is in the hands of the operation, and so are its subtrees. -/
theorem treeClone_spec {p : ℕ} {l r : Treap κ π} {x : κ} {y : π} (hj : Parts K F H)
    (h : Inv K ((some p, .node l x y r) ::ₘ M))
    (hroom : Room 1 ((some p, .node l x y r) ::ₘ M)) :
    ∃ H' K' q a b, treeClone H p = some (H', q) ∧ Aside K' F H' q a b x y ∧
      Inv K' ((a, l) ::ₘ (b, r) ::ₘ M) := by
  have hinv₀ := h.skip
  obtain ⟨T, l', r', hT, hnode, hl, hr⟩ := hinv₀.head.exists_node
  obtain ⟨rfl, rfl, rfl, rfl⟩ := Treap.node.inj hnode
  have haside₀ : Aside K.skip F (treeAlloc H T.x T.y) K.size none none T.x T.y :=
    ⟨hj.none_size, hj.alloc_aside _⟩
  obtain ⟨H₁, K₁, hrun₁, hj₁, hinv₁, hext₁⟩ :=
    increfPtr_spec haside₀.joined hinv₀ hl (hroom.cons _)
  have haside₁ : Aside K₁ F H₁ K.size none none T.x T.y := ⟨hj.none_size, hj₁⟩
  obtain ⟨H₂, hrun₂, haside₂⟩ := haside₁.setLeft T.left
  have hheld : (T.right, r) ::ₘ (T.left, l) ::ₘ (some p, .node l T.x T.y r) ::ₘ M
      = (some p, .node l T.x T.y r) ::ₘ (T.left, l) ::ₘ (T.right, r) ::ₘ M := by
    rw [Multiset.cons_swap (T.right, r) (T.left, l), Multiset.cons_swap (T.right, r),
      Multiset.cons_swap (T.left, l)]
  have hroom₁ := hroom.kids (a := T.left) (b := T.right) (h.search h.head)
  obtain ⟨H₃, K₃, hrun₃, hj₃, hinv₃, -⟩ :=
    increfPtr_spec haside₂.joined hinv₁ (hext₁ _ _ hr) (by rw [hheld]; exact hroom₁.cons _)
  have haside₃ : Aside K₃ F H₃ K.size T.left none T.x T.y := ⟨hj.none_size, hj₃⟩
  obtain ⟨H₄, hrun₄, haside₄⟩ := haside₃.setRight T.right
  rw [hheld] at hinv₃
  obtain ⟨H₅, K₅, hrun₅, hj₅, hinv₅⟩ := treeFree_spec haside₄.joined hinv₃
  refine ⟨H₅, K₅, K.size, T.left, T.right, ?_, ⟨hj.none_size, hj₅⟩, hinv₅⟩
  unfold treeClone
  rw [hj.size_eq]
  simp only [hj.get (p := p) hT, some_bind, Option.pure_def, hrun₁, hrun₂, hrun₃, hrun₄, hrun₅]

/-- A new node without subtrees. -/
theorem treeAlloc_spec (hj : Parts K F H) (h : Inv K M) (x : κ) (y : π) :
    ∃ K', Parts K' F (treeAlloc H x y) ∧
      Inv K' ((some H.size, .node .leaf x y .leaf) ::ₘ M) := by
  have hq : Aside K.skip F (treeAlloc H x y) H.size none none x y := by
    rw [hj.size_eq]
    exact ⟨hj.none_size, hj.alloc_aside _⟩
  exact hq.close h.skip.cons_none.cons_none (Treap.isSearch_single x y)

/-! ## The operations -/

section Operations

/-- **`tree_split`** -/
theorem treeSplitRec_spec {n : ℕ} {x : κ} (hj : Parts K F H)
    (h : Inv K ((p, t) ::ₘ M)) (hroom : Room 1 ((p, t) ::ₘ M)) (hn : t.height ≤ n) :
    ∃ H' K' L R, treeSplitRec n H p x = some (H', L, R) ∧ Parts K' F H' ∧
      Inv K' ((L, (t.split x).1) ::ₘ (R, (t.split x).2) ::ₘ M) := by
  induction t generalizing n p K H F M with
  | leaf =>
    obtain rfl : p = none := h.head
    refine ⟨H, K, none, none, ?_, hj, h.cons_none⟩
    cases n <;> rfl
  | node l x' y r ihl ihr =>
    rw [Treap.height_node] at hn
    obtain ⟨n, rfl⟩ : ∃ m, n = m + 1 := ⟨n - 1, by omega⟩
    have hs := h.search h.head
    obtain ⟨p, T, rfl, hT, -⟩ := h.head
    obtain ⟨H₁, K₁, q, a, b, hclone, hq₁, hinv₁⟩ := treeClone_spec hj h hroom
    have hroom₁ := hroom.kids (a := a) (b := b) hs
    have hsplit := hs.split x
    rw [Treap.split] at hsplit
    rw [treeSplitRec, Treap.split]
    simp only [hclone, hq₁.cell, Option.bind_eq_bind, Option.bind_some, Option.pure_def]
    by_cases hx : x < x'
    · rw [if_pos hx] at hsplit
      rw [if_pos hx, if_pos hx]
      obtain ⟨H₂, K₂, L, c, hrun₂, hj₂, hinv₂⟩ :=
        ihl hq₁.joined hinv₁ hroom₁ (by omega : l.height ≤ n)
      have hq₂ : Aside K₂ F H₂ q a b x' y := ⟨hq₁.unused, hj₂⟩
      obtain ⟨H₃, hrun₃, hq₃⟩ := hq₂.setLeft c
      rw [Multiset.cons_swap (L, _) (c, _), Multiset.cons_swap (L, _) (b, r)] at hinv₂
      obtain ⟨K₄, hj₄, hinv₄⟩ := hq₃.close hinv₂ hsplit.2.1
      refine ⟨H₃, K₄, L, some q, ?_, hj₄, ?_⟩
      · simp only [hrun₂, hrun₃, Option.bind_some]
      · rwa [Multiset.cons_swap]
    · rw [if_neg hx] at hsplit
      rw [if_neg hx, if_neg hx]
      rw [Multiset.cons_swap] at hinv₁ hroom₁
      obtain ⟨H₂, K₂, c, R, hrun₂, hj₂, hinv₂⟩ :=
        ihr hq₁.joined hinv₁ hroom₁ (by omega : r.height ≤ n)
      have hq₂ : Aside K₂ F H₂ q a b x' y := ⟨hq₁.unused, hj₂⟩
      obtain ⟨H₃, hrun₃, hq₃⟩ := hq₂.setRight c
      rw [Multiset.cons_swap (R, _) (a, l), Multiset.cons_swap (c, _) (a, l)] at hinv₂
      obtain ⟨K₄, hj₄, hinv₄⟩ := hq₃.close hinv₂ hsplit.1
      refine ⟨H₃, K₄, some q, R, ?_, hj₄, hinv₄⟩
      simp only [hrun₂, hrun₃, Option.bind_some]

variable [LinearOrder π]

/-- **`tree_insert`** -/
theorem treeInsertRec_spec {n : ℕ} {x : κ} {y : π}
    (hj : Parts K F H) (h : Inv K ((p, t) ::ₘ M)) (hroom : Room 1 ((p, t) ::ₘ M))
    (hx : x ∉ t.keys) (hn : t.height ≤ n) :
    ∃ H' K' q, treeInsertRec n H p x y = some (H', q) ∧ Parts K' F H' ∧
      Inv K' ((some q, t.insert x y) ::ₘ M) := by
  induction t generalizing n p K H F M with
  | leaf =>
    obtain rfl : p = none := h.head
    obtain ⟨K', hj', hinv'⟩ := treeAlloc_spec hj h.of_cons_none x y
    refine ⟨_, K', H.size, ?_, hj', hinv'⟩
    cases n <;> rfl
  | node l x' y' r ihl ihr =>
    rw [Treap.height_node] at hn
    obtain ⟨n, rfl⟩ : ∃ m, n = m + 1 := ⟨n - 1, by omega⟩
    have hs := h.search h.head
    have hinsert := hs.insert hx y
    rw [Treap.mem_keys_node, not_or, not_or] at hx
    obtain ⟨hne, hxl, hxr⟩ := hx
    obtain ⟨p, T, rfl, hT, -⟩ := h.head
    obtain ⟨H₁, K₁, q, a, b, hclone, hq₁, hinv₁⟩ := treeClone_spec hj h hroom
    have hroom₁ := hroom.kids (a := a) (b := b) hs
    rw [Treap.insert] at hinsert
    rw [treeInsertRec, Treap.insert]
    simp only [hclone, hq₁.cell, Option.bind_eq_bind, Option.bind_some, Option.pure_def]
    by_cases hy : y < y'
    · rw [if_pos hy] at hinsert
      rw [if_pos hy, if_pos hy, guard, if_pos hne]
      simp only [Option.pure_def, Option.bind_some]
      by_cases hlt : x < x'
      · rw [if_pos hlt] at hinsert
        rw [if_pos hlt, if_pos hlt]
        obtain ⟨H₂, K₂, c, hrun₂, hj₂, hinv₂⟩ :=
          ihl hq₁.joined hinv₁ hroom₁ hxl (by omega : l.height ≤ n)
        have hq₂ : Aside K₂ F H₂ q a b x' y' := ⟨hq₁.unused, hj₂⟩
        obtain ⟨H₃, hrun₃, hq₃⟩ := hq₂.setLeft (some c)
        obtain ⟨K₄, hj₄, hinv₄⟩ := hq₃.close hinv₂ hinsert
        refine ⟨H₃, K₄, q, ?_, hj₄, hinv₄⟩
        simp only [hrun₂, hrun₃, Option.bind_some]
      · rw [if_neg hlt] at hinsert
        rw [if_neg hlt, if_neg hlt]
        rw [Multiset.cons_swap] at hinv₁ hroom₁
        obtain ⟨H₂, K₂, c, hrun₂, hj₂, hinv₂⟩ :=
          ihr hq₁.joined hinv₁ hroom₁ hxr (by omega : r.height ≤ n)
        have hq₂ : Aside K₂ F H₂ q a b x' y' := ⟨hq₁.unused, hj₂⟩
        obtain ⟨H₃, hrun₃, hq₃⟩ := hq₂.setRight (some c)
        rw [Multiset.cons_swap] at hinv₂
        obtain ⟨K₄, hj₄, hinv₄⟩ := hq₃.close hinv₂ hinsert
        refine ⟨H₃, K₄, q, ?_, hj₄, hinv₄⟩
        simp only [hrun₂, hrun₃, Option.bind_some]
    · rw [if_neg hy] at hinsert
      rw [if_neg hy, if_neg hy]
      -- the copy is finished before it is split
      obtain ⟨K₂, hj₂, hinv₂⟩ := hq₁.close hinv₁ hs
      have hP : Aside K₂.skip F (treeAlloc H₁ x y) H₁.size none none x y := by
        rw [hj₂.size_eq]
        exact ⟨hj₂.none_size, hj₂.alloc_aside _⟩
      obtain ⟨H₄, K₄, L, R, hrun₄, hj₄, hinv₄⟩ :=
        treeSplitRec_spec (n := n + 1) (x := x) hP.joined hinv₂.skip (hroom.move _)
          (by rw [Treap.height_node]; omega)
      have hP₄ : Aside K₄ F H₄ H₁.size none none x y := ⟨hP.unused, hj₄⟩
      obtain ⟨H₅, hrun₅, hP₅⟩ := hP₄.setLeft L
      obtain ⟨H₆, hrun₆, hP₆⟩ := hP₅.setRight R
      obtain ⟨K₇, hj₇, hinv₇⟩ := hP₆.close hinv₄ hinsert
      refine ⟨H₆, K₇, H₁.size, ?_, hj₇, hinv₇⟩
      simp only [hrun₄, hrun₅, hrun₆, Option.bind_some]

/-- **`tree_merge`** -/
theorem treeMergeRec_spec {n : ℕ} {p q : Option ℕ} {l r : Treap κ π} (hj : Parts K F H)
    (h : Inv K ((p, l) ::ₘ (q, r) ::ₘ M)) (hroom : Room 1 ((p, l) ::ₘ (q, r) ::ₘ M))
    (hs : (Treap.merge l r).IsSearch) (hn : l.height + r.height ≤ n) :
    ∃ H' K' m, treeMergeRec n H p q = some (H', m) ∧ Parts K' F H' ∧
      Inv K' ((m, Treap.merge l r) ::ₘ M) := by
  induction l, r using Treap.merge.induct generalizing n p q K H F M with
  | case1 r =>
    obtain rfl : p = none := h.head
    refine ⟨H, K, q, ?_, hj, ?_⟩
    · cases n <;> rfl
    · rw [Treap.merge_leaf_left]
      exact h.of_cons_none
  | case2 l x y r =>
    rw [Multiset.cons_swap] at h
    obtain rfl : q = none := h.head
    have hinv := h.of_cons_none
    obtain ⟨p, T, rfl, hT, -⟩ := hinv.head
    refine ⟨H, K, some p, ?_, hj, ?_⟩
    · cases n <;> rfl
    · rwa [Treap.merge_leaf_right]
  | case3 l x y r l' x' y' r' hlt ih =>
    rw [Treap.height_node] at hn
    obtain ⟨n, rfl⟩ : ∃ m, n = m + 1 := ⟨n - 1, by omega⟩
    have hL := h.search h.head
    obtain ⟨p, TL, rfl, hTL, rfl, rfl, -⟩ := h.head
    obtain ⟨q, TR, rfl, hTR, rfl, rfl, -⟩ := h.second
    obtain ⟨H₁, K₁, c, a, b, hclone, hc₁, hinv₁⟩ := treeClone_spec hj h hroom
    have hroom₁ := hroom.kids (a := a) (b := b) hL
    rw [Treap.merge_node_of_lt hlt] at hs
    rw [treeMergeRec, Treap.merge_node_of_lt hlt]
    simp only [hj.get hTL, hj.get hTR, Option.bind_eq_bind, Option.bind_some, Option.pure_def]
    rw [if_pos hlt]
    simp only [hclone, hc₁.cell, Option.bind_some]
    rw [Multiset.cons_swap (a, l) (b, r), Multiset.cons_swap (a, l) (some q, _)] at hinv₁ hroom₁
    obtain ⟨H₂, K₂, m, hrun₂, hj₂, hinv₂⟩ :=
      ih (n := n) hc₁.joined hinv₁ hroom₁ hs.2.1 (by omega)
    have hc₂ : Aside K₂ F H₂ c a b TL.x TL.y := ⟨hc₁.unused, hj₂⟩
    obtain ⟨H₃, hrun₃, hc₃⟩ := hc₂.setRight m
    rw [Multiset.cons_swap] at hinv₂
    obtain ⟨K₄, hj₄, hinv₄⟩ := hc₃.close hinv₂ hs
    refine ⟨H₃, K₄, some c, ?_, hj₄, hinv₄⟩
    simp only [hrun₂, hrun₃, Option.bind_some]
  | case4 l x y r l' x' y' r' hlt ih =>
    rw [Treap.height_node l'] at hn
    obtain ⟨n, rfl⟩ : ∃ m, n = m + 1 := ⟨n - 1, by omega⟩
    obtain ⟨p, TL, rfl, hTL, rfl, rfl, -⟩ := h.head
    rw [Multiset.cons_swap] at h hroom
    have hR := h.search h.head
    obtain ⟨q, TR, rfl, hTR, rfl, rfl, -⟩ := h.head
    obtain ⟨H₁, K₁, c, a, b, hclone, hc₁, hinv₁⟩ := treeClone_spec hj h hroom
    have hroom₁ := hroom.kids (a := a) (b := b) hR
    rw [Treap.merge_node_of_le (not_lt.mp hlt)] at hs
    rw [treeMergeRec, Treap.merge_node_of_le (not_lt.mp hlt)]
    simp only [hj.get hTL, hj.get hTR, Option.bind_eq_bind, Option.bind_some, Option.pure_def]
    rw [if_neg hlt]
    simp only [hclone, hc₁.cell, Option.bind_some]
    rw [Multiset.cons_swap (b, r') (some p, _), Multiset.cons_swap (a, l') (some p, _)]
      at hinv₁ hroom₁
    obtain ⟨H₂, K₂, m, hrun₂, hj₂, hinv₂⟩ :=
      ih (n := n) hc₁.joined hinv₁ hroom₁ hs.1 (by omega)
    have hc₂ : Aside K₂ F H₂ c a b TR.x TR.y := ⟨hc₁.unused, hj₂⟩
    obtain ⟨H₃, hrun₃, hc₃⟩ := hc₂.setLeft m
    obtain ⟨K₄, hj₄, hinv₄⟩ := hc₃.close hinv₂ hs
    refine ⟨H₃, K₄, some c, ?_, hj₄, hinv₄⟩
    simp only [hrun₂, hrun₃, Option.bind_some]

/-- **`tree_delete`** -/
theorem treeDeleteRec_spec {n : ℕ} {x : κ} (hj : Parts K F H)
    (h : Inv K ((p, t) ::ₘ M)) (hroom : Room 1 ((p, t) ::ₘ M)) (hx : x ∈ t.keys)
    (hn : t.height ≤ n) :
    ∃ H' K' q, treeDeleteRec n H p x = some (H', q) ∧ Parts K' F H' ∧
      Inv K' ((q, t.delete x) ::ₘ M) := by
  induction t generalizing n p K H F M with
  | leaf => exact absurd hx (Finset.notMem_empty x)
  | node l x' y r ihl ihr =>
    rw [Treap.height_node] at hn
    obtain ⟨n, rfl⟩ : ∃ m, n = m + 1 := ⟨n - 1, by omega⟩
    have hs := h.search h.head
    have hdelete := hs.delete x
    obtain ⟨-, -, hbelow, habove⟩ := id hs
    obtain ⟨p, T, rfl, hT, -⟩ := h.head
    obtain ⟨H₁, K₁, q, a, b, hclone, hq₁, hinv₁⟩ := treeClone_spec hj h hroom
    have hroom₁ := hroom.kids (a := a) (b := b) hs
    rw [Treap.delete] at hdelete
    rw [treeDeleteRec, Treap.delete]
    simp only [hclone, hq₁.cell, Option.bind_eq_bind, Option.bind_some, Option.pure_def]
    by_cases heq : x = x'
    · rw [if_pos heq] at hdelete
      rw [if_pos heq, if_pos heq]
      obtain ⟨H₂, K₂, m, hrun₂, hj₂, hinv₂⟩ :=
        treeMergeRec_spec (n := 2 * n) hq₁.joined hinv₁ hroom₁ hdelete (by omega)
      have hq₂ : Aside K₂ F H₂ q a b x' y := ⟨hq₁.unused, hj₂⟩
      obtain ⟨H₃, hrun₃, hq₃⟩ := hq₂.setLeft none
      obtain ⟨H₄, hrun₄, hq₄⟩ := hq₃.setRight none
      obtain ⟨K₅, hj₅, hinv₅⟩ :=
        hq₄.close hinv₂.cons_none.cons_none (Treap.isSearch_single x' y)
      obtain ⟨H₆, K₆, hrun₆, hj₆, hinv₆⟩ := treeFree_spec hj₅ hinv₅
      refine ⟨H₆, K₆, m, ?_, hj₆, hinv₆⟩
      simp only [hrun₂, hrun₃, hrun₄, hrun₆, Option.bind_some]
    · rw [if_neg heq] at hdelete
      rw [if_neg heq, if_neg heq]
      rw [Treap.mem_keys_node] at hx
      by_cases hlt : x < x'
      · rw [if_pos hlt] at hdelete
        rw [if_pos hlt, if_pos hlt]
        have hxl : x ∈ l.keys := by
          rcases hx with hx | hx | hx
          · exact absurd hx heq
          · exact hx
          · exact absurd (habove x hx) (not_lt.mpr hlt.le)
        obtain ⟨H₂, K₂, c, hrun₂, hj₂, hinv₂⟩ :=
          ihl hq₁.joined hinv₁ hroom₁ hxl (by omega : l.height ≤ n)
        have hq₂ : Aside K₂ F H₂ q a b x' y := ⟨hq₁.unused, hj₂⟩
        obtain ⟨H₃, hrun₃, hq₃⟩ := hq₂.setLeft c
        obtain ⟨K₄, hj₄, hinv₄⟩ := hq₃.close hinv₂ hdelete
        refine ⟨H₃, K₄, some q, ?_, hj₄, hinv₄⟩
        simp only [hrun₂, hrun₃, Option.bind_some]
      · rw [if_neg hlt] at hdelete
        rw [if_neg hlt, if_neg hlt]
        have hxr : x ∈ r.keys := by
          rcases hx with hx | hx | hx
          · exact absurd hx heq
          · exact absurd (hbelow x hx) hlt
          · exact hx
        rw [Multiset.cons_swap] at hinv₁ hroom₁
        obtain ⟨H₂, K₂, c, hrun₂, hj₂, hinv₂⟩ :=
          ihr hq₁.joined hinv₁ hroom₁ hxr (by omega : r.height ≤ n)
        have hq₂ : Aside K₂ F H₂ q a b x' y := ⟨hq₁.unused, hj₂⟩
        obtain ⟨H₃, hrun₃, hq₃⟩ := hq₂.setRight c
        rw [Multiset.cons_swap] at hinv₂
        obtain ⟨K₄, hj₄, hinv₄⟩ := hq₃.close hinv₂ hdelete
        refine ⟨H₃, K₄, some q, ?_, hj₄, hinv₄⟩
        simp only [hrun₂, hrun₃, Option.bind_some]

end Operations

end TreeHeap

end MtprotoProxy
