/-
# The trees in the memory, and the references to their nodes

`Rep H p t` says that the tree at the pointer `p` is `t`.  `Inv K M` says that the pointers `M` are
held, each with the tree at it, and that the counts of the nodes are exact: a node has one reference
for each time that it is held, and one for each link to it from another node.

The lemmas say what a node that goes, a node that comes and a change of a count do to it.  A node
has no more references than trees with its key are held (`Inv.count_le`), so that the counts fit an
`int` as long as there is `Room`.
-/
import MtprotoProxy.StoreParts
import MtprotoProxy.Treap
import MtprotoProxy.VvTree

namespace MtprotoProxy

namespace TreeHeap

variable {κ π : Type} {H H' K K' : TreeHeap κ π}

/-! ## Trees in the memory -/

/-- The tree at a pointer. -/
def Rep (H : TreeHeap κ π) : Option ℕ → Treap κ π → Prop
  | p, .leaf => p = none
  | p, .node l x y r => ∃ q T, p = some q ∧ H.cell q = some T ∧ T.x = x ∧ T.y = y ∧
      Rep H T.left l ∧ Rep H T.right r

theorem rep_none : Rep H none .leaf := rfl

variable {T : TreeNode κ π}

theorem rep_some {p : ℕ} {l r : Treap κ π} (hp : H.cell p = some T)
    (hl : Rep H T.left l) (hr : Rep H T.right r) : Rep H (some p) (.node l T.x T.y r) :=
  ⟨p, T, rfl, hp, rfl, rfl, hl, hr⟩

/-- A pointer that is not `NULL` has a node. -/
theorem Rep.exists_node {p : ℕ} {t : Treap κ π} (h : Rep H (some p) t) :
    ∃ T l r, H.cell p = some T ∧ t = .node l T.x T.y r ∧ Rep H T.left l ∧ Rep H T.right r := by
  cases t with
  | leaf => exact absurd h (by simp [Rep])
  | node l x y r =>
    obtain ⟨q, T, hq, hT, rfl, rfl, hl, hr⟩ := h
    obtain rfl := Option.some.inj hq
    exact ⟨T, l, r, hT, rfl, hl, hr⟩

theorem Rep.eq_leaf {t : Treap κ π} (h : Rep H none t) : t = .leaf := by
  cases t with
  | leaf => rfl
  | node l x y r =>
    obtain ⟨q, T, hq, -⟩ := h
    exact absurd hq (by simp)

/-- There is one tree at a pointer. -/
theorem Rep.unique {p : Option ℕ} {t t' : Treap κ π} (h : Rep H p t) (h' : Rep H p t') :
    t = t' := by
  induction t generalizing p t' with
  | leaf =>
    obtain rfl : p = none := h
    exact h'.eq_leaf.symm
  | node l x y r ihl ihr =>
    obtain ⟨q, T, rfl, hT, rfl, rfl, hl, hr⟩ := h
    obtain ⟨T', l', r', hT', rfl, hl', hr'⟩ := h'.exists_node
    obtain rfl : T = T' := Option.some.inj (hT.symm.trans hT')
    rw [ihl hl hl', ihr hr hr']

/-- A tree stays where its nodes have kept everything but their counts. -/
theorem Rep.transfer (good : ℕ → Prop)
    (hgood : ∀ q T, good q → K.cell q = some T →
      (∃ n, K'.cell q = some { T with refcnt := n }) ∧
      (∀ q', T.left = some q' → good q') ∧ ∀ q', T.right = some q' → good q')
    {p : Option ℕ} (hp : ∀ q, p = some q → good q) {t : Treap κ π} (h : Rep K p t) :
    Rep K' p t := by
  induction t generalizing p with
  | leaf => exact h
  | node l x y r ihl ihr =>
    obtain ⟨q, T, rfl, hT, rfl, rfl, hl, hr⟩ := h
    obtain ⟨⟨n, hn⟩, hleft, hright⟩ := hgood q T (hp q rfl) hT
    exact ⟨q, _, rfl, hn, rfl, rfl, ihl hleft hl, ihr hright hr⟩

/-- All trees of `K` are trees of `K'`. -/
def Extends (K K' : TreeHeap κ π) : Prop := ∀ p t, Rep K p t → Rep K' p t

theorem extends_of_cells
    (h : ∀ q T, K.cell q = some T → ∃ n, K'.cell q = some { T with refcnt := n }) :
    Extends K K' := by
  intro p t ht
  refine Rep.transfer (fun _ => True) ?_ (fun _ _ => trivial) ht
  intro q T _ hT
  exact ⟨h q T hT, fun _ _ => trivial, fun _ _ => trivial⟩

variable {p : Option ℕ} {t : Treap κ π}

/-- Each height up to that of a tree is the height of the tree at some node. -/
theorem Rep.exists_height (h : Rep K p t) {k : ℕ} (hk : 1 ≤ k)
    (hkt : k ≤ t.height) : ∃ q s, Rep K (some q) s ∧ s.height = k := by
  induction t generalizing p with
  | leaf =>
    rw [Treap.height_leaf] at hkt
    omega
  | node l x y r ihl ihr =>
    by_cases htop : k = (Treap.node l x y r).height
    · obtain ⟨q, T, rfl, -⟩ := id h
      exact ⟨q, _, h, htop.symm⟩
    · obtain ⟨q, T, rfl, hT, rfl, rfl, hl, hr⟩ := h
      rw [Treap.height_node] at hkt htop
      rcases le_or_gt k l.height with hkl | hkl
      · exact ihl hl hkl
      · exact ihr hr (by omega)

/-- **A tree is not higher** than there are nodes. -/
theorem Rep.height_le (h : Rep K p t) : t.height ≤ K.size := by
  have hall : ∀ k ∈ Finset.Icc 1 t.height, ∃ q s, Rep K (some q) s ∧ s.height = k := by
    intro k hk
    obtain ⟨hlo, hhi⟩ := Finset.mem_Icc.mp hk
    exact h.exists_height hlo hhi
  choose! f s hs hheight using hall
  have hcard := Finset.card_le_card_of_injOn (s := Finset.Icc 1 t.height)
    (t := Finset.range K.size) f ?_ ?_
  · rwa [Nat.card_Icc, Nat.add_sub_cancel, Finset.card_range] at hcard
  · intro k hk
    obtain ⟨T, -, -, hT, -⟩ := (hs k hk).exists_node
    exact Finset.mem_coe.mpr (Finset.mem_range.mpr (Store.lt_size hT))
  · intro k hk k' hk' heq
    have hrep := hs k' hk'
    rw [← heq] at hrep
    rw [← hheight k hk, ← hheight k' hk', (hs k hk).unique hrep]

/-! ## Counted references -/

/-- The pointers that are held, each with the tree at it. -/
abbrev Held (κ π : Type) := Multiset (Option ℕ × Treap κ π)

/-- How often the pointer `p` is held. -/
def holds (M : Held κ π) (p : ℕ) : ℕ := M.countP (fun e => e.1 = some p)

/-- The pointers to `p` in a node. -/
def refs (T : TreeNode κ π) (p : ℕ) : ℕ :=
  (if T.left = some p then 1 else 0) + if T.right = some p then 1 else 0

/-- The tree links to `p`. -/
def links (K : TreeHeap κ π) (p : ℕ) : ℕ := K.total (fun T => refs T p)

variable {M : Held κ π}

theorem holds_cons (a : Option ℕ) (t : Treap κ π) (p : ℕ) :
    holds ((a, t) ::ₘ M) p = holds M p + if a = some p then 1 else 0 := Multiset.countP_cons _ _ _

theorem holds_cons_self (p : ℕ) (t : Treap κ π) : holds ((some p, t) ::ₘ M) p = holds M p + 1 := by
  rw [holds_cons, if_pos rfl]

theorem holds_cons_ne {p q : ℕ} (h : q ≠ p) (t : Treap κ π) :
    holds ((some p, t) ::ₘ M) q = holds M q := by
  rw [holds_cons, if_neg (fun he => h (Option.some.inj he).symm), add_zero]

theorem holds_kids (T : TreeNode κ π) (l r : Treap κ π) (p : ℕ) :
    holds ((T.left, l) ::ₘ (T.right, r) ::ₘ M) p = refs T p + holds M p := by
  rw [holds_cons, holds_cons]
  unfold refs
  omega

theorem exists_of_holds_pos {p : ℕ} (h : 0 < holds M p) : ∃ e ∈ M, e.1 = some p :=
  Multiset.countP_pos.mp h

theorem refs_pos {p : ℕ} :
    0 < refs T p ↔ T.left = some p ∨ T.right = some p := by
  unfold refs
  split_ifs with hl hr hr <;> simp [hl, hr]

theorem links_eq_zero {p : ℕ} (h : links K p = 0) {q : ℕ} (hq : K.cell q = some T) :
    T.left ≠ some p ∧ T.right ≠ some p := by
  have hle := Store.le_total (w := fun T => refs T p) hq
  have hzero : ¬ 0 < refs T p := by
    unfold links at h
    omega
  rw [refs_pos, not_or] at hzero
  exact hzero

variable [LinearOrder κ]

/-- **The invariant** of the memory, with the pointers `M` held outside. -/
structure Inv (K : TreeHeap κ π) (M : Held κ π) : Prop where
  refcnt : ∀ p T, K.cell p = some T → T.refcnt = (holds M p + links K p : ℕ)
  counted : ∀ p T, K.cell p = some T → 0 < T.refcnt ∧ T.refcnt < 2 ^ 31
  held : ∀ e ∈ M, Rep K e.1 e.2
  tree : ∀ p T, K.cell p = some T → ∃ t, Rep K (some p) t ∧ t.IsSearch

/-- No nodes. -/
theorem Inv.empty : Inv (.empty : TreeHeap κ π) 0 where
  refcnt := fun p T hp => absurd hp (by simp)
  counted := fun p T hp => absurd hp (by simp)
  held := fun e he => absurd he (Multiset.notMem_zero e)
  tree := fun p T hp => absurd hp (by simp)

theorem Inv.cons_none (h : Inv K M) : Inv K ((none, .leaf) ::ₘ M) where
  refcnt := by
    intro p T hp
    rw [holds_cons, if_neg (by simp), add_zero]
    exact h.refcnt p T hp
  counted := h.counted
  held := by
    intro e he
    rcases Multiset.mem_cons.mp he with rfl | he
    · exact rep_none
    · exact h.held e he
  tree := h.tree

theorem Inv.of_cons_none {t : Treap κ π} (h : Inv K ((none, t) ::ₘ M)) : Inv K M where
  refcnt := by
    intro p T hp
    have hcount := h.refcnt p T hp
    rwa [holds_cons, if_neg (by simp), add_zero] at hcount
  counted := h.counted
  held := fun e he => h.held e (Multiset.mem_cons_of_mem he)
  tree := h.tree

/-- The tree at the first pointer. -/
theorem Inv.head (h : Inv K ((p, t) ::ₘ M)) : Rep K p t :=
  h.held _ (Multiset.mem_cons_self _ M)

theorem Inv.second {e : Option ℕ × Treap κ π} (h : Inv K (e ::ₘ (p, t) ::ₘ M)) : Rep K p t :=
  h.held _ (Multiset.mem_cons_of_mem (Multiset.mem_cons_self _ M))

/-- Every tree is a search tree. -/
theorem Inv.search (h : Inv K M) (ht : Rep K p t) :
    t.IsSearch := by
  cases p with
  | none =>
    rw [ht.eq_leaf]
    trivial
  | some p =>
    obtain ⟨T, -, -, hT, -⟩ := ht.exists_node
    obtain ⟨t', ht', hsearch⟩ := h.tree p T hT
    rwa [ht.unique ht']

/-! ## Nodes that are reached -/

/-- A link from a node to another one. -/
def Link (H : TreeHeap κ π) (p q : ℕ) : Prop :=
  ∃ T, H.cell p = some T ∧ (T.left = some q ∨ T.right = some q)

open Relation (ReflTransGen)

/-- A link leads to a node. -/
theorem Inv.link (h : Inv K M) {p q : ℕ} (hpq : Link K p q) : ∃ T, K.cell q = some T := by
  obtain ⟨T, hT, hq⟩ := hpq
  obtain ⟨t, ht, -⟩ := h.tree p T hT
  obtain ⟨T', l, r, hT', -, hl, hr⟩ := ht.exists_node
  obtain rfl : T = T' := Option.some.inj (hT.symm.trans hT')
  rcases hq with hq | hq
  · rw [hq] at hl
    obtain ⟨T'', -, -, hT'', -⟩ := hl.exists_node
    exact ⟨T'', hT''⟩
  · rw [hq] at hr
    obtain ⟨T'', -, -, hT'', -⟩ := hr.exists_node
    exact ⟨T'', hT''⟩

/-- A number without a node is not referred to. -/
theorem Inv.unused (h : Inv K M) {p : ℕ} (hp : K.cell p = none) :
    holds M p = 0 ∧ links K p = 0 := by
  constructor
  · by_contra hne
    obtain ⟨⟨-, t⟩, he, rfl⟩ := exists_of_holds_pos (Nat.pos_of_ne_zero hne)
    obtain ⟨T, -, -, hT, -⟩ := (h.held _ he).exists_node
    rw [hp] at hT
    exact absurd hT (by simp)
  · by_contra hne
    obtain ⟨q, T, hT, hpos⟩ := Store.exists_of_total_pos (Nat.pos_of_ne_zero hne)
    obtain ⟨T', hT'⟩ := h.link ⟨T, hT, refs_pos.mp hpos⟩
    rw [hp] at hT'
    exact absurd hT' (by simp)

/-- **Every node is reached** from a pointer that is held. -/
theorem Inv.reached (h : Inv K M) {p : ℕ} (hp : K.cell p = some T) :
    ∃ e ∈ M, ∃ q, e.1 = some q ∧ ReflTransGen (Link K) q p := by
  obtain ⟨t, ht, -⟩ := h.tree p T hp
  obtain ⟨n, hn⟩ : ∃ n, K.size - t.height = n := ⟨_, rfl⟩
  -- the induction is on how much higher a tree could be
  induction n using Nat.strong_induction_on generalizing p T t with
  | _ n ih =>
    by_cases hheld : 0 < holds M p
    · obtain ⟨e, he, hep⟩ := exists_of_holds_pos hheld
      exact ⟨e, he, p, hep, ReflTransGen.refl⟩
    · have hpos := (h.counted p T hp).1
      rw [h.refcnt p T hp] at hpos
      obtain ⟨q, T', hq, hrefs⟩ := Store.exists_of_total_pos (by omega : 0 < links K p)
      have hlink := refs_pos.mp hrefs
      obtain ⟨t', ht', -⟩ := h.tree q T' hq
      obtain ⟨T'', l, r, hT'', rfl, hl, hr⟩ := ht'.exists_node
      obtain rfl : T' = T'' := Option.some.inj (hq.symm.trans hT'')
      have hhigher : t.height < (Treap.node l T'.x T'.y r).height := by
        rw [Treap.height_node]
        rcases hlink with hleft | hright
        · rw [hleft] at hl
          rw [ht.unique hl]
          omega
        · rw [hright] at hr
          rw [ht.unique hr]
          omega
      have hle := ht'.height_le
      have hless : K.size - (Treap.node l T'.x T'.y r).height < n := by omega
      obtain ⟨e, he, root, hroot, hpath⟩ := ih _ hless hq _ ht' rfl
      exact ⟨e, he, root, hroot, hpath.tail ⟨T', hq, hlink⟩⟩

/-- The key of a node is a key of the trees that it is in. -/
theorem Rep.key_mem {p q : ℕ} {t : Treap κ π} (h : Rep K (some p) t)
    (hpq : ReflTransGen (Link K) p q) (hq : K.cell q = some T) : T.x ∈ t.keys := by
  induction hpq using ReflTransGen.head_induction_on generalizing t with
  | refl =>
    obtain ⟨T', l, r, hT', rfl, -⟩ := h.exists_node
    obtain rfl : T = T' := Option.some.inj (hq.symm.trans hT')
    exact Treap.mem_keys_node.mpr (Or.inl rfl)
  | head hlink _ ih =>
    obtain ⟨T₁, hT₁, hside⟩ := hlink
    obtain ⟨T', l, r, hT', rfl, hl, hr⟩ := h.exists_node
    obtain rfl : T₁ = T' := Option.some.inj (hT₁.symm.trans hT')
    rcases hside with hside | hside
    · rw [hside] at hl
      exact Treap.mem_keys_node.mpr (Or.inr (Or.inl (ih hl)))
    · rw [hside] at hr
      exact Treap.mem_keys_node.mpr (Or.inr (Or.inr (ih hr)))

/-- A node is on one side of another. -/
theorem Inv.one_side (h : Inv K M) {p q c c' : ℕ} {T T' : TreeNode κ π} (hT : K.cell q = some T)
    (hp : K.cell p = some T') (hl : T.left = some c) (hc : ReflTransGen (Link K) c p)
    (hr : T.right = some c') (hc' : ReflTransGen (Link K) c' p) : False := by
  obtain ⟨t, ht, hsearch⟩ := h.tree q T hT
  obtain ⟨T'', l, r, hT'', rfl, hrl, hrr⟩ := ht.exists_node
  obtain rfl : T = T'' := Option.some.inj (hT.symm.trans hT'')
  obtain ⟨-, -, hbelow, habove⟩ := hsearch
  rw [hl] at hrl
  rw [hr] at hrr
  exact lt_asymm (hbelow _ (hrl.key_mem hc hp)) (habove _ (hrr.key_mem hc' hp))

/-- There is one way down to a node. -/
theorem Inv.one_way (h : Inv K M) {p q c c' : ℕ} (hp : K.cell p = some T)
    (hq : Link K q c) (hc : ReflTransGen (Link K) c p) (hq' : Link K q c')
    (hc' : ReflTransGen (Link K) c' p) : c = c' := by
  obtain ⟨T₁, hT₁, hside⟩ := hq
  obtain ⟨T₂, hT₂, hside'⟩ := hq'
  obtain rfl : T₁ = T₂ := Option.some.inj (hT₁.symm.trans hT₂)
  rcases hside with hl | hr <;> rcases hside' with hl' | hr'
  · exact Option.some.inj (hl.symm.trans hl')
  · exact (h.one_side hT₁ hp hl hc hr' hc').elim
  · exact (h.one_side hT₁ hp hl' hc' hr hc).elim
  · exact Option.some.inj (hr.symm.trans hr')

/-- A node is not below itself. -/
theorem Inv.no_cycle (h : Inv K M) {p q : ℕ} (hpq : Link K p q) :
    ¬ ReflTransGen (Link K) q p := by
  intro hqp
  obtain ⟨T, hT, hside⟩ := hpq
  obtain ⟨t, ht, hsearch⟩ := h.tree p T hT
  obtain ⟨T', l, r, hT', rfl, hl, hr⟩ := ht.exists_node
  obtain rfl : T = T' := Option.some.inj (hT.symm.trans hT')
  rcases hside with hside | hside
  · rw [hside] at hl
    exact hsearch.notMem.1 (hl.key_mem hqp hT)
  · rw [hside] at hr
    exact hsearch.notMem.2 (hr.key_mem hqp hT)

/-- **In a tree, one node links to another.** -/
theorem Inv.one_parent (h : Inv K M) {p q q' root : ℕ} (hq : ReflTransGen (Link K) root q)
    (hqp : Link K q p) (hq' : ReflTransGen (Link K) root q') (hqp' : Link K q' p) : q = q' := by
  obtain ⟨T, hp⟩ := h.link hqp
  induction hq using ReflTransGen.head_induction_on with
  | refl =>
    rcases hq'.cases_head with heq | ⟨c, hc, hcq⟩
    · exact heq
    · obtain rfl := h.one_way hp hqp ReflTransGen.refl hc (hcq.tail hqp')
      exact absurd hcq (h.no_cycle hqp')
  | head hc hcq ih =>
    rcases hq'.cases_head with rfl | ⟨c', hc', hcq'⟩
    · obtain rfl := h.one_way hp hqp' ReflTransGen.refl hc (hcq.tail hqp)
      exact absurd hcq (h.no_cycle hqp)
    · obtain rfl := h.one_way hp hc (hcq.tail hqp) hc' (hcq'.tail hqp')
      exact ih hcq'

/-! ## The counts fit -/

/-- Each link to `p` is from a node of its own. -/
theorem Inv.links_le (h : Inv K M) {p : ℕ} (hp : K.cell p = some T) :
    ∃ P : Finset ℕ, links K p ≤ P.card ∧ ∀ q ∈ P, Link K q p := by
  classical
  refine ⟨(Finset.range K.size).filter (fun q => Link K q p), ?_,
    fun q hq => (Finset.mem_filter.mp hq).2⟩
  rw [Finset.card_filter]
  unfold links Store.total
  apply Finset.sum_le_sum
  intro q _
  cases hq : K.cell q with
  | none => exact Nat.zero_le _
  | some T' =>
    rw [Option.elim_some]
    by_cases hlink : Link K q p
    · rw [if_pos hlink]
      unfold refs
      split_ifs with hl hr
      · exact (h.one_side hq hp hl ReflTransGen.refl hr ReflTransGen.refl).elim
      all_goals simp
    · have hnone : ¬ 0 < refs T' p := fun hpos => hlink ⟨T', hq, refs_pos.mp hpos⟩
      omega

/-- **A node has no more references** than trees with its key are held. -/
theorem Inv.count_le (h : Inv K M) {p : ℕ} (hp : K.cell p = some T) :
    holds M p + links K p ≤ M.countP (fun e => T.x ∈ e.2.keys) := by
  classical
  obtain ⟨P, hlinks, hP⟩ := h.links_le hp
  have hroots : ∀ q ∈ P, ∃ e ∈ M, ∃ r, e.1 = some r ∧ ReflTransGen (Link K) r q := by
    intro q hq
    obtain ⟨T', hT', -⟩ := hP q hq
    exact h.reached hT'
  have : Nonempty (Treap κ π) := ⟨.leaf⟩
  choose! f hf hroot using hroots
  -- the trees that the links are in are different ones, and `p` is not their root
  have hle : P.val.map f ≤ M.filter (fun e => ¬ e.1 = some p ∧ T.x ∈ e.2.keys) := by
    rw [Multiset.le_iff_subset]
    · intro e he
      obtain ⟨q, hq, rfl⟩ := Multiset.mem_map.mp he
      obtain ⟨r, hr, hrq⟩ := hroot q hq
      have hrep := h.held _ (hf q hq)
      rw [hr] at hrep
      refine Multiset.mem_filter.mpr ⟨hf q hq, ?_, hrep.key_mem (hrq.tail (hP q hq)) hp⟩
      intro hself
      obtain rfl := Option.some.inj (hr.symm.trans hself)
      exact h.no_cycle (hP q hq) hrq
    · refine Multiset.Nodup.map_on ?_ P.nodup
      intro q hq q' hq' heq
      obtain ⟨r, hr, hrq⟩ := hroot q hq
      obtain ⟨r', hr', hrq'⟩ := hroot q' hq'
      rw [heq] at hr
      obtain rfl := Option.some.inj (hr.symm.trans hr')
      exact h.one_parent hrq (hP q hq) hrq' (hP q' hq')
  have hcard := Multiset.card_le_card hle
  rw [Multiset.card_map, ← Multiset.countP_eq_card_filter] at hcard
  have hself : M.countP (fun e => e.1 = some p ∧ T.x ∈ e.2.keys) = holds M p := by
    apply Multiset.countP_congr rfl
    intro e he
    refine propext ⟨And.left, fun hep => ⟨hep, ?_⟩⟩
    have hrep := h.held e he
    rw [hep] at hrep
    exact hrep.key_mem ReflTransGen.refl hp
  have hsum : M.countP (fun e => T.x ∈ e.2.keys)
      = M.countP (fun e => e.1 = some p ∧ T.x ∈ e.2.keys)
        + M.countP (fun e => ¬ e.1 = some p ∧ T.x ∈ e.2.keys) := by
    rw [Multiset.countP_eq_countP_filter_add M _ (fun e => e.1 = some p), Multiset.countP_filter,
      Multiset.countP_filter]
    simp only [and_comm]
  rw [hsum, hself]
  have hPcard : P.val.card = P.card := rfl
  omega

/-- There is room for `n` references more to any node. -/
def Room (n : ℕ) (M : Held κ π) : Prop := ∀ x, M.countP (fun e => x ∈ e.2.keys) + n < 2 ^ 31

theorem Room.cons {n : ℕ} (h : Room (n + 1) M) (e : Option ℕ × Treap κ π) :
    Room n (e ::ₘ M) := by
  intro x
  have hx := h x
  rw [Multiset.countP_cons]
  split_ifs <;> omega

theorem Room.move {n : ℕ} (h : Room n ((p, t) ::ₘ M))
    (q : Option ℕ) : Room n ((q, t) ::ₘ M) := by
  intro x
  have hx := h x
  rwa [Multiset.countP_cons] at hx ⊢

/-- The subtrees need no more room than the tree. -/
theorem Room.kids {n : ℕ} {p a b : Option ℕ} {l r : Treap κ π} {x : κ} {y : π}
    (h : Room n ((p, .node l x y r) ::ₘ M)) (hs : (Treap.node l x y r).IsSearch) :
    Room n ((a, l) ::ₘ (b, r) ::ₘ M) := by
  intro z
  have hz := h z
  rw [Multiset.countP_cons] at hz
  rw [Multiset.countP_cons, Multiset.countP_cons]
  have hor : z ∈ (Treap.node l x y r).keys ↔ z = x ∨ z ∈ l.keys ∨ z ∈ r.keys :=
    Treap.mem_keys_node
  have hone : z ∈ l.keys → z ∉ r.keys := fun hl hr => lt_asymm (hs.2.2.1 z hl) (hs.2.2.2 z hr)
  by_cases hl : z ∈ l.keys
  · rw [if_pos (hor.mpr (Or.inr (Or.inl hl)))] at hz
    rw [if_pos hl, if_neg (hone hl)]
    omega
  · rw [if_neg hl]
    by_cases hr : z ∈ r.keys
    · rw [if_pos (hor.mpr (Or.inr (Or.inr hr)))] at hz
      rw [if_pos hr]
      omega
    · rw [if_neg hr]
      omega

/-! ## Changes -/

/-- The count of a node changes. -/
theorem Inv.put_refcnt {M' : Held κ π} (h : Inv K M) {p : ℕ} {n : ℤ} (hp : K.cell p = some T)
    (hn : 0 < n ∧ n < 2 ^ 31) (hcount : n = (holds M' p + links K p : ℕ))
    (hM : ∀ q ≠ p, holds M' q = holds M q)
    (hheld : ∀ e ∈ M', Rep K e.1 e.2) :
    Inv (K.put p (some { T with refcnt := n })) M' ∧
      Extends K (K.put p (some { T with refcnt := n })) := by
  have hcell (q : ℕ) : (K.put p (some { T with refcnt := n })).cell q
      = if q = p then some { T with refcnt := n } else K.cell q := Store.cell_put hp _ q
  have hlinks (q : ℕ) : links (K.put p (some { T with refcnt := n })) q = links K q := by
    have htotal := Store.total_put (w := fun T => refs T q) hp (some { T with refcnt := n })
    have hsame : refs { T with refcnt := n } q = refs T q := rfl
    rw [Option.elim_some, hsame] at htotal
    exact Nat.add_right_cancel htotal
  have hextends : Extends K (K.put p (some { T with refcnt := n })) := by
    apply extends_of_cells
    intro q T' hq
    rw [hcell]
    by_cases hqp : q = p
    · rw [hqp, hp] at hq
      rw [if_pos hqp, ← Option.some.inj hq]
      exact ⟨n, rfl⟩
    · rw [if_neg hqp, hq]
      exact ⟨T'.refcnt, rfl⟩
  refine ⟨⟨?_, ?_, fun e he => hextends _ _ (hheld e he), ?_⟩, hextends⟩
  · intro q T' hq
    rw [hlinks]
    rw [hcell] at hq
    by_cases hqp : q = p
    · rw [if_pos hqp] at hq
      rw [← Option.some.inj hq, hqp]
      exact hcount
    · rw [if_neg hqp] at hq
      rw [hM q hqp]
      exact h.refcnt q T' hq
  · intro q T' hq
    rw [hcell] at hq
    by_cases hqp : q = p
    · rw [if_pos hqp] at hq
      rw [← Option.some.inj hq]
      exact hn
    · rw [if_neg hqp] at hq
      exact h.counted q T' hq
  · intro q T' hq
    -- each node of the new memory was one of the old
    obtain ⟨T₀, hT₀⟩ : ∃ T₀, K.cell q = some T₀ := by
      rw [hcell] at hq
      by_cases hqp : q = p
      · exact ⟨T, by rw [hqp, hp]⟩
      · rw [if_neg hqp] at hq
        exact ⟨T', hq⟩
    obtain ⟨t, ht, hsearch⟩ := h.tree q T₀ hT₀
    exact ⟨t, hextends _ _ ht, hsearch⟩

/-- **A node that nobody else refers to** goes, and its links are pointers that are held. -/
theorem Inv.remove {p : ℕ} {t l r : Treap κ π}
    (h : Inv K ((some p, t) ::ₘ M)) (hp : K.cell p = some T) (hone : T.refcnt = 1)
    (hl : Rep K T.left l) (hr : Rep K T.right r) :
    Inv (K.put p none) ((T.left, l) ::ₘ (T.right, r) ::ₘ M) := by
  have hcount := h.refcnt p T hp
  rw [hone, holds_cons_self] at hcount
  have hlinks : links K p = 0 := by omega
  have hcell (q : ℕ) : (K.put p none).cell q = if q = p then none else K.cell q :=
    Store.cell_put hp none q
  have hold {q : ℕ} {T' : TreeNode κ π} (hq : (K.put p none).cell q = some T') :
      q ≠ p ∧ K.cell q = some T' := by
    rw [hcell] at hq
    by_cases hqp : q = p
    · rw [if_pos hqp] at hq
      exact absurd hq (by simp)
    · rw [if_neg hqp] at hq
      exact ⟨hqp, hq⟩
  have htrees : ∀ q t, q ≠ some p → Rep K q t → Rep (K.put p none) q t := by
    intro q t hq ht
    refine Rep.transfer (fun q => q ≠ p) ?_ ?_ ht
    · intro q T' hqp hT'
      obtain ⟨hleft, hright⟩ := links_eq_zero hlinks hT'
      refine ⟨⟨T'.refcnt, by rw [hcell, if_neg hqp, hT']⟩, ?_, ?_⟩
      · rintro q' hq' rfl
        exact hleft hq'
      · rintro q' hq' rfl
        exact hright hq'
    · rintro q' hq' rfl
      exact hq hq'
  obtain ⟨hleft, hright⟩ := links_eq_zero hlinks hp
  refine ⟨?_, ?_, ?_, ?_⟩
  · intro q T' hq
    obtain ⟨hqp, hT'⟩ := hold hq
    have hold' := h.refcnt q T' hT'
    have htotal : links (K.put p none) q + refs T q = links K q :=
      Store.total_put (w := fun T => refs T q) hp none
    rw [holds_cons_ne hqp] at hold'
    rw [holds_kids]
    omega
  · intro q T' hq
    exact h.counted q T' (hold hq).2
  · intro e he
    rw [Multiset.mem_cons, Multiset.mem_cons] at he
    rcases he with rfl | rfl | he
    · exact htrees _ _ hleft hl
    · exact htrees _ _ hright hr
    · refine htrees _ _ ?_ (h.held e (Multiset.mem_cons_of_mem he))
      intro hep
      have hpos : 0 < holds M p := Multiset.countP_pos.mpr ⟨e, he, hep⟩
      omega
  · intro q T' hq
    obtain ⟨hqp, hT'⟩ := hold hq
    obtain ⟨t, ht, hsearch⟩ := h.tree q T' hT'
    exact ⟨t, htrees _ _ (fun he => hqp (Option.some.inj he)) ht, hsearch⟩

/-- **A node is added** whose links are pointers that were held. -/
theorem Inv.add {a b : Option ℕ} {l r : Treap κ π} {x : κ} {y : π}
    (h : Inv K ((a, l) ::ₘ (b, r) ::ₘ M)) (hs : (Treap.node l x y r).IsSearch) {q : ℕ}
    (hq : K.cell q = none) (hlt : q < K.size) :
    Inv (K.put q (some ⟨a, b, x, y, 1⟩)) ((some q, .node l x y r) ::ₘ M) := by
  obtain ⟨hheld, hlinks⟩ := h.unused hq
  have hcell (p : ℕ) : (K.put q (some ⟨a, b, x, y, 1⟩)).cell p
      = if p = q then some ⟨a, b, x, y, 1⟩ else K.cell p := Store.cell_put_of_lt hlt _ p
  have htotal (p : ℕ) : links (K.put q (some ⟨a, b, x, y, 1⟩)) p
      = links K p + refs (⟨a, b, x, y, 1⟩ : TreeNode κ π) p := Store.total_fill hq hlt
  have hkids (p : ℕ) : holds ((a, l) ::ₘ (b, r) ::ₘ M) p
      = refs (⟨a, b, x, y, 1⟩ : TreeNode κ π) p + holds M p := holds_kids ⟨a, b, x, y, 1⟩ l r p
  have hextends : Extends K (K.put q (some ⟨a, b, x, y, 1⟩)) := by
    apply extends_of_cells
    intro p T hp
    have hpq : p ≠ q := by
      rintro rfl
      rw [hq] at hp
      exact absurd hp (by simp)
    exact ⟨T.refcnt, by rw [hcell, if_neg hpq, hp]⟩
  have hrep : Rep (K.put q (some ⟨a, b, x, y, 1⟩)) (some q) (.node l x y r) :=
    rep_some (T := ⟨a, b, x, y, 1⟩) (by rw [hcell, if_pos rfl])
      (hextends _ _ h.head) (hextends _ _ h.second)
  refine ⟨?_, ?_, ?_, ?_⟩
  · intro p T hp
    rw [hcell] at hp
    rw [htotal]
    have hnone := hkids p
    by_cases hpq : p = q
    · rw [if_pos hpq] at hp
      rw [← Option.some.inj hp, hpq, holds_cons_self]
      rw [hpq, hheld] at hnone
      push_cast
      omega
    · rw [if_neg hpq] at hp
      have hcount := h.refcnt p T hp
      rw [holds_cons_ne hpq]
      omega
  · intro p T hp
    rw [hcell] at hp
    by_cases hpq : p = q
    · rw [if_pos hpq] at hp
      rw [← Option.some.inj hp]
      exact ⟨Int.one_pos, by norm_num⟩
    · rw [if_neg hpq] at hp
      exact h.counted p T hp
  · intro e he
    rcases Multiset.mem_cons.mp he with rfl | he
    · exact hrep
    · exact hextends _ _ (h.held e (Multiset.mem_cons_of_mem (Multiset.mem_cons_of_mem he)))
  · intro p T hp
    rw [hcell] at hp
    by_cases hpq : p = q
    · rw [hpq]
      exact ⟨_, hrep, hs⟩
    · rw [if_neg hpq] at hp
      obtain ⟨t, ht, hsearch⟩ := h.tree p T hp
      exact ⟨t, hextends _ _ ht, hsearch⟩

end TreeHeap

end MtprotoProxy
