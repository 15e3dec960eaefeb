/-
# Runs on trees that share their nodes

`TreeSpec` is what the operations are for: a treap, and the treaps that it was when snapshots were
taken.  Whatever a thread does, the tree in the memory is that treap, the snapshots are those treaps,
the counts are exact, and every node is reached from a pointer that is held, as long as few enough
snapshots are held for the counts to fit an `int`.
-/
import MtprotoProxy.Runs
import MtprotoProxy.VvTreeOps

namespace MtprotoProxy

open CLib
open Store (Parts)

variable {κ π : Type}

/-! ## What the operations are for -/

/-- A treap, and the treaps that are kept. -/
structure TreeSpec (κ π : Type) where
  tree : Treap κ π
  held : List (Treap κ π)

/-- A new key is inserted, a key that is there is deleted, and a snapshot that is held is freed. -/
def TreeSpec.step [LinearOrder κ] [LinearOrder π] (A : TreeSpec κ π) :
    TreeOp κ π → Option (TreeSpec κ π)
  | .insert x y => if x ∉ A.tree.keys then some { A with tree := A.tree.insert x y } else none
  | .delete x => if x ∈ A.tree.keys then some { A with tree := A.tree.delete x } else none
  | .snapshot => some { A with held := A.held ++ [A.tree] }
  | .free i => if i < A.held.length then some { A with held := A.held.eraseIdx i } else none

/-- The references to a node that there may be during an operation, beside the snapshots. -/
def TreeOp.needs : TreeOp κ π → ℕ
  | .insert _ _ => 3
  | .delete _ => 3
  | .snapshot => 2
  | .free _ => 1

/-- The references to a node fit an `int`. -/
def TreeSpec.Fits (A : TreeSpec κ π) (op : TreeOp κ π) : Prop :=
  A.held.length + op.needs < 2 ^ 31

instance (A : TreeSpec κ π) (op : TreeOp κ π) : Decidable (A.Fits op) :=
  inferInstanceAs (Decidable (_ < _))

/-- The keys that were inserted and not deleted. -/
def liveKeys [DecidableEq κ] (ops : List (TreeOp κ π)) : Finset κ :=
  ops.foldl
    (fun s op =>
      match op with
      | .insert x _ => insert x s
      | .delete x => s.erase x
      | .snapshot => s
      | .free _ => s)
    ∅

namespace TreeHeap

variable {H K : TreeHeap κ π}

/-! ## Lookups -/

section Lookup

variable [LinearOrder κ]

/-- There is a node with the key `x` at the pointer. -/
def HasKey (H : TreeHeap κ π) (p : Option ℕ) (x : κ) : Prop :=
  ∃ q T, p = some q ∧ H.cell q = some T ∧ T.x = x

/-- **`tree_lookup`** -/
theorem treeLookupRec_spec {n : ℕ} {p : Option ℕ} {t : Treap κ π} (hp : Rep H p t)
    (ht : t.IsSearch) (hn : t.height ≤ n) (x : κ) :
    ∃ q, treeLookupRec n H p x = some q ∧ (x ∈ t.keys → HasKey H q x) ∧
      (x ∉ t.keys → q = none) := by
  induction t generalizing n p with
  | leaf =>
    obtain rfl : p = none := hp
    refine ⟨none, ?_, fun hx => absurd hx (Finset.notMem_empty x), fun _ => rfl⟩
    cases n <;> rfl
  | node l x' y r ihl ihr =>
    rw [Treap.height_node] at hn
    obtain ⟨n, rfl⟩ : ∃ m, n = m + 1 := ⟨n - 1, by omega⟩
    obtain ⟨p, T, rfl, hT, rfl, rfl, hl, hr⟩ := hp
    obtain ⟨hsl, hsr, hbelow, habove⟩ := ht
    rw [treeLookupRec]
    simp only [hT, some_bind, Option.pure_def, Treap.mem_keys_node]
    by_cases heq : x = T.x
    · rw [if_pos heq]
      exact ⟨some p, rfl, fun _ => ⟨p, T, rfl, hT, heq.symm⟩, fun hnot => absurd (Or.inl heq) hnot⟩
    · rw [if_neg heq]
      by_cases hlt : x < T.x
      · rw [if_pos hlt]
        obtain ⟨q, hrun, hin, hout⟩ := ihl hl hsl (by omega : l.height ≤ n)
        refine ⟨q, hrun, ?_, fun hnot => hout (fun hx => hnot (Or.inr (Or.inl hx)))⟩
        rintro (hx | hx | hx)
        · exact absurd hx heq
        · exact hin hx
        · exact absurd (habove x hx) (not_lt.mpr hlt.le)
      · rw [if_neg hlt]
        obtain ⟨q, hrun, hin, hout⟩ := ihr hr hsr (by omega : r.height ≤ n)
        refine ⟨q, hrun, ?_, fun hnot => hout (fun hx => hnot (Or.inr (Or.inr hx)))⟩
        rintro (hx | hx | hx)
        · exact absurd hx heq
        · exact absurd (hbelow x hx) hlt
        · exact hin hx

/-- **`tree_lookup_next`** finds the least key that is not below `x`, and else is left with `B`. -/
theorem treeLookupNextRec_spec {n : ℕ} {p B : Option ℕ} {t : Treap κ π} (hp : Rep H p t)
    (ht : t.IsSearch) (hn : t.height ≤ n) (x : κ) :
    ∃ q, treeLookupNextRec n H p B x = some q ∧
      ((∃ z, IsLeast {z | z ∈ t.keys ∧ x ≤ z} z ∧ HasKey H q z) ∨
        ((∀ z ∈ t.keys, z < x) ∧ q = B)) := by
  induction t generalizing n p B with
  | leaf =>
    obtain rfl : p = none := hp
    refine ⟨B, ?_, Or.inr ⟨fun z hz => absurd hz (Finset.notMem_empty z), rfl⟩⟩
    cases n <;> rfl
  | node l x' y r ihl ihr =>
    rw [Treap.height_node] at hn
    obtain ⟨n, rfl⟩ : ∃ m, n = m + 1 := ⟨n - 1, by omega⟩
    obtain ⟨p, T, rfl, hT, rfl, rfl, hl, hr⟩ := hp
    obtain ⟨hsl, hsr, hbelow, habove⟩ := ht
    rw [treeLookupNextRec]
    simp only [hT, some_bind, Option.pure_def, Treap.mem_keys_node]
    by_cases heq : x = T.x
    · rw [if_pos heq]
      exact ⟨some p, rfl, Or.inl ⟨x, ⟨⟨Or.inl heq, le_rfl⟩, fun z hz => hz.2⟩, p, T, rfl, hT,
        heq.symm⟩⟩
    · rw [if_neg heq]
      by_cases hlt : x < T.x
      · rw [if_pos hlt]
        obtain ⟨q, hrun, hnext⟩ := ihl (B := some p) hl hsl (by omega : l.height ≤ n)
        refine ⟨q, hrun, Or.inl ?_⟩
        rcases hnext with ⟨z, ⟨⟨hz, hxz⟩, hleast⟩, hkey⟩ | ⟨hall, rfl⟩
        · refine ⟨z, ⟨⟨Or.inr (Or.inl hz), hxz⟩, ?_⟩, hkey⟩
          rintro z' ⟨rfl | hz' | hz', hxz'⟩
          · exact (hbelow z hz).le
          · exact hleast ⟨hz', hxz'⟩
          · exact ((hbelow z hz).trans (habove z' hz')).le
        · refine ⟨T.x, ⟨⟨Or.inl rfl, hlt.le⟩, ?_⟩, p, T, rfl, hT, rfl⟩
          rintro z' ⟨rfl | hz' | hz', hxz'⟩
          · exact le_rfl
          · exact absurd (hall z' hz') (not_lt.mpr hxz')
          · exact (habove z' hz').le
      · have hgt : T.x < x := lt_of_le_of_ne (not_lt.mp hlt) (Ne.symm heq)
        rw [if_neg hlt]
        obtain ⟨q, hrun, hnext⟩ := ihr (B := B) hr hsr (by omega : r.height ≤ n)
        refine ⟨q, hrun, ?_⟩
        rcases hnext with ⟨z, ⟨⟨hz, hxz⟩, hleast⟩, hkey⟩ | ⟨hall, rfl⟩
        · refine Or.inl ⟨z, ⟨⟨Or.inr (Or.inr hz), hxz⟩, ?_⟩, hkey⟩
          rintro z' ⟨rfl | hz' | hz', hxz'⟩
          · exact absurd hgt (not_lt.mpr hxz')
          · exact absurd ((hbelow z' hz').trans hgt) (not_lt.mpr hxz')
          · exact hleast ⟨hz', hxz'⟩
        · refine Or.inr ⟨?_, rfl⟩
          rintro z (rfl | hz | hz)
          · exact hgt
          · exact (hbelow z hz).trans hgt
          · exact hall z hz

end Lookup

end TreeHeap

/-! ## The refinement -/

open TreeHeap

/-- With one thread nobody looks at what is freed. -/
theorem TreeState.freeTreePtr_eq {S : TreeState κ π} (hS : S.hazard = none) {p : Option ℕ}
    {H : TreeHeap κ π} (hrun : S.heap.treeFree p = some H) :
    S.freeTreePtr p = some { S with heap := H } := by
  cases p with
  | none =>
    have hsame : S.heap.treeFree none = some S.heap := by
      unfold TreeHeap.treeFree
      cases S.heap.size <;> rfl
    obtain rfl : S.heap = H := Option.some.inj (hsame.symm.trans hrun)
    rfl
  | some p =>
    unfold freeTreePtr
    dsimp only
    rw [hS, if_neg (by simp), hrun]
    rfl

section Refinement

variable [LinearOrder κ] {S : TreeState κ π} {A : TreeSpec κ π}

/-- **The state of a thread is the treap that it should be**, and its memory is in order. -/
structure TreeState.Refines (S : TreeState κ π) (A : TreeSpec κ π) : Prop where
  inv : Inv S.heap ((S.root, A.tree) ::ₘ (S.held.zip A.held : Held κ π))
  length : S.held.length = A.held.length
  hazard : S.hazard = none
  freeLater : S.freeLater = []

/-- The snapshots are what they were. -/
theorem TreeState.Refines.held (h : S.Refines A) :
    List.Forall₂ (Rep S.heap) S.held A.held := by
  rw [List.forall₂_iff_zip]
  refine ⟨h.length, fun hmem => h.inv.held (_, _) ?_⟩
  exact Multiset.mem_cons_of_mem (Multiset.mem_coe.mpr hmem)

theorem TreeState.Refines.holds_eq (h : S.Refines A) (p : ℕ) :
    holds ((S.root, A.tree) ::ₘ (S.held.zip A.held : Held κ π)) p
      = (S.root :: S.held).count (some p) := by
  have hfst : (S.held.zip A.held).map Prod.fst = S.held := List.map_fst_zip h.length.le
  rw [holds_cons, List.count_cons, ← hfst]
  unfold holds
  rw [Multiset.coe_countP, List.count, List.countP_map, hfst]
  simp [Function.comp_def, beq_eq_decide]

theorem room_of_card {n : ℕ} {M : Held κ π} (h : M.card + n < 2 ^ 31) : Room n M := by
  intro x
  have hle := Multiset.countP_le_card (fun e : Option ℕ × Treap κ π => x ∈ e.2.keys) M
  omega

/-- The tree and the snapshots, and the tree once more. -/
theorem TreeState.Refines.room {n : ℕ} (h : S.Refines A) (hn : A.held.length + 2 + n < 2 ^ 31) :
    Room n ((S.root, A.tree) ::ₘ (S.root, A.tree) ::ₘ (S.held.zip A.held : Held κ π)) := by
  apply room_of_card
  rw [Multiset.card_cons, Multiset.card_cons, Multiset.coe_card, List.length_zip, h.length,
    min_self]
  exact hn

/-- **An operation on the current tree** that does to it what `t` says. -/
theorem TreeState.Refines.treeSub (h : S.Refines A) (hfits : A.held.length + 3 < 2 ^ 31)
    {t : Treap κ π} {f : TreeHeap κ π → Option ℕ → Option (TreeHeap κ π × Option ℕ)}
    (hf : ∀ H K M, Parts K (fun _ => none) H → Inv K ((S.root, A.tree) ::ₘ M) →
      Room 1 ((S.root, A.tree) ::ₘ M) →
      ∃ H' K' q, f H S.root = some (H', q) ∧ Parts K' (fun _ => none) H' ∧
        Inv K' ((q, t) ::ₘ M)) :
    ∃ S', S.treeSub f = some S' ∧ S'.Refines { A with tree := t } := by
  obtain ⟨H₁, K₁, hrun₁, hj₁, hinv₁, -⟩ :=
    increfPtr_spec (Store.Parts.refl S.heap) h.inv h.inv.head (h.room (by omega))
  obtain ⟨H₂, K₂, q, hrun₂, hj₂, hinv₂⟩ := hf _ _ _ hj₁ hinv₁ (h.room (by omega))
  rw [Multiset.cons_swap] at hinv₂
  obtain ⟨H₃, K₃, hrun₃, hj₃, hinv₃⟩ := treeFree_spec hj₂ hinv₂
  obtain rfl := hj₃.eq
  refine ⟨{ S with heap := H₃, root := q }, ?_, ⟨hinv₃, h.length, h.hazard, h.freeLater⟩⟩
  unfold TreeState.treeSub
  simp only [hrun₁, hrun₂, some_bind]
  exact freeTreePtr_eq (S := { S with heap := H₂, root := q }) h.hazard hrun₃

theorem TreeState.Refines.snapshot (h : S.Refines A) (hfits : A.held.length + 2 < 2 ^ 31) :
    ∃ S' R, S.getTreePtr = some (S', R) ∧
      ({ S' with held := S'.held ++ [R] } : TreeState κ π).Refines
        { A with held := A.held ++ [A.tree] } := by
  obtain ⟨H, K, hrun, hj, hinv, -⟩ :=
    increfPtr_spec (Store.Parts.refl S.heap) h.inv h.inv.head (h.room hfits)
  obtain rfl := hj.eq
  have hincref : S.heap.increfTreePtr S.root = some H := by
    rw [← hrun]
    cases hroot : S.root with
    | none => rfl
    | some p =>
      have hrep := h.inv.head
      rw [hroot] at hrep
      obtain ⟨T, -, -, hT, -⟩ := hrep.exists_node
      unfold increfTreePtr increfPtr
      have hpos := (h.inv.counted p T hT).1
      simp only [hT, some_bind, Option.pure_def, guard, gt_iff_lt, hpos, ↓reduceIte]
  refine ⟨{ S with heap := H, hazard := none }, S.root, ?_, ?_⟩
  · unfold getTreePtr
    rw [guard, if_pos h.hazard]
    simp only [hincref, some_bind, Option.pure_def]
  · refine ⟨?_, ?_, rfl, h.freeLater⟩
    · have hheld : (((S.held ++ [S.root]).zip (A.held ++ [A.tree]) : List _) : Held κ π)
          = (S.root, A.tree) ::ₘ (S.held.zip A.held : Held κ π) := by
        rw [List.zip_append h.length, ← Multiset.coe_add, add_comm]
        rfl
      show Inv H ((S.root, A.tree) ::ₘ
        (((S.held ++ [S.root]).zip (A.held ++ [A.tree]) : List _) : Held κ π))
      rwa [hheld]
    · rw [List.length_append, List.length_append, h.length]
      rfl

theorem TreeState.Refines.free (h : S.Refines A) {i : ℕ} (hi : i < A.held.length) :
    ∃ R S', S.held[i]? = some R ∧
      freeTreePtr { S with held := S.held.eraseIdx i } R = some S' ∧
      S'.Refines { A with held := A.held.eraseIdx i } := by
  have hlen : i < S.held.length := by rwa [h.length]
  have hzip : i < (S.held.zip A.held).length := by
    rw [List.length_zip]
    omega
  have herase : (S.held.zip A.held).eraseIdx i
      = (S.held.eraseIdx i).zip (A.held.eraseIdx i) := by
    rw [List.eraseIdx_eq_take_drop_succ, List.eraseIdx_eq_take_drop_succ,
      List.eraseIdx_eq_take_drop_succ, List.zip_append (by simp [h.length])]
    simp only [List.zip, List.take_zipWith, List.drop_zipWith]
  have hheld : (S.held.zip A.held : Held κ π)
      = (S.held[i], A.held[i]) ::ₘ ((S.held.eraseIdx i).zip (A.held.eraseIdx i) : Held κ π) := by
    rw [← herase, ← List.getElem_zip (h := hzip), Multiset.cons_coe, Multiset.coe_eq_coe]
    exact (List.getElem_cons_eraseIdx_perm hzip).symm
  have hinv := h.inv
  rw [hheld, Multiset.cons_swap] at hinv
  obtain ⟨H, K, hrun, hj, hinv'⟩ := treeFree_spec (Store.Parts.refl S.heap) hinv
  obtain rfl := hj.eq
  refine ⟨S.held[i], { S with heap := H, held := S.held.eraseIdx i }, ?_, ?_, ?_⟩
  · exact List.getElem?_eq_getElem hlen
  · exact freeTreePtr_eq (S := { S with held := S.held.eraseIdx i }) h.hazard hrun
  · refine ⟨hinv', ?_, h.hazard, h.freeLater⟩
    rw [List.length_eraseIdx_of_lt hlen, List.length_eraseIdx_of_lt hi, h.length]

variable [LinearOrder π]

/-- **Every step** of the specification that fits is a step of the thread. -/
theorem TreeState.Refines.step {op : TreeOp κ π} {A' : TreeSpec κ π}
    (h : S.Refines A) (hfits : A.Fits op) (hop : A.step op = some A') :
    ∃ S', S.step op = some S' ∧ S'.Refines A' := by
  cases op with
  | insert x y =>
    obtain ⟨hx, rfl⟩ : x ∉ A.tree.keys ∧ { A with tree := A.tree.insert x y } = A' := by
      simpa [TreeSpec.step] using hop
    show ∃ S', S.treeInsertSub x y = some S' ∧ _
    apply h.treeSub hfits
    intro H K M hj hinv hroom
    have hheight : A.tree.height ≤ H.size := by
      rw [hj.size_eq]
      exact hinv.head.height_le
    obtain ⟨H', K', q, hrun, hj', hinv'⟩ :=
      treeInsertRec_spec (y := y) hj hinv hroom hx hheight
    refine ⟨H', K', some q, ?_, hj', hinv'⟩
    unfold treeInsert
    simp only [hrun, some_bind, Option.pure_def]
  | delete x =>
    obtain ⟨hx, rfl⟩ : x ∈ A.tree.keys ∧ { A with tree := A.tree.delete x } = A' := by
      simpa [TreeSpec.step] using hop
    show ∃ S', S.treeDeleteSub x = some S' ∧ _
    apply h.treeSub hfits
    intro H K M hj hinv hroom
    have hheight : A.tree.height ≤ H.size := by
      rw [hj.size_eq]
      exact hinv.head.height_le
    exact treeDeleteRec_spec hj hinv hroom hx hheight
  | snapshot =>
    obtain rfl : { A with held := A.held ++ [A.tree] } = A' := by
      simpa [TreeSpec.step] using hop
    obtain ⟨S', R, hrun, hrefines⟩ := h.snapshot hfits
    refine ⟨_, ?_, hrefines⟩
    unfold TreeState.step
    simp only [hrun, some_bind, Option.pure_def]
  | free i =>
    obtain ⟨hi, rfl⟩ : i < A.held.length ∧ { A with held := A.held.eraseIdx i } = A' := by
      simpa [TreeSpec.step] using hop
    obtain ⟨R, S', hR, hrun, hrefines⟩ := h.free hi
    refine ⟨S', ?_, hrefines⟩
    unfold TreeState.step
    simp only [hR, hrun, some_bind]

end Refinement

/-! ## The specification -/

section Spec

variable [LinearOrder κ] [LinearOrder π]

/-- The treaps of the specification are treaps, and the keys are those that are live. -/
structure TreeSpec.Sound (A : TreeSpec κ π) (live : Finset κ) : Prop where
  search : A.tree.IsSearch
  heap : A.tree.IsHeap
  keys : A.tree.keys = live
  held : ∀ t ∈ A.held, t.IsSearch ∧ t.IsHeap

omit [LinearOrder π] in
theorem liveKeys_concat (ops : List (TreeOp κ π)) (op : TreeOp κ π) :
    liveKeys (ops ++ [op]) =
      match op with
      | .insert x _ => insert x (liveKeys ops)
      | .delete x => (liveKeys ops).erase x
      | .snapshot => liveKeys ops
      | .free _ => liveKeys ops := by
  unfold liveKeys
  rw [List.foldl_concat]

theorem TreeSpec.Sound.step {A A' : TreeSpec κ π} {ops : List (TreeOp κ π)} {op : TreeOp κ π}
    (h : A.Sound (liveKeys ops)) (hop : A.step op = some A') :
    A'.Sound (liveKeys (ops ++ [op])) := by
  rw [liveKeys_concat]
  cases op with
  | insert x y =>
    obtain ⟨hx, rfl⟩ : x ∉ A.tree.keys ∧ { A with tree := A.tree.insert x y } = A' := by
      simpa [TreeSpec.step] using hop
    refine ⟨h.search.insert hx y, h.heap.insert x y, ?_, h.held⟩
    ext z
    rw [Treap.mem_keys_insert, h.keys, Finset.mem_insert]
  | delete x =>
    obtain ⟨-, rfl⟩ : x ∈ A.tree.keys ∧ { A with tree := A.tree.delete x } = A' := by
      simpa [TreeSpec.step] using hop
    refine ⟨h.search.delete x, h.heap.delete x, ?_, h.held⟩
    ext z
    rw [h.search.mem_keys_delete, h.keys, Finset.mem_erase, and_comm]
  | snapshot =>
    obtain rfl : { A with held := A.held ++ [A.tree] } = A' := by
      simpa [TreeSpec.step] using hop
    refine ⟨h.search, h.heap, h.keys, ?_⟩
    intro t ht
    rcases List.mem_append.mp ht with ht | ht
    · exact h.held t ht
    · rw [List.mem_singleton.mp ht]
      exact ⟨h.search, h.heap⟩
  | free i =>
    obtain ⟨-, rfl⟩ : i < A.held.length ∧ { A with held := A.held.eraseIdx i } = A' := by
      simpa [TreeSpec.step] using hop
    exact ⟨h.search, h.heap, h.keys, fun t ht => h.held t (List.mem_of_mem_eraseIdx ht)⟩

/-- **Every run of the specification** that fits is one of the thread. -/
theorem refines_run {ops : List (TreeOp κ π)} {A : TreeSpec κ π}
    (h : Runs.run TreeSpec.step ⟨.leaf, []⟩ ops = some A)
    (hfits : Runs.Along TreeSpec.step TreeSpec.Fits ⟨.leaf, []⟩ ops) :
    A.Sound (liveKeys ops) ∧
      ∃ S, Runs.run TreeState.step .empty ops = some S ∧ S.Refines A := by
  induction ops using List.reverseRecOn generalizing A with
  | nil =>
    obtain rfl := Option.some.inj h
    refine ⟨⟨trivial, trivial, rfl, fun t ht => absurd ht List.not_mem_nil⟩, .empty, rfl, ?_⟩
    exact ⟨Inv.empty.cons_none, rfl, rfl, rfl⟩
  | append_singleton ops op ih =>
    obtain ⟨A₁, hops, hlast⟩ := Runs.run_append.mp h
    obtain ⟨A₂, hop, hnil⟩ := Runs.run_cons.mp hlast
    obtain rfl := Option.some.inj hnil
    obtain ⟨hbefore, hafter⟩ := Runs.along_append.mp hfits
    obtain ⟨hsound, S, hrun, hrefines⟩ := ih hops hbefore
    obtain ⟨S', hstep, hrefines'⟩ := hrefines.step (hafter A₁ hops).1 hop
    refine ⟨hsound.step hop, S', ?_, hrefines'⟩
    exact Runs.run_append.mpr ⟨S, hrun, Runs.run_cons.mpr ⟨S', hstep, rfl⟩⟩

/-- What a look-up in the current tree gives when the keys are `keys`. -/
def TreeState.LooksUp (S : TreeState κ π) (keys : Finset κ) (x : κ) : Prop :=
  (∃ q, S.heap.treeLookup S.root x = some q ∧ (x ∈ keys → HasKey S.heap q x) ∧
    (x ∉ keys → q = none)) ∧
  ∃ q, S.heap.treeLookupNext S.root x = some q ∧
    ((∃ z, IsLeast {z | z ∈ keys ∧ x ≤ z} z ∧ HasKey S.heap q z) ∨
      ((∀ z ∈ keys, z < x) ∧ q = none))

omit [LinearOrder π] in
theorem TreeState.Refines.looksUp {S : TreeState κ π} {A : TreeSpec κ π} (h : S.Refines A)
    (x : κ) : S.LooksUp A.tree.keys x :=
  have hsearch := h.inv.search h.inv.head
  ⟨treeLookupRec_spec h.inv.head hsearch h.inv.head.height_le x,
    treeLookupNextRec_spec h.inv.head hsearch h.inv.head.height_le x⟩

/-- **Trees that share their nodes.**  After any operations that fit, with new keys inserted and
keys that are there deleted, no assertion has failed and no free node was touched; the tree and the
snapshots are what they should be, the counts are exact, and every node is reached. -/
theorem treap_run {ops : List (TreeOp κ π)} {A : TreeSpec κ π}
    (h : Runs.run TreeSpec.step ⟨.leaf, []⟩ ops = some A)
    (hfits : Runs.Along TreeSpec.step TreeSpec.Fits ⟨.leaf, []⟩ ops) :
    ∃ S, Runs.run TreeState.step .empty ops = some S ∧
      (Rep S.heap S.root A.tree ∧ A.tree.IsSearch ∧ A.tree.IsHeap ∧
        A.tree.keys = liveKeys ops) ∧
      List.Forall₂ (Rep S.heap) S.held A.held ∧
      (∀ p T, S.heap.cell p = some T →
        T.refcnt = ((S.root :: S.held).count (some p) + links S.heap p : ℕ)) ∧
      (∀ p T, S.heap.cell p = some T →
        ∃ q, some q ∈ S.root :: S.held ∧ Relation.ReflTransGen (TreeHeap.Link S.heap) q p) ∧
      ∀ x, S.LooksUp (liveKeys ops) x := by
  obtain ⟨hsound, S, hrun, hrefines⟩ := refines_run h hfits
  refine ⟨S, hrun, ⟨hrefines.inv.head, hsound.search, hsound.heap, hsound.keys⟩, hrefines.held,
    ?_, ?_, ?_⟩
  · intro p T hp
    rw [hrefines.inv.refcnt p T hp, hrefines.holds_eq]
  · intro p T hp
    obtain ⟨e, he, q, hq, hpath⟩ := hrefines.inv.reached hp
    have hpos : 0 < holds ((S.root, A.tree) ::ₘ (S.held.zip A.held : Held κ π)) q :=
      Multiset.countP_pos.mpr ⟨e, he, hq⟩
    rw [hrefines.holds_eq, List.count_pos_iff] at hpos
    exact ⟨q, hpos, hpath⟩
  · intro x
    rw [← hsound.keys]
    exact hrefines.looksUp x

end Spec

/-- **A snapshot** stays when the tree goes on. -/
theorem treap_run_snapshot :
    ∃ S, Runs.run TreeState.step .empty
        [TreeOp.insert 2 5, .snapshot, .insert 1 (7 : ℕ), .insert (3 : ℕ) 6] = some S ∧
      List.Forall₂ (Rep S.heap) S.held [.node .leaf 2 5 .leaf] := by
  have hspec : Runs.run TreeSpec.step ⟨.leaf, []⟩
      [TreeOp.insert 2 5, .snapshot, .insert 1 (7 : ℕ), .insert (3 : ℕ) 6]
        = some ⟨.node .leaf 1 7 (.node (.node .leaf 2 5 .leaf) 3 6 .leaf), [.node .leaf 2 5 .leaf]⟩ := rfl
  obtain ⟨S, hrun, -, hheld, -⟩ := treap_run hspec (by decide)
  exact ⟨S, hrun, hheld⟩

/-! ## Too many snapshots -/

/-- A node that is the current tree. -/
def oneNode (refcnt : ℤ) (held : List (Option ℕ)) : TreeState ℕ ℕ where
  heap := Store.empty.alloc ⟨none, none, 0, 0, refcnt⟩
  root := some 0
  held := held
  hazard := none
  freeLater := []

theorem oneNode_snapshot {refcnt : ℤ} (hpos : 0 < refcnt) (held : List (Option ℕ)) :
    (oneNode refcnt held).step .snapshot
      = some (oneNode (wrap32 (refcnt + 1)) (held ++ [some 0])) := by
  have hcell : (oneNode refcnt held).heap.cell 0 = some ⟨none, none, 0, 0, refcnt⟩ := rfl
  have hput : (oneNode refcnt held).heap.put 0 (some ⟨none, none, 0, 0, wrap32 (refcnt + 1)⟩)
      = Store.empty.alloc ⟨none, none, 0, 0, wrap32 (refcnt + 1)⟩ := Store.put_alloc _ _
  unfold TreeState.step TreeState.getTreePtr TreeHeap.increfTreePtr
  simp only [show (oneNode refcnt held).hazard = none from rfl, show (oneNode refcnt held).root =
    some 0 from rfl, guard, hcell, gt_iff_lt, hpos, hput, some_bind, Option.pure_def, ↓reduceIte]
  rfl

/-- The snapshots are counted as long as the count fits. -/
theorem oneNode_snapshots {n : ℕ} (hn : n + 1 < 2 ^ 31) :
    Runs.run TreeState.step (oneNode 1 []) (List.replicate n .snapshot)
      = some (oneNode (n + 1) (List.replicate n (some 0))) := by
  induction n with
  | zero => rfl
  | succ n ih =>
    rw [List.replicate_succ', Runs.run_append]
    refine ⟨_, ih (by omega), Runs.run_cons.mpr ⟨_, oneNode_snapshot (by omega) _, ?_⟩⟩
    rw [wrap32_of_isInt32 ⟨by omega, by omega⟩, List.replicate_succ']
    push_cast
    rfl

theorem keepSnapshots (t : Treap ℕ ℕ) (n : ℕ) :
    Runs.run TreeSpec.step ⟨t, []⟩ (List.replicate n .snapshot)
      = some ⟨t, List.replicate n t⟩ := by
  induction n with
  | zero => rfl
  | succ n ih =>
    rw [List.replicate_succ', Runs.run_append]
    exact ⟨_, ih, Runs.run_cons.mpr ⟨_, rfl, by rw [List.replicate_succ']; rfl⟩⟩

/-- A node with a count below zero cannot be given back. -/
theorem oneNode_free {refcnt : ℤ} (hneg : refcnt < 0) (hlow : -2 ^ 31 ≤ refcnt) {i : ℕ}
    {held : List (Option ℕ)} (hi : held[i]? = some (some 0)) :
    (oneNode refcnt held).step (.free i) = none := by
  have hcell : (oneNode refcnt held).heap.cell 0 = some ⟨none, none, 0, 0, refcnt⟩ := rfl
  have hwrap : wrap32 (refcnt - 1) ≠ 0 := by
    intro hzero
    have hdvd := Int.dvd_of_bmod_eq_zero hzero
    omega
  have hfree : (oneNode refcnt held).heap.treeFree (some 0) = none := by
    show treeFreeRec 1 (oneNode refcnt held).heap (some 0) = none
    rw [treeFreeRec]
    simp only [hcell, some_bind, guard]
    rw [if_neg (by omega), if_neg hwrap]
    rfl
  have hheld : (oneNode refcnt held).held[i]? = some (some 0) := hi
  unfold TreeState.step
  simp only [hheld, some_bind]
  unfold TreeState.freeTreePtr
  show Option.bind ((oneNode refcnt held).heap.treeFree (some 0)) _ = none
  rw [hfree]
  rfl

/-- **The count wraps around**: of `m` snapshots of one node, all held, none can be freed. -/
theorem oneNode_wraps {m : ℕ} (hm : m + 1 = 2 ^ 31) :
    ∃ A S T, Runs.run TreeSpec.step ⟨.leaf, []⟩ (.insert 0 0 :: List.replicate m .snapshot)
        = some A ∧ A.held.length = m ∧
      Runs.run TreeState.step .empty (.insert 0 0 :: List.replicate m .snapshot) = some S ∧
      S.heap.cell 0 = some T ∧ (S.root :: S.held).count (some 0) = 2 ^ 31 ∧
      T.refcnt = -2 ^ 31 ∧ S.step (.free 0) = none := by
  obtain ⟨n, rfl⟩ : ∃ n, m = n + 1 := ⟨m - 1, by omega⟩
  have hwrap : wrap32 (((n : ℤ) + 1) + 1) = -2 ^ 31 := by
    rw [wrap32_of_ge (by omega) (by omega)]
    omega
  have hrun : Runs.run TreeState.step (oneNode 1 []) (List.replicate (n + 1) .snapshot)
      = some (oneNode (-2 ^ 31) (List.replicate (n + 1) (some 0))) := by
    rw [List.replicate_succ', Runs.run_append]
    refine ⟨_, oneNode_snapshots (by omega),
      Runs.run_cons.mpr ⟨_, oneNode_snapshot (by omega) _, ?_⟩⟩
    rw [hwrap, List.replicate_succ']
    rfl
  refine ⟨_, _, ⟨none, none, 0, 0, -2 ^ 31⟩, Runs.run_cons.mpr ⟨_, rfl, keepSnapshots _ _⟩,
    List.length_replicate, Runs.run_cons.mpr ⟨oneNode 1 [], rfl, hrun⟩, rfl, ?_, rfl, ?_⟩
  · show (some 0 :: List.replicate (n + 1) (some 0)).count (some 0) = 2 ^ 31
    rw [List.count_cons_self, List.count_replicate_self, hm]
  · exact oneNode_free (by norm_num) le_rfl rfl

/-- With `2 ^ 31 - 1` snapshots of one node its count is below zero, and none can be freed. -/
theorem treap_count_wraps :
    ∃ A S T, Runs.run TreeSpec.step ⟨.leaf, []⟩
        (.insert 0 0 :: List.replicate (2 ^ 31 - 1) .snapshot) = some A ∧
      A.held.length = 2 ^ 31 - 1 ∧
      Runs.run TreeState.step .empty
        (.insert 0 0 :: List.replicate (2 ^ 31 - 1) .snapshot) = some S ∧
      S.heap.cell 0 = some T ∧ (S.root :: S.held).count (some 0) = 2 ^ 31 ∧
      T.refcnt = -2 ^ 31 ∧ S.step (.free 0) = none :=
  oneNode_wraps (Nat.sub_add_cancel (Nat.one_le_two_pow))

end MtprotoProxy
