/-
# Safety of the blocks of the unbounded queue

`BlockInv` holds of a block whatever calls are under way.  The nodes hold exactly the values that
were pushed and not popped.  A position is spent once a pop has come to it and gone on; the node of
a spent position is past it, or it is no longer safe and holds no value there.  What a call knows
about the node that it is going to swap is `BlockCall.Sound`: where the node is still what
the call has read, nothing happened that speaks against the swap.

Each access is of one of three kinds (`BlockInv.counters`, `BlockInv.release`, `BlockInv.store`),
and from these `BlockInv.step` follows for all of them.
-/
import MtprotoProxy.MpBlockCalls

namespace MtprotoProxy

open Activations

/-! ## Nodes in the course of time -/

/-- `y` may be what the node `x` is at a later time: the index does not fall, and while it stays a
value does not go. -/
def QueueNode.Later (x y : QueueNode) : Prop := x = y ∨ x.idx < y.idx ∨ x.idx = y.idx ∧ y.val ≠ 0

theorem QueueNode.Later.refl (x : QueueNode) : x.Later x := Or.inl rfl

theorem QueueNode.Later.idx_le {x y : QueueNode} (h : x.Later y) : x.idx ≤ y.idx := by
  rcases h with rfl | h | ⟨h, -⟩
  · exact le_rfl
  · exact h.le
  · exact h.le

/-- A node without a value that is later what it was has not changed in between. -/
theorem QueueNode.Later.eq_of_val {x y : QueueNode} (h : x.Later y) (hidx : y.idx ≤ x.idx)
    (hval : y.val = 0) : x = y := by
  rcases h with h | h | ⟨-, h⟩
  · exact h
  · omega
  · exact absurd hval h

namespace QueueBlock

variable {B : QueueBlock}

theorem node_congr {h k : ℕ} (hmod : k % B.size = h % B.size) : B.node k = B.node h := by
  show B.nodes _ = B.nodes _
  rw [hmod]

theorem node_setNode_mod {h k : ℕ} (x : QueueNode) (hmod : k % B.size = h % B.size) :
    (B.setNode h x).node k = x := by
  rw [show (B.setNode h x).node k = (B.setNode h x).node h from node_congr hmod]
  exact node_setNode_self h x

theorem later_setNode {h : ℕ} {x : QueueNode} (hx : (B.node h).Later x) (k : ℕ) :
    (B.node k).Later ((B.setNode h x).node k) := by
  by_cases hk : k % B.size = h % B.size
  · rw [node_setNode_mod x hk, node_congr hk]
    exact hx
  · rw [node_setNode_ne x hk]
    exact .refl _

theorem setNode_node (h : ℕ) : B.setNode h (B.node h) = B := by
  unfold setNode node
  rw [Function.update_eq_self]

end QueueBlock

/-! ## What a call knows -/

/-- What a call knows about the block, where the positions in `spent` are spent. -/
def BlockCall.Sound (B : QueueBlock) (spent : ℕ → Prop) : BlockCall → Prop
  | popSwap h d => d.idx ≤ h
  | popTail h => h < B.head
  | fixAgain t h => t ≤ h
  | fixSwap t h => t ≤ h
  | takeTail val _ => val ≠ 0
  | pushVal val _ _ => val ≠ 0
  | pushIdx val _ _ _ => val ≠ 0
  | pushHead val _ t d => val ≠ 0 ∧ d.val = 0 ∧ d.idx ≤ t ∧ d.idx ≤ (B.node t).idx
  | pushSwap val _ t d =>
    (val ≠ 0 ∧ d.val = 0 ∧ d.idx ≤ t ∧ d.idx ≤ (B.node t).idx) ∧
      (B.node t = d → d.safe = false → ∀ h, spent h → h % B.size = t % B.size → h < t)
  | pushAgain val _ _ => val ≠ 0
  | _ => True

/-- **What others do does not matter** to what a call knows. -/
theorem BlockCall.Sound.step {B B' : QueueBlock} {spent spent' : ℕ → Prop} {p : BlockCall}
    (h : p.Sound B spent) (hsize : B'.size = B.size) (hhead : B.head ≤ B'.head)
    (hlater : ∀ t, (B.node t).Later (B'.node t))
    (hspent : ∀ h, spent' h →
      spent h ∨ (B'.node h = B.node h → (B.node h).val = 0 → h < (B.node h).idx)) :
    p.Sound B' spent' := by
  cases p with
  | popTail h₁ => exact lt_of_lt_of_le h hhead
  | pushHead val left t d =>
    obtain ⟨hv, hd, hdt, hnode⟩ := h
    exact ⟨hv, hd, hdt, hnode.trans (hlater t).idx_le⟩
  | pushSwap val left t d =>
    obtain ⟨⟨hv, hd, hdt, hnode⟩, hsafe⟩ := h
    refine ⟨⟨hv, hd, hdt, hnode.trans (hlater t).idx_le⟩, ?_⟩
    intro hsame hflag k hk hmod
    -- the node has not changed
    have hold : B.node t = d := by
      have hback := (hlater t).eq_of_val (by rw [hsame]; exact hnode) (by rw [hsame]; exact hd)
      rw [hback, hsame]
    rw [hsize] at hmod
    rcases hspent k hk with hk | hk
    · exact hsafe hold hflag k hk hmod
    · have hkt : B'.node k = B'.node t := QueueBlock.node_congr (by rw [hsize]; exact hmod)
      rw [hkt, hsame, QueueBlock.node_congr hmod, hold] at hk
      exact (hk rfl hd).trans_le hdt
  | _ => exact h

/-! ## The invariant -/

/-- The positions that pops have taken, but those that they gave up. -/
def heads (M : Multiset BlockCall) (es : List BlockEvent) : Multiset ℕ :=
  claimed M + ((pops es).map Prod.fst : List ℕ)

/-- The positions that pushes have taken, but those that they gave up. -/
def tails (M : Multiset BlockCall) (es : List BlockEvent) : Multiset ℕ :=
  pending M + ((pushes es).map Prod.fst : List ℕ)

/-- **The invariant of a block** with the calls `M` under way and the record `es`. -/
structure BlockInv (B : QueueBlock) (M : Multiset BlockCall) (es : List BlockEvent) : Prop where
  size_pos : 0 < B.size
  residue : ∀ h, (B.node h).idx % B.size = h % B.size
  heads_nodup : (heads M es).Nodup
  heads_lt : ∀ h ∈ heads M es, h < B.head
  tails_nodup : (tails M es).Nodup
  tails_lt : ∀ t ∈ tails M es, t < B.tail
  holds : ∀ i v, v ≠ 0 →
    ((B.node i).idx = i ∧ (B.node i).val = v ↔ (i, v) ∈ pushes es ∧ (i, v) ∉ pops es)
  pops_subset : pops es ⊆ pushes es
  nonzero : ∀ x ∈ pushes es, x.2 ≠ 0
  spent : ∀ h, Spent B M h →
    h < (B.node h).idx ∨ (B.node h).safe = false ∧ ((B.node h).idx = h → (B.node h).val = 0)
  sound : ∀ p ∈ M, p.Sound B (Spent B M)

section Step

variable {B B' : QueueBlock} {M : Multiset BlockCall} {a b : Option BlockCall}
  {es new : List BlockEvent} {p : BlockCall}

theorem heads_held : heads (held a + M) es = held (a.bind BlockCall.popping) + heads M es := by
  unfold heads claimed
  rw [filterMap_held_add, add_assoc]

theorem tails_held : tails (held a + M) es = held (a.bind BlockCall.pushing) + tails M es := by
  unfold tails pending
  rw [filterMap_held_add, add_assoc]

theorem claimed_held : claimed (held a + M) = held (a.bind BlockCall.popping) + claimed M :=
  filterMap_held_add _ _ _

theorem pending_held : pending (held a + M) = held (a.bind BlockCall.pushing) + pending M :=
  filterMap_held_add _ _ _

theorem heads_append (hpops : pops new = []) : heads M (es ++ new) = heads M es := by
  unfold heads
  rw [pops_append, hpops, List.append_nil]

theorem tails_append (hpushes : pushes new = []) : tails M (es ++ new) = tails M es := by
  unfold tails
  rw [pushes_append, hpushes, List.append_nil]

theorem mem_positions (s : Multiset ℕ) {x : ℕ × ℕ} {xs : List (ℕ × ℕ)} (hx : x ∈ xs) :
    x.1 ∈ s + (xs.map Prod.fst : List ℕ) :=
  Multiset.mem_add.mpr (Or.inr (Multiset.mem_coe.mpr (List.mem_map_of_mem hx)))

theorem nodup_positions {s : Multiset ℕ} {xs : List (ℕ × ℕ)}
    (h : (s + (xs.map Prod.fst : List ℕ)).Nodup) : (xs.map Prod.fst).Nodup :=
  Multiset.coe_nodup.mp (Multiset.nodup_of_le (Multiset.le_add_left _ _) h)

theorem BlockInv.sound_self (hI : BlockInv B (held (some p) + M) es) :
    p.Sound B (Spent B (held (some p) + M)) := hI.sound p ((mem_held_add).mpr (Or.inl rfl))

/-- Positions that are taken from a counter, and given up. -/
theorem taken_positions {M : Multiset ℕ} {x y : Option ℕ} {n n' : ℕ} (hnodup : (held x + M).Nodup)
    (hlt : ∀ t ∈ held x + M, t < n) (hle : n ≤ n') (hnew : ∀ t ∈ y, t ∈ x ∨ n ≤ t ∧ t < n') :
    (held y + M).Nodup ∧ ∀ t ∈ held y + M, t < n' := by
  rw [nodup_held_add] at hnodup ⊢
  simp only [mem_held_add] at hlt ⊢
  refine ⟨⟨fun t ht hmem => ?_, hnodup.2⟩, ?_⟩
  · rcases hnew t ht with hx | ⟨hle', -⟩
    · exact hnodup.1 t hx hmem
    · exact absurd (hlt t (Or.inr hmem)) (not_lt.mpr hle')
  · rintro t (ht | ht)
    · rcases hnew t ht with hx | ⟨-, hlt'⟩
      · exact (hlt t (Or.inl hx)).trans_le hle
      · exact hlt'
    · exact (hlt t (Or.inr ht)).trans_le hle

/-- **An access that changes no node.** -/
theorem BlockInv.counters (hI : BlockInv B (held a + M) es) (hsize : B'.size = B.size)
    (hnodes : B'.nodes = B.nodes) (hhead : B.head ≤ B'.head) (htail : B.tail ≤ B'.tail)
    (hpop : ∀ h ∈ b.bind BlockCall.popping,
      h ∈ a.bind BlockCall.popping ∨ B.head ≤ h ∧ h < B'.head)
    (hpush : ∀ t ∈ b.bind BlockCall.pushing,
      t ∈ a.bind BlockCall.pushing ∨ B.tail ≤ t ∧ t < B'.tail)
    (hspent : ∀ h, Spent B' (held b + M) h → Spent B (held a + M) h)
    (hsound : ∀ q ∈ b, q.Sound B (Spent B (held a + M)))
    (hpushes : pushes new = []) (hpops : pops new = []) :
    BlockInv B' (held b + M) (es ++ new) := by
  have hnode : ∀ h, B'.node h = B.node h := by
    intro h
    show B'.nodes _ = B.nodes _
    rw [hnodes, hsize]
  obtain ⟨hpos, hres, hheads, hheads_lt, htails, htails_lt, hholds, hsub, hnonzero, hold, hknown⟩ :=
    hI
  rw [heads_held] at hheads hheads_lt
  rw [tails_held] at htails htails_lt
  have hheads' := taken_positions hheads hheads_lt hhead hpop
  have htails' := taken_positions htails htails_lt htail hpush
  rw [← heads_held, ← heads_append hpops] at hheads'
  rw [← tails_held, ← tails_append hpushes] at htails'
  refine ⟨by rw [hsize]; exact hpos, fun h => by rw [hnode, hsize]; exact hres h, hheads'.1,
    hheads'.2, htails'.1, htails'.2, ?_, ?_, ?_, ?_, ?_⟩
  · intro i v hv
    rw [hnode, pushes_append, pops_append, hpushes, hpops, List.append_nil, List.append_nil]
    exact hholds i v hv
  · rw [pushes_append, pops_append, hpushes, hpops, List.append_nil, List.append_nil]
    exact hsub
  · rw [pushes_append, hpushes, List.append_nil]
    exact hnonzero
  · intro h hh
    rw [hnode]
    exact hold h (hspent h hh)
  · intro q hq
    have hq' : q.Sound B (Spent B (held a + M)) := by
      rcases (mem_held_add).mp hq with hq | hq
      · exact hsound q hq
      · exact hknown q ((mem_held_add).mpr (Or.inr hq))
    exact hq'.step hsize hhead (fun t => by rw [hnode]; exact .refl _)
      (fun h hh => Or.inl (hspent h hh))

/-- An access that does not move the head either. -/
theorem BlockInv.quiet (hI : BlockInv B (held a + M) es) (hhead : B'.head = B.head)
    (hsize : B'.size = B.size) (hnodes : B'.nodes = B.nodes) (htail : B.tail ≤ B'.tail)
    (hpop : b.bind BlockCall.popping = a.bind BlockCall.popping)
    (hpush : ∀ t ∈ b.bind BlockCall.pushing,
      t ∈ a.bind BlockCall.pushing ∨ B.tail ≤ t ∧ t < B'.tail)
    (hsound : ∀ q ∈ b, q.Sound B (Spent B (held a + M)))
    (hpushes : pushes new = []) (hpops : pops new = []) :
    BlockInv B' (held b + M) (es ++ new) := by
  refine hI.counters hsize hnodes hhead.ge htail (fun h hh => Or.inl (hpop ▸ hh)) hpush ?_ hsound
    hpushes hpops
  intro h hh
  unfold Spent at hh ⊢
  rw [claimed_held, hpop, hhead] at hh
  rw [claimed_held]
  exact hh

/-- **A pop takes the position at the head.** -/
theorem BlockInv.take (hI : BlockInv B (held (some .takeHead) + M) es) :
    BlockInv { B with head := B.head + 1 } (held (some (.popVal B.head)) + M) (es ++ []) := by
  refine hI.counters rfl rfl (Nat.le_succ _) le_rfl
    (of_mem_some (Or.inr ⟨le_rfl, Nat.lt_succ_self _⟩)) (by simp [BlockCall.pushing]) ?_
    (of_mem_some trivial) rfl rfl
  rintro h ⟨hlt, hnot⟩
  rw [claimed_held, mem_held_add, not_or] at hnot
  have hne : h ≠ B.head := fun he => hnot.1 (by rw [he]; rfl)
  have hle : h ≤ B.head := Nat.lt_succ_iff.mp hlt
  refine ⟨lt_of_le_of_ne hle hne, ?_⟩
  rw [claimed_held, mem_held_add, not_or]
  exact ⟨Option.not_mem_none h, hnot.2⟩

/-- **A pop is done with its position** `h` and leaves the node as `y`. -/
theorem BlockInv.release {h : ℕ} {y : QueueNode} (hI : BlockInv B (held (some p) + M) es)
    (hp : p.popping = some h) (hp' : p.pushing = none)
    (hb : b.bind BlockCall.popping = none) (hb' : b.bind BlockCall.pushing = none)
    (hsound : ∀ q ∈ b, q.Sound (B.setNode h y) (Spent (B.setNode h y) (held b + M)))
    (hlater : (B.node h).Later y) (hsame : y = B.node h → y.val = 0 → h < y.idx)
    (hres : y.idx % B.size = h % B.size) (hsafe : y.safe = true → (B.node h).safe = true)
    (hdone : h < y.idx ∨ y.safe = false ∧ y.idx < h) (hpushes : pushes new = [])
    (hholds : ∀ i v, v ≠ 0 →
      (y.idx = i ∧ y.val = v ↔ ((B.node h).idx = i ∧ (B.node h).val = v) ∧ (i, v) ∉ pops new))
    (hpops : pops new = [] ∨ pops new = [(h, (B.node h).val)] ∧ (B.node h).idx = h ∧
      (B.node h).val ≠ 0) :
    BlockInv (B.setNode h y) (held b + M) (es ++ new) := by
  have hheads : heads (held b + M) (es ++ new) ≤ heads (held (some p) + M) es := by
    rw [heads_held, heads_held, hb, Option.bind_some, hp, held_none, zero_add, held_some]
    rcases hpops with hpops | ⟨hpops, -⟩
    · rw [heads_append hpops]
      exact Multiset.le_add_left _ _
    · unfold heads
      rw [pops_append, hpops, List.map_append, ← Multiset.coe_add]
      show claimed M + (_ + {h}) ≤ {h} + (claimed M + _)
      rw [← add_assoc]
      exact (add_comm _ _).le
  have htails : tails (held b + M) (es ++ new) = tails (held (some p) + M) es := by
    rw [tails_append hpushes, tails_held, tails_held, hb', Option.bind_some, hp']
  have hspent : ∀ k, Spent (B.setNode h y) (held b + M) k →
      k = h ∨ Spent B (held (some p) + M) k := by
    intro k hk
    unfold Spent at hk ⊢
    rw [claimed_held, hb, held_none, zero_add] at hk
    rw [claimed_held, Option.bind_some, hp, mem_held_add, Option.mem_def, Option.some.injEq]
    by_cases hkh : k = h
    · exact Or.inl hkh
    · refine Or.inr ⟨hk.1, ?_⟩
      rintro (he | hmem)
      · exact hkh he.symm
      · exact hk.2 hmem
  constructor
  · exact hI.size_pos
  · intro k
    by_cases hk : k % B.size = h % B.size
    · rw [B.node_setNode_mod y hk]
      exact hres.trans hk.symm
    · rw [B.node_setNode_ne y hk]
      exact hI.residue k
  · exact Multiset.nodup_of_le hheads hI.heads_nodup
  · intro k hk
    exact hI.heads_lt k (Multiset.mem_of_le hheads hk)
  · rw [htails]
    exact hI.tails_nodup
  · rw [htails]
    exact hI.tails_lt
  · intro i v hv
    rw [pushes_append, pops_append, hpushes, List.append_nil, List.mem_append, not_or,
      ← and_assoc, ← hI.holds i v hv]
    by_cases hi : i % B.size = h % B.size
    · rw [B.node_setNode_mod y hi, hholds i v hv, B.node_congr hi]
    · rw [B.node_setNode_ne y hi, iff_self_and]
      rintro -
      rcases hpops with hpops | ⟨hpops, -⟩
      · rw [hpops]
        exact List.not_mem_nil
      · rw [hpops, List.mem_singleton, Prod.mk.injEq]
        rintro ⟨rfl, -⟩
        exact hi rfl
  · rw [pushes_append, pops_append, hpushes, List.append_nil]
    refine List.append_subset.mpr ⟨hI.pops_subset, ?_⟩
    rcases hpops with hpops | ⟨hpops, hidx, hval⟩
    · rw [hpops]
      exact List.nil_subset _
    · rw [hpops]
      intro z hz
      rw [List.mem_singleton.mp hz]
      exact ((hI.holds h _ hval).mp ⟨hidx, rfl⟩).1
  · rw [pushes_append, hpushes, List.append_nil]
    exact hI.nonzero
  · intro k hk
    have hold := hspent k hk
    by_cases hkh : k % B.size = h % B.size
    · rw [B.node_setNode_mod y hkh]
      rcases hold with rfl | hold
      · rcases hdone with hlt | ⟨hflag, hlt⟩
        · exact Or.inl hlt
        · exact Or.inr ⟨hflag, fun he => absurd he hlt.ne⟩
      · have hnode := hI.spent k hold
        rw [B.node_congr hkh] at hnode
        rcases hnode with hlt | ⟨hflag, hval⟩
        · exact Or.inl (hlt.trans_le hlater.idx_le)
        · refine Or.inr ⟨?_, ?_⟩
          · cases hy : y.safe with
            | false => rfl
            | true => exact absurd (hsafe hy) (by rw [hflag]; exact Bool.false_ne_true)
          · intro he
            by_contra hv
            obtain ⟨⟨hxi, hxv⟩, -⟩ := (hholds k y.val hv).mp ⟨he, rfl⟩
            exact hv (hxv.symm.trans (hval hxi))
    · rw [B.node_setNode_ne y hkh]
      rcases hold with rfl | hold
      · exact absurd rfl hkh
      · exact hI.spent k hold
  · intro q hq
    rcases (mem_held_add).mp hq with hq | hq
    · exact hsound q hq
    · refine (hI.sound q ((mem_held_add).mpr (Or.inr hq))).step rfl le_rfl
        (QueueBlock.later_setNode hlater) ?_
      intro k hk
      rcases hspent k hk with rfl | hold
      · right
        rw [QueueBlock.node_setNode_self]
        intro he hval
        have hlt := hsame he (by rw [he]; exact hval)
        rw [he] at hlt
        exact hlt
      · exact Or.inl hold

/-- **A push puts its value** into the node that it has read. -/
theorem BlockInv.store {val left t : ℕ} {d : QueueNode}
    (hI : BlockInv B (held (some (.pushSwap val left t d)) + M) es) (hnode : B.node t = d) :
    BlockInv (B.setNode t ⟨true, t, val⟩) (held none + M) (es ++ [.pushed t val]) := by
  obtain ⟨⟨hval, hdval, hdt, -⟩, hflag⟩ := hI.sound_self
  have hflag := hflag hnode
  have htails := hI.tails_nodup
  have htails_lt := hI.tails_lt
  rw [tails_held, nodup_held_add] at htails
  simp only [tails_held, mem_held_add] at htails_lt
  have hfresh : t ∉ tails M es := htails.1 t rfl
  have hnew : ∀ v, (t, v) ∉ pushes es := fun v hmem => hfresh (mem_positions _ hmem)
  have hpushes : pushes (es ++ [.pushed t val]) = pushes es ++ [(t, val)] := pushes_append _ _
  have hpops : pops (es ++ [.pushed t val]) = pops es := by
    rw [pops_append]
    exact List.append_nil _
  have hlater : (B.node t).Later ⟨true, t, val⟩ := by
    rw [hnode]
    rcases hdt.lt_or_eq with hlt | heq
    · exact Or.inr (Or.inl hlt)
    · exact Or.inr (Or.inr ⟨heq, hval⟩)
  have hheads : heads (held none + M) (es ++ [.pushed t val]) =
      heads (held (some (.pushSwap val left t d)) + M) es := by
    rw [heads_held, heads_held]
    unfold heads
    rw [hpops]
    rfl
  have htails' : tails (held none + M) (es ++ [.pushed t val]) =
      tails (held (some (.pushSwap val left t d)) + M) es := by
    rw [tails_held, tails_held]
    unfold tails
    rw [hpushes, List.map_append, ← Multiset.coe_add]
    show 0 + (pending M + (_ + {t})) = {t} + (pending M + _)
    rw [zero_add, ← add_assoc]
    exact add_comm _ _
  have hspent : ∀ k, Spent (B.setNode t ⟨true, t, val⟩) (held none + M) k ↔
      Spent B (held (some (.pushSwap val left t d)) + M) k := by
    intro k
    unfold Spent
    rw [claimed_held, claimed_held]
    exact Iff.rfl
  constructor
  · exact hI.size_pos
  · intro k
    by_cases hk : k % B.size = t % B.size
    · rw [B.node_setNode_mod _ hk]
      exact hk.symm
    · rw [B.node_setNode_ne _ hk]
      exact hI.residue k
  · rw [hheads]
    exact hI.heads_nodup
  · rw [hheads]
    exact hI.heads_lt
  · rw [htails']
    exact hI.tails_nodup
  · rw [htails']
    exact hI.tails_lt
  · intro i v hv
    rw [hpushes, hpops, List.mem_append, List.mem_singleton, Prod.mk.injEq]
    by_cases hi : i % B.size = t % B.size
    · rw [B.node_setNode_mod _ hi]
      constructor
      · rintro ⟨rfl, rfl⟩
        exact ⟨Or.inr ⟨rfl, rfl⟩, fun hmem => hnew _ (hI.pops_subset hmem)⟩
      · rintro ⟨hmem | ⟨rfl, rfl⟩, hnot⟩
        · -- a value with this residue would be in the node
          have hheld := (hI.holds i v hv).mpr ⟨hmem, hnot⟩
          rw [B.node_congr hi, hnode, hdval] at hheld
          exact absurd hheld.2.symm hv
        · exact ⟨rfl, rfl⟩
    · rw [B.node_setNode_ne _ hi, hI.holds i v hv]
      have hit : i ≠ t := fun he => hi (by rw [he])
      simp only [hit, false_and, or_false]
  · rw [hpushes, hpops]
    exact List.Subset.trans hI.pops_subset (List.subset_append_left _ _)
  · intro x hx
    rw [hpushes, List.mem_append, List.mem_singleton] at hx
    rcases hx with hx | rfl
    · exact hI.nonzero x hx
    · exact hval
  · intro k hk
    rw [hspent] at hk
    have hold := hI.spent k hk
    by_cases hkt : k % B.size = t % B.size
    · rw [B.node_setNode_mod _ hkt]
      rw [B.node_congr hkt, hnode] at hold
      rcases hold with hlt | ⟨hdsafe, -⟩
      · exact Or.inl (hlt.trans_le hdt)
      · exact Or.inl (hflag hdsafe k hk hkt)
    · rw [B.node_setNode_ne _ hkt]
      exact hold
  · intro q hq
    have hq' : q ∈ M := by simpa using hq
    exact (hI.sound q ((mem_held_add).mpr (Or.inr hq'))).step rfl le_rfl
      (QueueBlock.later_setNode hlater) (fun k hk => Or.inl ((hspent k).mp hk))

/-- **An access that only reads.** -/
theorem BlockInv.read (hI : BlockInv B (held a + M) es)
    (hpop : b.bind BlockCall.popping = a.bind BlockCall.popping)
    (hpush : b.bind BlockCall.pushing = a.bind BlockCall.pushing ∨
      b.bind BlockCall.pushing = none)
    (hsound : ∀ q ∈ b, q.Sound B (Spent B (held a + M))) (hpushes : pushes new = [])
    (hpops : pops new = []) : BlockInv B (held b + M) (es ++ new) := by
  refine hI.quiet rfl rfl rfl le_rfl hpop ?_ hsound hpushes hpops
  intro t ht
  rcases hpush with hpush | hpush
  · rw [hpush] at ht
    exact Or.inl ht
  · rw [hpush] at ht
    exact absurd ht (Option.not_mem_none t)

/-- A call goes on to `q` after it has only read. -/
theorem BlockInv.goesOn {q : BlockCall} (hI : BlockInv B (held (some p) + M) es)
    (hpop : q.popping = p.popping) (hpush : q.pushing = p.pushing ∨ q.pushing = none)
    (hsound : q.Sound B (Spent B (held (some p) + M))) :
    BlockInv B (held (some q) + M) (es ++ []) := by
  exact hI.read hpop hpush (of_mem_some hsound) rfl rfl

/-- The position of a pop lies before the head. -/
theorem BlockInv.popping_lt {h : ℕ} (hI : BlockInv B (held (some p) + M) es)
    (hp : p.popping = some h) : h < B.head := by
  apply hI.heads_lt h
  rw [heads_held]
  exact (mem_held_add).mpr (Or.inl hp)

/-- The index that `mpq_block_pop` reads. -/
theorem BlockInv.popIdx {h val : ℕ} (hI : BlockInv B (held (some (.popIdx h val)) + M) es) :
    BlockInv B (held ((BlockCall.popIdx h val).access B).2.1 + M) (es ++ []) := by
  have hhead : h < B.head := hI.popping_lt rfl
  simp only [BlockCall.access]
  split
  · rename_i hlt
    have hsame := B.setNode_node h
    have hrel : BlockInv (B.setNode h (B.node h)) (held (some (.popTail h)) + M) (es ++ []) :=
      hI.release rfl rfl rfl rfl (of_mem_some hhead) (.refl _) (fun _ _ => hlt) (hI.residue h) id
        (Or.inl hlt) rfl (by intro i v _; simp [pops]) (Or.inl rfl)
    rw [hsame] at hrel
    exact hrel
  · rename_i hle
    exact hI.goesOn rfl (Or.inl rfl) (not_lt.mp hle)

/-- **The node is made ready** for the next round, and its value is returned if there is one. -/
theorem BlockInv.ready {h : ℕ} {d : QueueNode}
    (hI : BlockInv B (held (some (.popSwap h d)) + M) es) (hnode : B.node h = d)
    (hb : b.bind BlockCall.popping = none) (hb' : b.bind BlockCall.pushing = none)
    (hsound : ∀ q ∈ b, q.Sound (B.setNode h ⟨d.safe, h + B.size, 0⟩)
      (Spent (B.setNode h ⟨d.safe, h + B.size, 0⟩) (held b + M)))
    (hpushes : pushes new = [])
    (hpops : pops new = [] ∧ d.val = 0 ∨ pops new = [(h, d.val)] ∧ d.idx = h ∧ d.val ≠ 0) :
    BlockInv (B.setNode h ⟨d.safe, h + B.size, 0⟩) (held b + M) (es ++ new) := by
  have hle : d.idx ≤ h := hI.sound_self
  have hpos : h < h + B.size := Nat.lt_add_of_pos_right hI.size_pos
  refine hI.release rfl rfl hb hb' hsound ?_ (fun _ _ => hpos) (Nat.add_mod_right _ _) ?_
    (Or.inl hpos) hpushes ?_ ?_
  · rw [hnode]
    exact Or.inr (Or.inl (hle.trans_lt hpos))
  · rw [hnode]
    exact id
  · intro i v hv
    rw [hnode]
    constructor
    · rintro ⟨-, hzero⟩
      exact absurd hzero.symm hv
    · rintro ⟨⟨rfl, rfl⟩, hnot⟩
      rcases hpops with ⟨-, hzero⟩ | ⟨hpops, hidx, -⟩
      · exact absurd hzero hv
      · rw [hpops, hidx] at hnot
        exact absurd (List.mem_singleton.mpr rfl) hnot
  · rw [hnode]
    exact hpops.imp And.left id

/-- **The compare-and-swap of `mpq_block_pop`.** -/
theorem BlockInv.popSwap {h : ℕ} {d : QueueNode}
    (hI : BlockInv B (held (some (.popSwap h d)) + M) es) :
    BlockInv ((BlockCall.popSwap h d).access B).1
      (held ((BlockCall.popSwap h d).access B).2.1 + M)
      (es ++ ((BlockCall.popSwap h d).access B).2.2) := by
  have hle : d.idx ≤ h := hI.sound_self
  have hhead : h < B.head := hI.popping_lt rfl
  simp only [BlockCall.access]
  split
  · rename_i hnode
    split
    · rename_i hval
      split
      · rename_i hidx
        -- the value is returned
        rw [hidx]
        exact hI.ready hnode rfl rfl (by simp) rfl (Or.inr ⟨rfl, hidx, hval⟩)
      · rename_i hidx
        -- the node is no longer safe
        have hres := hI.residue h
        rw [hnode] at hres
        refine hI.release (y := ⟨false, d.idx, d.val⟩) rfl rfl rfl rfl (of_mem_some hhead) ?_
          (fun _ hzero => absurd hzero hval) hres (fun hf => absurd hf Bool.false_ne_true)
          (Or.inr ⟨rfl, lt_of_le_of_ne hle hidx⟩) rfl ?_ (Or.inl rfl)
        · rw [hnode]
          exact Or.inr (Or.inr ⟨rfl, hval⟩)
        · intro i v _
          rw [hnode]
          simp [pops]
    · rename_i hval
      exact hI.ready hnode rfl rfl (of_mem_some hhead) rfl (Or.inl ⟨rfl, not_not.mp hval⟩)
  · exact hI.goesOn rfl (Or.inl rfl) trivial

/-- The index that `mpq_block_push` reads. -/
theorem BlockInv.pushIdx {val left t old : ℕ}
    (hI : BlockInv B (held (some (.pushIdx val left t old)) + M) es) :
    BlockInv B (held ((BlockCall.pushIdx val left t old).access B).2.1 + M) (es ++ []) := by
  have hval : val ≠ 0 := hI.sound_self
  simp only [BlockCall.access]
  split
  · rename_i hread
    split
    · rename_i hsafe
      refine hI.goesOn rfl (Or.inl rfl) ⟨⟨hval, rfl, hread.2, le_rfl⟩, ?_⟩
      intro _ hflag
      exact absurd (hsafe.symm.trans hflag) (by simp)
    · exact hI.goesOn rfl (Or.inl rfl) ⟨hval, rfl, hread.2, le_rfl⟩
  · exact hI.goesOn rfl (Or.inr rfl) hval

/-- The head that `mpq_block_push` reads before it takes a node that is not safe. -/
theorem BlockInv.pushHead {val left t : ℕ} {d : QueueNode}
    (hI : BlockInv B (held (some (.pushHead val left t d)) + M) es) :
    BlockInv B (held ((BlockCall.pushHead val left t d).access B).2.1 + M) (es ++ []) := by
  have hsound := hI.sound_self
  simp only [BlockCall.access]
  split
  · rename_i hhead
    refine hI.goesOn rfl (Or.inl rfl) ⟨hsound, ?_⟩
    -- positions from `t` on were not taken yet
    intro _ _ h hspent _
    exact hspent.1.trans_le hhead
  · exact hI.goesOn rfl (Or.inr rfl) hsound.1

/-- **Every access keeps the invariant.** -/
theorem BlockInv.step (hact : BlockAct B a B' b new) (hI : BlockInv B (held a + M) es) :
    BlockInv B' (held b + M) (es ++ new) := by
  cases hact with
  | pop =>
    exact hI.read rfl (Or.inl rfl) (of_mem_some trivial) rfl rfl
  | push hval =>
    exact hI.read rfl (Or.inl rfl) (of_mem_some hval) rfl rfl
  | access p =>
    cases p with
    | takeHead => exact hI.take
    | popVal h => exact hI.goesOn rfl (Or.inl rfl) trivial
    | popIdx h val => exact hI.popIdx
    | popSwap h d => exact hI.popSwap
    | popTail h =>
      simp only [BlockCall.access]
      split
      · exact hI.goesOn rfl (Or.inl rfl) trivial
      · exact hI.goesOn rfl (Or.inl rfl) trivial
    | fixTail => exact hI.goesOn rfl (Or.inl rfl) trivial
    | fixHead t closed =>
      simp only [BlockCall.access]
      split
      · exact hI.read rfl (Or.inl rfl) (by simp) rfl rfl
      · rename_i hread
        rw [not_or, not_le] at hread
        exact hI.goesOn rfl (Or.inl rfl) hread.2.le
    | fixAgain t h =>
      simp only [BlockCall.access]
      split
      · exact hI.goesOn rfl (Or.inl rfl) hI.sound_self
      · exact hI.goesOn rfl (Or.inl rfl) trivial
    | fixSwap t h =>
      simp only [BlockCall.access]
      split
      · rename_i hread
        have htail : B.tail ≤ h := hread.1.trans_le hI.sound_self
        exact hI.quiet rfl rfl rfl htail rfl (by simp) (by simp) rfl rfl
      · exact hI.goesOn rfl (Or.inl rfl) trivial
    | takeTail val left =>
      simp only [BlockCall.access]
      split
      · exact hI.quiet rfl rfl rfl (Nat.le_succ _) rfl (by simp) (by simp) rfl rfl
      · exact hI.quiet rfl rfl rfl (Nat.le_succ _) rfl
          (of_mem_some (Or.inr ⟨le_rfl, Nat.lt_succ_self _⟩)) (of_mem_some hI.sound_self) rfl rfl
    | pushVal val left t => exact hI.goesOn rfl (Or.inl rfl) hI.sound_self
    | pushIdx val left t old => exact hI.pushIdx
    | pushHead val left t d => exact hI.pushHead
    | pushSwap val left t d =>
      simp only [BlockCall.access]
      split
      · rename_i hnode
        exact hI.store hnode
      · exact hI.goesOn rfl (Or.inr rfl) hI.sound_self.1.1
    | pushAgain val left t =>
      have hval : val ≠ 0 := hI.sound_self
      simp only [BlockCall.access]
      split
      · exact hI.goesOn rfl (Or.inl rfl) trivial
      · split
        · exact hI.goesOn rfl (Or.inl rfl) trivial
        · exact hI.goesOn rfl (Or.inl rfl) hval
    | close val =>
      exact hI.quiet rfl rfl rfl le_rfl rfl (by simp [BlockCall.access])
        (by simp [BlockCall.access]) rfl rfl

end Step

end MtprotoProxy
