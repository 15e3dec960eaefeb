/-
# Blocks of the unbounded queue

`struct mp_queue_block` from `common/mp-queue.c`: a ring of nodes with two counters.  A push takes
the position at the tail, a pop the one at the head, and a node belongs to the positions that
leave its number when they are divided by the size.

One thread works on the block, so that every compare-and-swap succeeds, and the loop in
`mpq_block_pop` around them runs once.  The counters are numbers; as numbers of 64 bits
they would overflow after `2^63` operations on one block.  The bit `MQN_SAFE` of an index or of the
tail is a field of its own.

`Contains` is the invariant: the block holds a list of values, from the position at the head on,
and the other nodes are ready for the positions that they will have next.
-/
import Mathlib.Data.List.GetD
import Mathlib.Data.Nat.ModEq
import Mathlib.Logic.Function.Basic
import Mathlib.Tactic

namespace MtprotoProxy

/-! ## The code -/

/-- `mpq_node_t`, with the bit `MQN_SAFE` of `idx`. -/
structure QueueNode where
  safe : Bool
  idx : ℕ
  val : ℕ

/-- The values of `mqb_magic` in blocks that were not freed. -/
inductive BlockMagic where
  | used
  | garbage
  | prepared
  deriving DecidableEq

/-- `struct mp_queue_block`, with the bit `MQN_SAFE` of `mqb_tail`. -/
structure QueueBlock where
  head : ℕ
  magic : BlockMagic
  alignBytes : ℕ
  size : ℕ
  tail : ℕ
  closed : Bool
  next : Option ℕ
  nodes : ℕ → QueueNode

namespace QueueBlock

/-- `&QB->mqb_nodes[h & (size - 1)]`, where the size is a power of two. -/
def node (B : QueueBlock) (h : ℕ) : QueueNode := B.nodes (h % B.size)

def setNode (B : QueueBlock) (h : ℕ) (x : QueueNode) : QueueBlock :=
  { B with nodes := Function.update B.nodes (h % B.size) x }

/-- `mpq_fix_state`.  A tail with the bit `MQN_SAFE` is not below any head. -/
def fixState (B : QueueBlock) : QueueBlock :=
  if B.closed = true ∨ B.head ≤ B.tail then B else { B with tail := B.head }

/-- What `mpq_block_pop` does at the position `h`; a value other than 0 is returned. -/
def visit (B : QueueBlock) (h : ℕ) : QueueBlock × ℕ :=
  let node := B.node h
  if h < node.idx then (B, 0)
  else if node.val ≠ 0 then
    if node.idx = h then (B.setNode h ⟨node.safe, node.idx + B.size, 0⟩, node.val)
    else (B.setNode h ⟨false, node.idx, node.val⟩, 0)
  else (B.setNode h ⟨node.safe, h + B.size, 0⟩, 0)

/-- The loop of `mpq_block_pop`.  The number bounds the rounds. -/
def popLoop : ℕ → QueueBlock → Option (QueueBlock × ℕ)
  | 0, _ => none
  | n + 1, B =>
    let h := B.head
    let (B, val) := { B with head := h + 1 }.visit h
    if val ≠ 0 then some (B, val)
    else if B.tail ≤ h + 1 then some (B.fixState, 0)
    else popLoop n B

/-- `mpq_block_pop`. -/
def pop (B : QueueBlock) : Option (QueueBlock × ℕ) := popLoop (B.tail - B.head + 1) B

/-- The loop of `mpq_block_push`, with the failures left until it gives up; `none` is -1. -/
def pushLoop (val : ℕ) : ℕ → QueueBlock → QueueBlock × Option ℕ
  | left, B =>
    let t := B.tail
    let B := { B with tail := t + 1 }
    if B.closed then (B, none)
    else
      let node := B.node t
      if node.val = 0 ∧ node.idx ≤ t ∧ (node.safe = true ∨ B.head ≤ t) then
        (B.setNode t ⟨true, t, val⟩, some t)
      else if B.head + B.size ≤ t then ({ B with closed := true }, none)
      else
        match left with
        | 0 => ({ B with closed := true }, none)
        | left + 1 => pushLoop val left B

/-- `mpq_block_push`. -/
def push (B : QueueBlock) (val : ℕ) : QueueBlock × Option ℕ := pushLoop val 10 B

/-! ## What a block contains -/

/-- The nodes of a block that holds `vals`. -/
structure Nodes (B : QueueBlock) (vals : List ℕ) : Prop where
  length : vals.length ≤ B.size
  node : ∀ i < B.size, B.node (B.head + i) = ⟨true, B.head + i, vals.getD i 0⟩
  nonzero : 0 ∉ vals

/-- **The block holds `vals`.**  The tail of an open block is behind them, and that of a closed one
is not below. -/
structure Contains (B : QueueBlock) (vals : List ℕ) : Prop extends Nodes B vals where
  opened : B.closed = false → B.tail = B.head + vals.length
  shut : B.closed = true → vals ≠ [] → B.head + vals.length ≤ B.tail

/-- What neither a push nor a pop changes. -/
structure Same (B B' : QueueBlock) : Prop where
  magic : B'.magic = B.magic
  alignBytes : B'.alignBytes = B.alignBytes
  size : B'.size = B.size
  next : B'.next = B.next

theorem Same.trans {B B' B'' : QueueBlock} (h : Same B B') (h' : Same B' B'') : Same B B'' :=
  ⟨h'.magic.trans h.magic, h'.alignBytes.trans h.alignBytes, h'.size.trans h.size,
    h'.next.trans h.next⟩

section Nodes

variable {B B' : QueueBlock} {vals : List ℕ} {v val : ℕ}

/-- Positions at a distance below the size have different nodes. -/
theorem mod_ne_mod {h i j n : ℕ} (hi : i < n) (hj : j < n) (hij : i ≠ j) :
    (h + i) % n ≠ (h + j) % n := by
  intro he
  exact hij ((Nat.ModEq.add_left_cancel' h he).eq_of_lt_of_lt hi hj)

theorem node_setNode_self (h : ℕ) (x : QueueNode) : (B.setNode h x).node h = x :=
  Function.update_self _ _ _

theorem node_setNode_ne {h k : ℕ} (x : QueueNode) (hne : k % B.size ≠ h % B.size) :
    (B.setNode h x).node k = B.node k :=
  Function.update_of_ne hne _ _

/-- The block after the position at its head was given up. -/
def advance (B : QueueBlock) : QueueBlock :=
  { B with head := B.head + 1 }.setNode B.head ⟨true, B.head + B.size, 0⟩

/-- Its nodes are those of the rest. -/
theorem Nodes.advance (h : B.Nodes vals) (hsize : 0 < B.size) : B.advance.Nodes vals.tail where
  length := by
    show vals.tail.length ≤ B.size
    have := h.length
    rw [List.length_tail]
    omega
  node := by
    intro i hi
    change i < B.size at hi
    show B.advance.node (B.head + 1 + i) = ⟨true, B.head + 1 + i, vals.tail.getD i 0⟩
    by_cases hlast : i + 1 = B.size
    · -- the node of the position at the head comes around
      have hmod : (B.head + 1 + i) % B.size = B.head % B.size := by
        rw [show B.head + 1 + i = B.head + B.size by omega, Nat.add_mod_right]
      have hnone : vals.tail.getD i 0 = 0 := by
        apply List.getD_eq_default _ _
        have := h.length
        rw [List.length_tail]
        omega
      rw [hnone, show B.head + 1 + i = B.head + B.size by omega]
      show Function.update B.nodes (B.head % B.size) _ ((B.head + B.size) % B.size) = _
      rw [Nat.add_mod_right]
      exact Function.update_self _ _ _
    · have hne := mod_ne_mod (h := B.head) (by omega : i + 1 < B.size) hsize (Nat.succ_ne_zero i)
      rw [Nat.add_zero] at hne
      have hold := h.node (i + 1) (by omega)
      have htail : vals.tail.getD i 0 = vals.getD (i + 1) 0 := by
        cases vals with
        | nil => rfl
        | cons v vals => rfl
      rw [htail, show B.head + 1 + i = B.head + (i + 1) by omega, ← hold]
      exact node_setNode_ne _ hne
  nonzero := fun hmem => h.nonzero (List.mem_of_mem_tail hmem)

/-- The visit of the head of a block with values. -/
theorem Nodes.visit_cons (h : B.Nodes (v :: vals)) (hsize : 0 < B.size) :
    { B with head := B.head + 1 }.visit B.head = (B.advance, v) := by
  have hnode : { B with head := B.head + 1 }.node B.head = ⟨true, B.head, v⟩ := h.node 0 hsize
  have hv : v ≠ 0 := fun hv => h.nonzero (hv ▸ List.mem_cons_self)
  unfold visit
  simp only [hnode]
  rw [if_neg (lt_irrefl _), if_pos hv, if_pos trivial]
  rfl

/-- The visit of the head of an empty block. -/
theorem Nodes.visit_nil (h : B.Nodes []) (hsize : 0 < B.size) :
    { B with head := B.head + 1 }.visit B.head = (B.advance, 0) := by
  have hnode : { B with head := B.head + 1 }.node B.head = ⟨true, B.head, 0⟩ := h.node 0 hsize
  unfold visit
  simp only [hnode]
  rw [if_neg (lt_irrefl _), if_neg (by simp)]
  rfl

/-- **A pop from a block with values** returns the first one. -/
theorem Contains.pop_cons (h : B.Contains (v :: vals)) (hsize : 0 < B.size) :
    ∃ B', B.pop = some (B', v) ∧ B'.Contains vals ∧ Same B B' ∧ B'.closed = B.closed := by
  have hv : v ≠ 0 := fun hv => h.nonzero (hv ▸ List.mem_cons_self)
  refine ⟨B.advance, ?_, ⟨h.toNodes.advance hsize, ?_, ?_⟩, ⟨rfl, rfl, rfl, rfl⟩, rfl⟩
  · unfold pop popLoop
    simp only [h.toNodes.visit_cons hsize]
    exact if_pos hv
  · intro hclosed
    have htail := h.opened hclosed
    rw [List.length_cons] at htail
    show B.tail = B.head + 1 + vals.length
    omega
  · intro hclosed _
    have htail := h.shut hclosed (List.cons_ne_nil v vals)
    rw [List.length_cons] at htail
    show B.head + 1 + vals.length ≤ B.tail
    omega

/-- The rounds of a pop from an empty block that is closed. -/
theorem Nodes.popLoop_closed {n : ℕ} (h : B.Nodes []) (hsize : 0 < B.size)
    (hclosed : B.closed = true) (hn : B.tail - B.head < n) :
    ∃ B', popLoop n B = some (B', 0) ∧ B'.Nodes [] ∧ Same B B' ∧ B'.closed = true := by
  induction n generalizing B with
  | zero => exact absurd hn (Nat.not_lt_zero _)
  | succ n ih =>
    have hrest := h.advance hsize
    have hsame₁ : B.Same B.advance := ⟨rfl, rfl, rfl, rfl⟩
    have hfix : B.advance.fixState = B.advance := if_pos (Or.inl hclosed)
    unfold popLoop
    simp only [h.visit_nil hsize, hfix]
    rw [if_neg (by simp)]
    split
    · exact ⟨B.advance, rfl, hrest, hsame₁, hclosed⟩
    · rename_i htail
      change ¬ B.tail ≤ B.head + 1 at htail
      obtain ⟨B', hloop, hnodes, hsame, hclosed'⟩ := ih hrest hsize hclosed (by
        show B.tail - (B.head + 1) < n
        omega)
      exact ⟨B', hloop, hnodes, hsame₁.trans hsame, hclosed'⟩

/-- **A pop from an empty block** returns 0. -/
theorem Contains.pop_nil (h : B.Contains []) (hsize : 0 < B.size) :
    ∃ B', B.pop = some (B', 0) ∧ B'.Contains [] ∧ Same B B' ∧ B'.closed = B.closed := by
  unfold pop
  by_cases hclosed : B.closed = true
  · obtain ⟨B', hloop, hnodes, hsame, hclosed'⟩ :=
      h.toNodes.popLoop_closed hsize hclosed (Nat.lt_succ_self _)
    refine ⟨B', hloop, ⟨hnodes, ?_, fun _ hne => absurd rfl hne⟩, hsame,
      hclosed'.trans hclosed.symm⟩
    rw [hclosed']
    exact fun hb => absurd hb (by simp)
  · rw [Bool.not_eq_true] at hclosed
    have htail := h.opened hclosed
    rw [List.length_nil, Nat.add_zero] at htail
    have hrest := h.toNodes.advance hsize
    -- the tail of the open block moves with its head
    have hfix : B.advance.fixState = { B.advance with tail := B.head + 1 } := by
      apply if_neg
      rintro (hb | hb)
      · exact absurd (hclosed.symm.trans hb) (by simp)
      · change B.head + 1 ≤ B.tail at hb
        omega
    refine ⟨{ B.advance with tail := B.head + 1 }, ?_, ?_, ⟨rfl, rfl, rfl, rfl⟩, rfl⟩
    · unfold popLoop
      simp only [h.toNodes.visit_nil hsize, hfix]
      rw [if_neg (by simp)]
      apply if_pos
      show B.tail ≤ B.head + 1
      omega
    · exact ⟨⟨hrest.length, hrest.node, hrest.nonzero⟩, fun _ => rfl, fun _ hne => absurd rfl hne⟩

/-- A push to a closed block fails. -/
theorem Contains.push_closed (h : B.Contains vals) (hclosed : B.closed = true) (val : ℕ) :
    B.push val = ({ B with tail := B.tail + 1 }, none) ∧
      { B with tail := B.tail + 1 }.Contains vals := by
  constructor
  · unfold push pushLoop
    exact if_pos hclosed
  · refine ⟨⟨h.length, h.node, h.nonzero⟩, ?_, ?_⟩
    · intro hopen
      exact absurd (hclosed.symm.trans hopen) (by simp)
    · intro _ hne
      exact (h.shut hclosed hne).trans (Nat.le_succ _)

/-- **A push to an open block with room** puts the value behind the others. -/
theorem Contains.push_room (h : B.Contains vals) (hopen : B.closed = false)
    (hroom : vals.length < B.size) (hval : val ≠ 0) :
    ∃ B' t, B.push val = (B', some t) ∧ B'.Contains (vals ++ [val]) ∧ Same B B' ∧
      B'.closed = false := by
  have htail := h.opened hopen
  have hnode : { B with tail := B.tail + 1 }.node B.tail = ⟨true, B.tail, 0⟩ := by
    have hold := h.node vals.length hroom
    rw [List.getD_eq_default _ _ le_rfl, ← htail] at hold
    exact hold
  refine ⟨{ B with tail := B.tail + 1 }.setNode B.tail ⟨true, B.tail, val⟩, B.tail, ?_,
    ⟨⟨?_, ?_, ?_⟩, ?_, ?_⟩, ⟨rfl, rfl, rfl, rfl⟩, hopen⟩
  · unfold push pushLoop
    simp only [hnode]
    rw [if_neg (by simp [hopen]), if_pos ⟨trivial, le_rfl, Or.inl trivial⟩]
  · rw [List.length_append, List.length_singleton]
    exact hroom
  · intro i hi
    change i < B.size at hi
    show ({ B with tail := B.tail + 1 }.setNode B.tail ⟨true, B.tail, val⟩).node (B.head + i)
      = ⟨true, B.head + i, (vals ++ [val]).getD i 0⟩
    by_cases hlast : i = vals.length
    · rw [hlast, ← htail, node_setNode_self, List.getD_append_right _ _ _ _ le_rfl, Nat.sub_self]
      rfl
    · have hne := mod_ne_mod (h := B.head) hi hroom hlast
      rw [← htail] at hne
      have hold : (vals ++ [val]).getD i 0 = vals.getD i 0 := by
        by_cases hlt : i < vals.length
        · rw [List.getD_append _ _ _ _ hlt]
        · rw [List.getD_append_right _ _ _ _ (by omega), List.getD_eq_default vals _ (by omega)]
          exact List.getD_eq_default _ _ (by rw [List.length_singleton]; omega)
      rw [hold, ← h.node i hi]
      exact node_setNode_ne _ hne
  · rw [List.mem_append, List.mem_singleton, not_or]
    exact ⟨h.nonzero, Ne.symm hval⟩
  · intro _
    show B.tail + 1 = B.head + (vals ++ [val]).length
    rw [List.length_append, List.length_singleton]
    omega
  · intro hclosed
    exact absurd (hopen.symm.trans hclosed) (by simp)

/-- **A push to a full block** closes it. -/
theorem Contains.push_full (h : B.Contains vals) (hopen : B.closed = false)
    (hfull : vals.length = B.size) (hsize : 0 < B.size) (val : ℕ) :
    B.push val = ({ B with tail := B.tail + 1, closed := true }, none) ∧
      { B with tail := B.tail + 1, closed := true }.Contains vals := by
  have htail := h.opened hopen
  have hfirst := h.node 0 hsize
  rw [List.getD_eq_getElem _ _ (by omega : 0 < vals.length), Nat.add_zero] at hfirst
  have hnode : { B with tail := B.tail + 1 }.node B.tail = ⟨true, B.head, vals[0]⟩ := by
    have hmod : B.tail % B.size = B.head % B.size := by rw [htail, hfull, Nat.add_mod_right]
    show B.nodes (B.tail % B.size) = _
    rw [hmod]
    exact hfirst
  have hval : vals[0] ≠ 0 := fun h0 => h.nonzero (h0 ▸ List.getElem_mem _)
  constructor
  · unfold push pushLoop
    simp only [hnode]
    rw [if_neg (by simp [hopen]), if_neg (fun hb => hval hb.1), if_pos]
    show B.head + B.size ≤ B.tail
    omega
  · refine ⟨⟨h.length, h.node, h.nonzero⟩, fun hb => absurd hb (by simp), ?_⟩
    intro _ _
    show B.head + vals.length ≤ B.tail + 1
    omega

/-- **What a push does**: it finds room, or the block is closed afterwards. -/
theorem Contains.push_cases (h : B.Contains vals) (hsize : 0 < B.size) (hval : val ≠ 0) :
    ((∃ pos, (B.push val).2 = some pos) ∧ B.closed = false ∧ vals.length < B.size ∧
        (B.push val).1.Contains (vals ++ [val]) ∧ Same B (B.push val).1 ∧
        (B.push val).1.closed = false) ∨
      (B.push val).2 = none ∧ (B.closed = true ∨ vals.length = B.size) ∧
        (B.push val).1.Contains vals ∧ Same B (B.push val).1 ∧ (B.push val).1.closed = true := by
  by_cases hclosed : B.closed = true
  · obtain ⟨hpush, hvals⟩ := h.push_closed hclosed val
    rw [hpush]
    exact Or.inr ⟨rfl, Or.inl hclosed, hvals, ⟨rfl, rfl, rfl, rfl⟩, hclosed⟩
  · rw [Bool.not_eq_true] at hclosed
    rcases h.length.lt_or_eq with hroom | hfull
    · obtain ⟨B', t, hpush, hvals, hsame, hopen⟩ := h.push_room hclosed hroom hval
      rw [hpush]
      exact Or.inl ⟨⟨t, rfl⟩, hclosed, hroom, hvals, hsame, hopen⟩
    · obtain ⟨hpush, hvals⟩ := h.push_full hclosed hfull hsize val
      rw [hpush]
      exact Or.inr ⟨rfl, Or.inr hfull, hvals, ⟨rfl, rfl, rfl, rfl⟩, rfl⟩

end Nodes

end QueueBlock

end MtprotoProxy
