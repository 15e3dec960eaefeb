/-
# Calls on one block of the unbounded queue

`mpq_block_pop`, `mpq_block_push` and `mpq_fix_state` from `common/mp-queue.c`, called by any number
of threads.  A `BlockCall` says where in the code a call is, with its local variables, and
`BlockCall.access` is its next access to the block: one atomic instruction, or the read of one
word between two barriers.  The value and the index of a node are read one after the other; a
compare-and-swap takes the pair.  The accesses come in any order, each of them whole, as the
barriers and the locked instructions of the machine have it.

The counters are numbers, and the bit `MQN_SAFE` is a field of its own, as in `QueueBlock`.
-/
import MtprotoProxy.Activations
import MtprotoProxy.MpQueueBlock

namespace MtprotoProxy

open Activations

deriving instance DecidableEq for QueueNode

/-- What a call tells its caller. -/
inductive BlockEvent where
  /-- `mpq_block_push` returned the position `t` -/
  | pushed (t val : ℕ)
  /-- `mpq_block_push` returned -1 -/
  | refused (val : ℕ)
  /-- `mpq_block_pop` returned the value it found at the position `h` -/
  | popped (h val : ℕ)
  /-- `mpq_block_pop` returned 0 -/
  | nothing
  deriving DecidableEq

/-- What a call does next.  `left` counts the failures until a push gives up. -/
inductive BlockCall where
  /-- `h = __sync_fetch_and_add (&QB->mqb_head, 1)` -/
  | takeHead
  /-- `val = node->val` -/
  | popVal (h : ℕ)
  /-- `safe_idx = node->idx` -/
  | popIdx (h val : ℕ)
  /-- one of the three `__sync_bool_compare_and_swap` with `d` expected -/
  | popSwap (h : ℕ) (d : QueueNode)
  /-- `t = QB->mqb_tail & MQN_IDX_MASK` -/
  | popTail (h : ℕ)
  /-- `t = QB->mqb_tail` in `mpq_fix_state` -/
  | fixTail
  /-- `h = QB->mqb_head` -/
  | fixHead (t : ℕ) (closed : Bool)
  /-- `QB->mqb_tail != t` -/
  | fixAgain (t h : ℕ)
  /-- `__sync_bool_compare_and_swap (&QB->mqb_tail, t, h)` -/
  | fixSwap (t h : ℕ)
  /-- `t = __sync_fetch_and_add (&QB->mqb_tail, 1)` -/
  | takeTail (val left : ℕ)
  /-- `old_val = node->val` -/
  | pushVal (val left t : ℕ)
  /-- `safe_idx = node->idx` -/
  | pushIdx (val left t old : ℕ)
  /-- `QB->mqb_head <= t` -/
  | pushHead (val left t : ℕ) (d : QueueNode)
  /-- `__sync_bool_compare_and_swap` with `d` expected -/
  | pushSwap (val left t : ℕ) (d : QueueNode)
  /-- `h = QB->mqb_head` after a failure -/
  | pushAgain (val left t : ℕ)
  /-- `__sync_fetch_and_or (&QB->mqb_tail, MQN_SAFE)` -/
  | close (val : ℕ)

namespace BlockCall

/-- A call of `mpq_block_pop`. -/
def pop : BlockCall := .takeHead

/-- A call of `mpq_block_push`. -/
def push (val : ℕ) : BlockCall := .takeTail val 10

/-- The next access of a call: the block after it, how the call goes on, and what it returns. -/
def access (B : QueueBlock) : BlockCall → QueueBlock × Option BlockCall × List BlockEvent
  | takeHead => ({ B with head := B.head + 1 }, some (popVal B.head), [])
  | popVal h => (B, some (popIdx h (B.node h).val), [])
  | popIdx h val =>
    let safe := (B.node h).safe
    let idx := (B.node h).idx
    (B, some (if h < idx then popTail h else popSwap h ⟨safe, idx, val⟩), [])
  | popSwap h d =>
    if B.node h = d then
      if d.val ≠ 0 then
        if d.idx = h then (B.setNode h ⟨d.safe, d.idx + B.size, 0⟩, none, [.popped h d.val])
        else (B.setNode h ⟨false, d.idx, d.val⟩, some (popTail h), [])
      else (B.setNode h ⟨d.safe, h + B.size, 0⟩, some (popTail h), [])
    else (B, some (popVal h), [])
  | popTail h => (B, some (if B.tail ≤ h + 1 then fixTail else takeHead), [])
  | fixTail => (B, some (fixHead B.tail B.closed), [])
  | fixHead t closed =>
    -- a tail with the bit is not below any head
    if closed = true ∨ B.head ≤ t then (B, none, [.nothing]) else (B, some (fixAgain t B.head), [])
  | fixAgain t h =>
    (B, some (if B.tail = t ∧ B.closed = false then fixSwap t h else fixTail), [])
  | fixSwap t h =>
    if B.tail = t ∧ B.closed = false then ({ B with tail := h }, none, [.nothing])
    else (B, some fixTail, [])
  | takeTail val left =>
    if B.closed then ({ B with tail := B.tail + 1 }, none, [.refused val])
    else ({ B with tail := B.tail + 1 }, some (pushVal val left B.tail), [])
  | pushVal val left t => (B, some (pushIdx val left t (B.node t).val), [])
  | pushIdx val left t old =>
    let safe := (B.node t).safe
    let idx := (B.node t).idx
    (B, some (if old = 0 ∧ idx ≤ t then
        if safe then pushSwap val left t ⟨safe, idx, 0⟩ else pushHead val left t ⟨safe, idx, 0⟩
      else pushAgain val left t), [])
  | pushHead val left t d =>
    (B, some (if B.head ≤ t then pushSwap val left t d else pushAgain val left t), [])
  | pushSwap val left t d =>
    if B.node t = d then (B.setNode t ⟨true, t, val⟩, none, [.pushed t val])
    else (B, some (pushAgain val left t), [])
  | pushAgain val left t =>
    if B.head + B.size ≤ t then (B, some (close val), [])
    else
      match left with
      | 0 => (B, some (close val), [])
      | left + 1 => (B, some (takeTail val left), [])
  | close val => ({ B with closed := true }, none, [.refused val])

end BlockCall

/-- What a thread may do: call one of the functions, or go on with a call. -/
inductive BlockAct : QueueBlock → Option BlockCall → QueueBlock → Option BlockCall →
    List BlockEvent → Prop
  | pop (B : QueueBlock) : BlockAct B none B (some .pop) []
  | push (B : QueueBlock) {val : ℕ} (hval : val ≠ 0) : BlockAct B none B (some (.push val)) []
  | access (B : QueueBlock) (p : BlockCall) :
    BlockAct B (some p) (p.access B).1 (p.access B).2.1 (p.access B).2.2

/-- A block with the calls on it. -/
abbrev BlockConfig := Config QueueBlock BlockCall BlockEvent

/-! ## What the record says -/

/-- The positions and values of the pushes that succeeded. -/
def pushes (record : List BlockEvent) : List (ℕ × ℕ) :=
  record.filterMap fun e =>
    match e with
    | .pushed t val => some (t, val)
    | _ => none

/-- The positions and values of the pops that found one. -/
def pops (record : List BlockEvent) : List (ℕ × ℕ) :=
  record.filterMap fun e =>
    match e with
    | .popped h val => some (h, val)
    | _ => none

/-- Pushes and pops are counted along a run. -/
theorem pushes_append (es fs : List BlockEvent) : pushes (es ++ fs) = pushes es ++ pushes fs :=
  List.filterMap_append

theorem pops_append (es fs : List BlockEvent) : pops (es ++ fs) = pops es ++ pops fs :=
  List.filterMap_append

namespace BlockCall

/-- The position that a pop has taken and not done with. -/
def popping : BlockCall → Option ℕ
  | popVal h => some h
  | popIdx h _ => some h
  | popSwap h _ => some h
  | _ => none

/-- The position that a push has taken and not done with. -/
def pushing : BlockCall → Option ℕ
  | pushVal _ _ t => some t
  | pushIdx _ _ t _ => some t
  | pushHead _ _ t _ => some t
  | pushSwap _ _ t _ => some t
  | _ => none

end BlockCall

/-- The positions that pops under way have taken. -/
def claimed (M : Multiset BlockCall) : Multiset ℕ := M.filterMap BlockCall.popping

/-- The positions that pushes under way have taken. -/
def pending (M : Multiset BlockCall) : Multiset ℕ := M.filterMap BlockCall.pushing

/-- No pop will come to the position `h` any more. -/
def Spent (B : QueueBlock) (M : Multiset BlockCall) (h : ℕ) : Prop := h < B.head ∧ h ∉ claimed M

/-- The values in the nodes, each with its position. -/
def QueueBlock.stored (B : QueueBlock) : Multiset (ℕ × ℕ) :=
  ((Multiset.range B.size).map fun k => ((B.nodes k).idx, (B.nodes k).val)).filter (·.2 ≠ 0)

end MtprotoProxy
