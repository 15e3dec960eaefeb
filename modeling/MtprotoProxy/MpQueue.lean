/-
# The unbounded queue

`alloc_mpq_block`, `free_mpq_block`, `mpq_pop`, `mpq_is_empty`, `mpq_push` and `init_mp_queue` from
`common/mp-queue.c`, for one thread.  A queue is a list of blocks; a block that is empty is freed
when the queue goes on to the next one, unless a hazard pointer of another thread points to it.
Then it goes to a queue of garbage blocks, which is a queue of the same kind, and is used again
later; blocks that were allocated in vain go to a queue of prepared blocks.  There is one of each
for small and for large blocks.

A block is a number, the place of a cell in a `Store`, and its pointer as a value of a queue
is one more than that.  `none` is the result of a call that reads a block that was freed, or whose
assertion fails.  The counters for statistics are left out.

Other threads do not use the queues, but what they have in their hazard pointers may change at any
time: `MpqWorld` says it for each check.  It also says which addresses `malloc` returns.

The functions call each other.  Each takes the calls that it makes, `MpqCalls`, among them the
next round of its own loop, which starts with nothing but the arguments; in `mpqCalls n` calls are
nested up to `n` deep.
-/
import MtprotoProxy.MpQueueBlock
import MtprotoProxy.Store

namespace MtprotoProxy

/-- The queues: the one in question, and those of garbage blocks and of prepared blocks. -/
inductive QueueName where
  | user
  | garbage (small : Bool)
  | prepared (small : Bool)
  deriving DecidableEq

/-- `mq_head` and `mq_tail` of `struct mp_queue`. -/
structure MpQueue where
  head : ℕ
  tail : ℕ

/-- What the rest of the program does: whether a hazard pointer of another thread points to a
block when it is checked for the given time, and where `malloc` puts a block.  A hazard pointer of
the thread itself, left at an address that `malloc` returned again, counts as one of another. -/
structure MpqWorld where
  others : ℕ → ℕ → Bool
  malloc : ℕ → ℕ
  aligned : ∀ b, malloc b % 8 = 0

/-- The memory, the queues, the hazard pointers of the thread, and how often hazard pointers were
checked. -/
structure MpqState where
  blocks : Store QueueBlock
  queues : QueueName → MpQueue
  hptr : Fin 3 → Option ℕ
  checks : ℕ

/-- The functions, as their callers see them. -/
structure MpqCalls where
  alloc : MpqState → ℕ → Bool → Bool → Option (MpqState × ℕ)
  pop : MpqState → QueueName → Bool → Bool → Option (MpqState × ℕ)
  push : MpqState → QueueName → ℕ → Bool → Bool → Option (MpqState × ℕ)
  isEmpty : MpqState → QueueName → Option (MpqState × Bool)

/-- `MPQ_SMALL_BLOCK_SIZE` and `MPQ_BLOCK_SIZE`. -/
def mpqBlockSize (small : Bool) : ℕ := if small then 64 else 4096

/-- A block as a value of a queue. -/
def mpqBlockPtr (b : ℕ) : ℕ := b + 1

/-- The block that a value other than 0 points to. -/
def mpqBlockOf (v : ℕ) : ℕ := v - 1

/-- Nodes that were never used. -/
def freshNodes (i : ℕ) : QueueNode := ⟨true, i, 0⟩

/-- The block that `alloc_mpq_block` makes of its memory. -/
def QueueBlock.init (alignBytes size firstVal : ℕ) (nodes : ℕ → QueueNode) : QueueBlock where
  head := 0
  magic := .used
  alignBytes := alignBytes
  size := size
  tail := if firstVal ≠ 0 then 1 else 0
  closed := false
  next := none
  nodes := Function.update nodes 0 ⟨true, 0, firstVal⟩

namespace MpqState

variable (w : MpqWorld) (calls : MpqCalls) (S : MpqState)

def setBlock (b : ℕ) (B : QueueBlock) : MpqState :=
  { S with blocks := S.blocks.put b (some B) }

def setHead (q : QueueName) (b : ℕ) : MpqState :=
  { S with queues := Function.update S.queues q { S.queues q with head := b } }

def setTail (q : QueueName) (b : ℕ) : MpqState :=
  { S with queues := Function.update S.queues q { S.queues q with tail := b } }

def setHptr (i : Fin 3) (p : Option ℕ) : MpqState := { S with hptr := Function.update S.hptr i p }

/-- The hazard pointer that a call uses, by `MPQF_RECURSIVE`. -/
def slot (recursive : Bool) : Fin 3 := if recursive then 1 else 0

/-- The end of a call: `MPQF_STORE_PTR`, and the hazard pointer is cleared. -/
def leave (recursive store : Bool) (QB : Option ℕ) : MpqState :=
  (if store then S.setHptr 2 QB else S).setHptr (slot recursive) none

/-- `is_hazard_ptr (QB, 0, 2)`. -/
def isHazardPtr (b : ℕ) : ℕ × MpqState :=
  let r := if ∃ i, S.hptr i = some b then 1 else 0
  (if w.others S.checks b then r + 2 else r, { S with checks := S.checks + 1 })

/-- `mpq_block_pop`. -/
def blockPop (b : ℕ) : Option (MpqState × ℕ) := do
  let B ← S.blocks.cell b
  let (B, v) ← B.pop
  some (S.setBlock b B, v)

/-- `mpq_block_push`. -/
def blockPush (b val : ℕ) : Option (MpqState × Option ℕ) := do
  let B ← S.blocks.cell b
  some (S.setBlock b (B.push val).1, (B.push val).2)

/-! ## Blocks -/

/-- A block from `malloc`. -/
def mallocBlock (firstVal : ℕ) (small : Bool) : Option (MpqState × ℕ) := do
  let b := S.blocks.size
  guard (w.malloc b % 8 = 0)
  let alignBytes := (64 - w.malloc b % 64) % 64
  let B := QueueBlock.init alignBytes (mpqBlockSize small) firstVal freshNodes
  some ({ S with blocks := S.blocks.alloc B }, b)

/-- A block from one of the queues of blocks is used again. -/
def reuse (b firstVal : ℕ) (small prepared : Bool) : Option (MpqState × ℕ) := do
  let B ← S.blocks.cell b
  guard (B.size = mpqBlockSize small)
  let nodes := if prepared then B.nodes else freshNodes
  some (S.setBlock b (QueueBlock.init B.alignBytes (mpqBlockSize small) firstVal nodes), b)

/-- The first part of `alloc_mpq_block`: a garbage block without hazard pointers to it. -/
def takeGarbage (small : Bool) : Option (MpqState × Option ℕ) := do
  let (S, v) ← calls.pop S (.garbage small) true false
  if v = 0 then some (S, none)
  else if (S.isHazardPtr w (mpqBlockOf v)).1 = 0 then do
    let B ← S.blocks.cell (mpqBlockOf v)
    guard (B.magic = .garbage)
    some ((S.isHazardPtr w (mpqBlockOf v)).2, some (mpqBlockOf v))
  else do
    let (S, _) ← calls.push (S.isHazardPtr w (mpqBlockOf v)).2 (.garbage small) v true false
    some (S, none)

/-- The second part: a prepared block. -/
def takePrepared (small : Bool) : Option (MpqState × Option ℕ) := do
  let (S, v) ← calls.pop S (.prepared small) true false
  if v = 0 then some (S, none)
  else do
    let B ← S.blocks.cell (mpqBlockOf v)
    guard (B.magic = .prepared)
    some (S, some (mpqBlockOf v))

/-- `alloc_mpq_block`. -/
def allocMpqBlock (firstVal : ℕ) (allowRecursion small : Bool) : Option (MpqState × ℕ) :=
  if allowRecursion then do
    let (S, QB) ← S.takeGarbage w calls small
    match QB with
    | some b => S.reuse b firstVal small false
    | none => do
      let (S, QB) ← S.takePrepared calls small
      match QB with
      | some b => S.reuse b firstVal small true
      | none => S.mallocBlock w firstVal small
  else S.mallocBlock w firstVal small

/-- `free_mpq_block`. -/
def freeMpqBlock (b : ℕ) : Option MpqState := do
  let B ← S.blocks.cell b
  guard (B.magic = .used)
  guard (B.alignBytes < 64 ∧ B.alignBytes % 8 = 0)
  guard (B.size = 64 ∨ B.size = 4096)
  some { S with blocks := S.blocks.put b none }

/-- What `mpq_pop` and `mpq_is_empty` do with an empty block `QB` that `next` follows. -/
def dropBlock (q : QueueName) (QB next : ℕ) (recursive : Bool) : Option MpqState :=
  let S := S.setHead q next
  if (S.isHazardPtr w QB).1 ≤ 1 then (S.isHazardPtr w QB).2.freeMpqBlock QB
  else do
    let B ← S.blocks.cell QB
    let S := (S.isHazardPtr w QB).2.setBlock QB { B with magic := .garbage }
    let (S, _) ← calls.push S (.garbage (B.size = 64)) (mpqBlockPtr QB) recursive false
    some S

/-! ## Queues -/

/-- `mpq_pop`. -/
def mpqPop (q : QueueName) (recursive store : Bool) : Option (MpqState × ℕ) := do
  let QB := (S.queues q).head
  let (S, v) ← (S.setHptr (slot recursive) (some QB)).blockPop QB
  if v ≠ 0 then some (S.leave recursive store (some QB), v)
  else do
    let B ← S.blocks.cell QB
    match B.next with
    | none => some (S.leave recursive store none, 0)
    | some next => do
      let (S, v) ← S.blockPop QB
      if v ≠ 0 then some (S.leave recursive store (some QB), v)
      else do
        let S ← S.dropBlock w calls q QB next recursive
        calls.pop S q recursive store

/-- `mpq_is_empty`. -/
def mpqIsEmpty (q : QueueName) : Option (MpqState × Bool) := do
  let QB := (S.queues q).head
  let S := S.setHptr 0 (some QB)
  let B ← S.blocks.cell QB
  if B.closed = false then some (S.setHptr 0 none, B.tail ≤ B.head)
  else if B.head < B.tail then some (S.setHptr 0 none, false)
  else
    match B.next with
    | none => some (S.setHptr 0 none, true)
    | some next => do
      let S ← S.dropBlock w calls q QB next false
      calls.isEmpty S q

/-- The call of `alloc_mpq_block` in `mpq_push`. -/
def newBlock (val : ℕ) (recursive small : Bool) : Option (MpqState × ℕ) :=
  if recursive then calls.alloc S val false small
  else do
    guard (S.hptr 1 = none)
    let (S, NQB) ← calls.alloc S val true small
    guard (S.hptr 1 = none)
    some (S, NQB)

/-- `mpq_push`. -/
def mpqPush (q : QueueName) (val : ℕ) (recursive store : Bool) : Option (MpqState × ℕ) := do
  let QB := (S.queues q).tail
  let S := S.setHptr (slot recursive) (some QB)
  let B ← S.blocks.cell QB
  match B.next with
  | some next => calls.push (S.setTail q next) q val recursive store
  | none => do
    let (S, pos) ← S.blockPush QB val
    match pos with
    | some pos => some (S.leave recursive store (some QB), pos)
    | none => do
      let small := decide (QB = (S.queues q).head)
      let (S, NQB) ← S.newBlock calls val recursive small
      guard (S.hptr (slot recursive) = some QB)
      let B ← S.blocks.cell QB
      match B.next with
      | none =>
        let S := S.setBlock QB { B with next := some NQB }
        let S := if (S.queues q).tail = QB then S.setTail q NQB else S
        some (S.leave recursive store (some NQB), 0)
      | some _ => do
        let N ← S.blocks.cell NQB
        let S := S.setBlock NQB { N with magic := .prepared }
        let (S, _) ← calls.push S (.prepared small) (mpqBlockPtr NQB) false false
        calls.push S q val recursive store

end MpqState

open MpqState

/-- Calls that are nested at most so deep. -/
def mpqCalls (w : MpqWorld) : ℕ → MpqCalls
  | 0 => ⟨fun _ _ _ _ => none, fun _ _ _ _ => none, fun _ _ _ _ _ => none, fun _ _ => none⟩
  | n + 1 => ⟨allocMpqBlock w (mpqCalls w n), mpqPop w (mpqCalls w n), mpqPush (mpqCalls w n),
      mpqIsEmpty w (mpqCalls w n)⟩

/-- `init_mp_queue` for one queue. -/
def initMpQueue (w : MpqWorld) (S : MpqState) (q : QueueName) : Option MpqState := do
  let (S, b) ← S.allocMpqBlock w (mpqCalls w 0) 0 false true
  some ((S.setHead q b).setTail q b)

/-- Nothing was allocated. -/
def MpqState.zero : MpqState := ⟨.empty, fun _ => ⟨0, 0⟩, fun _ => none, 0⟩

/-- The first call of `init_mp_queue`, which also makes the queues of blocks. -/
def startMpq (w : MpqWorld) : Option MpqState :=
  [.user, .garbage false, .prepared false, .prepared true, .garbage true].foldlM (initMpQueue w)
    .zero

end MtprotoProxy
