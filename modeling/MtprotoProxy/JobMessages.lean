/-
# The message queue of a job

`job_message_queue_work`, `job_message_continuation`, `job_message_free_default` and the queueing
part of `job_message_send` from `jobs/jobs.c` and `jobs/jobs.h`.

The messages are numbered as they arrive.  A queue has two parts: `unsorted`, where arrivals go,
and the list from `first` to `last`, which a call first extends by the unsorted messages and then
walks along with a pointer to a pointer: `ptr = none` is `&q->first`, and `ptr = some m` is
`&m->next`.

The receiver is not known here.  What one call of it does is a `Reply`: the value that it returns,
what it leaves in the message, and the messages that it sends to this queue meanwhile.  A failed
assertion is `none`.  The reference count of `src` and the parts of the message are those of
`References` and `MsgHeap`; here it is recorded only that they are given back.
-/
import MtprotoProxy.StoreChains

namespace MtprotoProxy

/-- `struct job_message`, as far as the queue reads it: `src` is the job to release, `magic` the
magic of the raw message, `destructor` and `next` are pointers. -/
structure JobMessage where
  flags : UInt32
  payload : List UInt32
  src : Option ℕ
  magic : UInt32
  destructor : Option ℕ
  next : Option ℕ
  deriving DecidableEq

/-- `struct job_message_queue`, with the messages. -/
structure JobMessageQueue where
  messages : Store JobMessage
  unsorted : List ℕ
  first : Option ℕ
  last : Option ℕ
  payloadMagic : UInt32

/-- The queue that `job_message_queue_init` makes; `calloc` leaves a magic of 0. -/
def jobMessageQueueInit : JobMessageQueue := ⟨Store.empty, [], none, none, 0⟩

/-- `JMC_TYPE_MASK`. -/
def jmcTypeMask : UInt32 := 31

/-- `JMC_CONTINUATION`. -/
def jmcContinuation : UInt32 := 8

/-- `M->flags & JMC_TYPE_MASK`. -/
def JobMessage.type (M : JobMessage) : UInt32 := M.flags &&& jmcTypeMask

/-- `type & JMC_CONTINUATION`. -/
def JobMessage.isContinuation (M : JobMessage) : Bool := M.type &&& jmcContinuation ≠ 0

/-- `mask & (1 << type)`. -/
def inMask (mask : UInt32) (M : JobMessage) : Bool := mask &&& (1 <<< M.type) ≠ 0

/-- One call of a receiver: the result, the message as the receiver leaves it, and what the
receiver sends to the queue. -/
structure Reply where
  result : ℤ
  left : JobMessage
  sent : List JobMessage

/-- Who gets a message: the receiver of the call, the function that a continuation names with its
extra argument, or nobody. -/
inductive Recipient where
  | receiver
  | continuation (func extra : ℕ)
  | nobody
  deriving DecidableEq

/-- What becomes of a message that was handed over: it stays with the recipient, it is freed (with
the job that is released and whether the raw message is freed), or its destructor gets it. -/
inductive Disposal where
  | kept
  | freed (src : Option ℕ) (rwm : Bool)
  | destroyed (destructor : ℕ)
  deriving DecidableEq

/-- A message that was handed over. -/
structure Handing where
  msg : ℕ
  recipient : Recipient
  result : ℤ
  disposal : Disposal
  deriving DecidableEq

/-- A pointer that is stored in two words. -/
def wordPair (lo hi : UInt32) : ℕ := lo.toNat + 2 ^ 32 * hi.toNat

/-- `job_message_continuation`. -/
def jobMessageContinuation (M : JobMessage) (payloadMagic : UInt32) (reply : Reply) :
    Option (Recipient × Reply) :=
  match M.payload with
  | [] => some (.nobody, ⟨1, M, []⟩)
  | [magic, func₀, func₁, extra₀, extra₁] => do
    guard (magic = payloadMagic)
    guard (wordPair func₀ func₁ ≠ 0)
    some (.continuation (wordPair func₀ func₁) (wordPair extra₀ extra₁), reply)
  | _ => none

/-- The call of the receiver or of the continuation. -/
def receiveMessage (payloadMagic : UInt32) (M : JobMessage) (reply : Reply) :
    Option (Recipient × Reply) :=
  if M.isContinuation then do
    guard (payloadMagic ≠ 0)
    jobMessageContinuation M payloadMagic reply
  else some (.receiver, reply)

/-- `job_message_free_default`. -/
def jobMessageFreeDefault (M : JobMessage) : Disposal := .freed M.src (M.magic ≠ 0)

/-- What the result of the receiver asks for. -/
def disposalOf (r : ℤ) (M : JobMessage) : Disposal :=
  if r < 0 then .kept
  else if r = 1 then jobMessageFreeDefault M
  else if r = 2 then
    match M.destructor with
    | some destructor => .destroyed destructor
    | none => jobMessageFreeDefault M
  else .kept

namespace JobMessageQueue

/-- `job_message_send`: a new message goes to the unsorted ones. -/
def send (q : JobMessageQueue) (M : JobMessage) : JobMessageQueue :=
  { q with
    messages := q.messages.alloc { M with next := none }
    unsorted := q.unsorted ++ [q.messages.size] }

/-- A message is appended to the list. -/
def append (q : JobMessageQueue) (m : ℕ) : Option JobMessageQueue := do
  let M ← q.messages.cell m
  let q := { q with messages := q.messages.put m (some { M with next := none }) }
  match q.last with
  | some l => do
    let L ← q.messages.cell l
    some { q with messages := q.messages.put l (some { L with next := some m }), last := some m }
  | none => some { q with first := some m, last := some m }

/-- The first loop: every unsorted message is appended. -/
def sort (q : JobMessageQueue) : List ℕ → Option JobMessageQueue
  | [] => some { q with unsorted := [] }
  | m :: unsorted => do sort (← q.append m) unsorted

/-- `*ptr`. -/
def deref (q : JobMessageQueue) : Option ℕ → Option (Option ℕ)
  | none => some q.first
  | some m => (q.messages.cell m).map (·.next)

/-- `*ptr = next`. -/
def assign (q : JobMessageQueue) (ptr next : Option ℕ) : Option JobMessageQueue :=
  match ptr with
  | none => some { q with first := next }
  | some m => do
    let M ← q.messages.cell m
    some { q with messages := q.messages.put m (some { M with next := next }) }

/-- The message is released as its disposal says: it stays in the hands of its recipient, or it
is gone. -/
def dispose (q : JobMessageQueue) (m : ℕ) (left : JobMessage) : Disposal → JobMessageQueue
  | .kept => { q with messages := q.messages.put m (some left) }
  | .freed _ _ => { q with messages := q.messages.put m none }
  | .destroyed _ => { q with messages := q.messages.put m none }

/-- A message in the mask: it is handed over, released, and taken out of the list. -/
def handOver (q : JobMessageQueue) (ptr last : Option ℕ) (m : ℕ) (M : JobMessage)
    (reply : Reply) : Option (JobMessageQueue × Handing) := do
  let next := M.next
  let (recipient, reply) ← receiveMessage q.payloadMagic { M with next := none } reply
  let disposal := disposalOf reply.result reply.left
  let q := (reply.sent.foldl send q).dispose m reply.left disposal
  let q ← q.assign ptr next
  let q := if q.last = some m then { q with last := last } else q
  some (q, ⟨m, recipient, reply.result, disposal⟩)

/-- The second loop: `replies` are those of the messages that are still to be handed over. -/
def workLoop (mask : UInt32) : ℕ → JobMessageQueue → Option ℕ → Option ℕ → (ℕ → Reply) →
    Option (JobMessageQueue × List Handing)
  | 0, _, _, _, _ => none
  | fuel + 1, q, ptr, last, replies => do
    match ← q.deref ptr with
    | none => some (q, [])
    | some m =>
      let M ← q.messages.cell m
      guard (M.type ≠ 0)
      if inMask mask M then
        let (q, handing) ← q.handOver ptr last m M (replies 0)
        if handing.result < 0 then some (q, [handing])
        else
          let (q, rest) ← workLoop mask fuel q ptr last (fun i => replies (i + 1))
          some (q, handing :: rest)
      else workLoop mask fuel q (some m) (some m) replies

/-- `job_message_queue_work`. -/
def work (q : JobMessageQueue) (mask : UInt32) (replies : ℕ → Reply) :
    Option (JobMessageQueue × List Handing) := do
  let q ← q.sort q.unsorted
  workLoop mask (q.messages.size + 1) q none none replies

end JobMessageQueue

end MtprotoProxy
