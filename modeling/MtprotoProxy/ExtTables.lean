/-
# The tables of external connections

The part of `mtproto/mtproto-proxy.c` that keeps one `struct ext_connection` for every
client that talks to a middle-end: the hash table on `(in_fd, in_conn_id)`, the slots of
`OutExtConnections`, the circular lists of the entries of one descriptor, and the list
`ConnLRU`.

The memory of the program is modelled field by field: every field of `struct
ext_connection` is a map on pointers, so that the five structures that are threaded
through one cell are five pairs of maps.  A write to a cell that is neither a list head
nor allocated, and an `assert` that does not hold, end the call with a `Fault`.
-/
import MtprotoProxy.CInt

namespace MtprotoProxy

open Function (update)

/-! ## Constants -/

/-- `MAX_CONNECTIONS`. -/
def maxConnections : ℕ := 65536

/-- `EXT_CONN_TABLE_SIZE`. -/
def extConnTableSize : ℕ := 2 ^ 22

/-- `EXT_CONN_HASH_SHIFT`. -/
def extConnHashShift : ℕ := 20

/-! ## Connections -/

/-- **A connection as the engine thread names it:** its descriptor and its generation.
Descriptor 0 is the standard input; in `in_fd` and `out_fd` it stands for no connection. -/
structure ConnRef where
  fd : ℕ
  generation : ℤ
  fd_pos : 0 < fd
  fd_lt : fd < maxConnections
  deriving DecidableEq

/-! ## Memory -/

/-- A pointer to a `struct ext_connection`. -/
inductive Ptr where
  | null
  /-- a cell of the heap -/
  | node (a : ℕ)
  /-- `&ExtConnectionHead[fd]` -/
  | head (fd : ℕ)
  /-- `&ConnLRU` -/
  | lru
  deriving DecidableEq

/-- `struct ext_connection_ref`. -/
structure ExtConnectionRef where
  ref : Ptr
  outConnId : Int64

/-- **The tables.** The first fourteen maps are the fields of `struct ext_connection`. -/
structure ExtTables where
  oPrev : Ptr → Ptr
  oNext : Ptr → Ptr
  iPrev : Ptr → Ptr
  iNext : Ptr → Ptr
  hNext : Ptr → Ptr
  inFd : Ptr → ℕ
  inGen : Ptr → ℤ
  outFd : Ptr → ℕ
  outGen : Ptr → ℤ
  inConnId : Ptr → Int64
  outConnId : Ptr → Int64
  authKeyId : Ptr → Int64
  lruPrev : Ptr → Ptr
  lruNext : Ptr → Ptr
  /-- the cells that were allocated and not yet freed -/
  allocated : ℕ → Bool
  /-- `OutExtConnections` -/
  outExtConnections : ℕ → ExtConnectionRef
  /-- `InExtConnectionHash` -/
  inExtConnectionHash : ℕ → Ptr
  extConnections : ℤ
  extConnectionsCreated : ℤ

/-- The tables of a program that has just started: zeros, and `ConnLRU` pointing at itself. -/
def ExtTables.init : ExtTables where
  oPrev := fun _ => .null
  oNext := fun _ => .null
  iPrev := fun _ => .null
  iNext := fun _ => .null
  hNext := fun _ => .null
  inFd := fun _ => 0
  inGen := fun _ => 0
  outFd := fun _ => 0
  outGen := fun _ => 0
  inConnId := fun _ => 0
  outConnId := fun _ => 0
  authKeyId := fun _ => 0
  lruPrev := update (fun _ => .null) .lru .lru
  lruNext := update (fun _ => .null) .lru .lru
  allocated := fun _ => false
  outExtConnections := fun _ => ⟨.null, 0⟩
  inExtConnectionHash := fun _ => .null
  extConnections := 0
  extConnectionsCreated := 0

/-- What ends a call. -/
inductive Fault where
  /-- an `assert` does not hold -/
  | assertion
  /-- an access through a pointer to no cell -/
  | badPointer
  /-- the loop over `lrand48` is still looking when the given values are used up -/
  | stillLooking
  /-- a walk over a list that has more steps than there are entries -/
  | endless
  deriving DecidableEq, Repr

/-- A condition without which the call ends. -/
def require (c : Prop) [Decidable c] (f : Fault) : Except Fault Unit :=
  if c then .ok () else .error f

namespace ExtTables

/-- The pointers that may be followed. -/
def valid (s : ExtTables) : Ptr → Bool
  | .null => false
  | .node a => s.allocated a
  | .head fd => decide (fd < maxConnections)
  | .lru => true

/-- `memset (cur, 0, sizeof (struct ext_connection))`. -/
def clear (s : ExtTables) (p : Ptr) : ExtTables :=
  { s with
    oPrev := update s.oPrev p .null
    oNext := update s.oNext p .null
    iPrev := update s.iPrev p .null
    iNext := update s.iNext p .null
    hNext := update s.hNext p .null
    inFd := update s.inFd p 0
    inGen := update s.inGen p 0
    outFd := update s.outFd p 0
    outGen := update s.outGen p 0
    inConnId := update s.inConnId p 0
    outConnId := update s.outConnId p 0
    authKeyId := update s.authKeyId p 0
    lruPrev := update s.lruPrev p .null
    lruNext := update s.lruNext p .null }

end ExtTables

/-! ## Pointer surgery -/

/-- `x->next->prev = x->prev; x->prev->next = x->next`, on the list with these links. -/
def bridge (valid : Ptr → Bool) (next prev : Ptr → Ptr) (x : Ptr) :
    Except Fault ((Ptr → Ptr) × (Ptr → Ptr)) := do
  require (valid (next x)) .badPointer
  let prev := update prev (next x) (prev x)
  require (valid (prev x)) .badPointer
  let next := update next (prev x) (next x)
  return (next, prev)

/-- `if (x->next) { ...; x->next = x->prev = 0; }`, the way an entry leaves the lists of its
two descriptors. -/
def unlink (valid : Ptr → Bool) (next prev : Ptr → Ptr) (x : Ptr) :
    Except Fault ((Ptr → Ptr) × (Ptr → Ptr)) := do
  if next x ≠ .null then
    let (next, prev) ← bridge valid next prev x
    return (update next x .null, update prev x .null)
  else
    return (next, prev)

/-- `x->next = H; x->prev = H->prev; H->prev->next = x; H->prev = x`. -/
def linkLast (valid : Ptr → Bool) (next prev : Ptr → Ptr) (H x : Ptr) :
    Except Fault ((Ptr → Ptr) × (Ptr → Ptr)) := do
  let next := update next x H
  let prev := update prev x (prev H)
  require (valid (prev H)) .badPointer
  let next := update next (prev H) x
  let prev := update prev H x
  return (next, prev)

/-! ## The list `ConnLRU` -/

/-- `lru_delete_ext_conn`. -/
def lruDeleteExtConn (s : ExtTables) (ext : Ptr) : Except Fault ExtTables := do
  require (s.valid ext) .badPointer
  let (next, prev) ←
    if s.lruNext ext ≠ .null then bridge s.valid s.lruNext s.lruPrev ext
    else pure (s.lruNext, s.lruPrev)
  return { s with lruNext := update next ext .null, lruPrev := update prev ext .null }

/-- `lru_insert_ext_conn`. -/
def lruInsertExtConn (s : ExtTables) (ext : Ptr) : Except Fault ExtTables := do
  let s ← lruDeleteExtConn s ext
  let prev := update s.lruPrev ext (s.lruPrev .lru)
  let next := update s.lruNext ext .lru
  let prev := update prev (next ext) ext
  require (s.valid (prev ext)) .badPointer
  let next := update next (prev ext) ext
  return { s with lruNext := next, lruPrev := prev }

/-! ## Looking up -/

/-- `ext_conn_hash`. -/
def extConnHash (inFd : ℕ) (inConnId : Int64) : ℕ :=
  ((UInt64.ofNat inFd * 11400714819323198485 + inConnId.toUInt64 * 13043817825332782213) >>>
    UInt64.ofNat (64 - extConnHashShift)).toNat

/-- `out_conn_id & (EXT_CONN_TABLE_SIZE - 1)`. -/
def slotOf (outConnId : Int64) : ℕ :=
  (outConnId &&& Int64.ofNat (extConnTableSize - 1)).toBitVec.toNat

/-- `(OutExtConnections[h].out_conn_id | (EXT_CONN_TABLE_SIZE - 1)) + 1 + h`. -/
def nextOutConnId (old : Int64) (h : ℕ) : Int64 :=
  (old ||| Int64.ofNat (extConnTableSize - 1)) + 1 + Int64.ofNat h

/-- `get_ext_connection_by_in_fd`: the only entry with this `in_fd`. -/
def getExtConnectionByInFd (s : ExtTables) (inFd : ℕ) : Except Fault Ptr := do
  require (inFd < maxConnections) .assertion
  let H := Ptr.head inFd
  let Ex := s.iNext H
  require (s.iNext H = s.iPrev H) .assertion
  if Ex = .null ∨ Ex = H then
    return .null
  else
    require (s.valid Ex) .badPointer
    require (s.inFd Ex = inFd) .assertion
    return Ex

/-- `find_ext_connection_by_out_conn_id`. -/
def findExtConnectionByOutConnId (s : ExtTables) (outConnId : Int64) : Except Fault Ptr := do
  let h := slotOf outConnId
  let cur := (s.outExtConnections h).ref
  if cur = .null ∨ (s.outExtConnections h).outConnId ≠ outConnId then
    return .null
  else
    require (s.valid cur) .badPointer
    require (s.outConnId cur = outConnId) .assertion
    return cur

/-- The place that `prev` points to while a hash chain is walked. -/
inductive Link where
  /-- `&InExtConnectionHash[h]` -/
  | bucket (h : ℕ)
  /-- `&(cur->h_next)` -/
  | next (cur : Ptr)

/-- `*prev`. -/
def ExtTables.load (s : ExtTables) : Link → Ptr
  | .bucket h => s.inExtConnectionHash h
  | .next cur => s.hNext cur

/-- `*prev = p`. -/
def ExtTables.store (s : ExtTables) (link : Link) (p : Ptr) : ExtTables :=
  { s with
    inExtConnectionHash :=
      match link with
      | .bucket h => update s.inExtConnectionHash h p
      | .next _ => s.inExtConnectionHash
    hNext :=
      match link with
      | .bucket _ => s.hNext
      | .next cur => update s.hNext cur p }

/-- The walk of `get_ext_connection_by_in_conn_id` over a hash chain: the place of the entry
it stops at, or of the null pointer at the end.  The walk takes at most `fuel` steps. -/
def walkChain (s : ExtTables) (inFd : ℕ) (inConnId : Int64) : ℕ → Link → Except Fault Link
  | 0, _ => .error .endless
  | fuel + 1, prev => do
    let cur := s.load prev
    if cur = .null then
      return prev
    else
      require (s.valid cur) .badPointer
      if s.inFd cur = inFd ∧ s.inConnId cur = inConnId then
        return prev
      else
        walkChain s inFd inConnId fuel (.next cur)

/-! ## Creating and deleting -/

/-- The branch `mode == 1`: the entry `cur`, which `prev` leads to, leaves every structure and
is freed. -/
def deleteExtConnection (s : ExtTables) (prev : Link) : Except Fault ExtTables := do
  let cur := s.load prev
  let (iNext, iPrev) ← unlink s.valid s.iNext s.iPrev cur
  let s := { s with iNext := iNext, iPrev := iPrev }
  let (oNext, oPrev) ← unlink s.valid s.oNext s.oPrev cur
  let s := { s with oNext := oNext, oPrev := oPrev }
  let s ← lruDeleteExtConn s cur
  let s := s.store prev (s.hNext cur)
  let s := { s with hNext := update s.hNext cur .null }
  let h := slotOf (s.outConnId cur)
  require ((s.outExtConnections h).ref = cur) .assertion
  require ((s.outExtConnections h).outConnId = s.outConnId cur) .assertion
  let s := { s with
    outExtConnections := update s.outExtConnections h
      { s.outExtConnections h with ref := .null }
    outConnId := update s.outConnId cur 0 }
  let s := s.clear cur
  match cur with
  | .node a =>
    return { s with
      allocated := update s.allocated a false
      extConnections := s.extConnections - 1 }
  | _ => .error .badPointer

/-- The loop that asks `lrand48` until the slot is free.  `rands` are the values that `lrand48`
returns. -/
def findSlot (s : ExtTables) : ℕ → List ℕ → Except Fault ℕ
  | h, rands =>
    let h := h % extConnTableSize
    if (s.outExtConnections h).ref = .null then
      .ok h
    else
      match rands with
      | [] => .error .stillLooking
      | h :: rands => findSlot s h rands

/-- `h = in_conn_id ? lrand48() : in_fd`, and the loop that starts there. -/
def chooseSlot (s : ExtTables) (inFd : ℕ) (inConnId : Int64) (rands : List ℕ) :
    Except Fault ℕ :=
  if inConnId ≠ 0 then
    match rands with
    | [] => .error .stillLooking
    | h :: rands => findSlot s h rands
  else
    findSlot s inFd rands

/-- A new entry joins the list of its client descriptor, whose head is initialised by its first
entry. -/
def linkInput (s : ExtTables) (inFd : ℕ) (cur : Ptr) : Except Fault ExtTables := do
  if inFd ≠ 0 then
    let H := Ptr.head inFd
    let s :=
      if s.iNext H = .null then
        { s with iNext := update s.iNext H H, iPrev := update s.iPrev H H }
      else s
    require (s.iNext H = H) .assertion
    let (iNext, iPrev) ← linkLast s.valid s.iNext s.iPrev H cur
    return { s with iNext := iNext, iPrev := iPrev }
  else
    return s

/-- The end of `get_ext_connection_by_in_conn_id`: a new entry in the cell `a` that `calloc`
returns. -/
def allocExtConnection (s : ExtTables) (inFd : ℕ) (inGen : ℤ) (inConnId : Int64) (a : ℕ)
    (rands : List ℕ) : Except Fault (Ptr × ExtTables) := do
  let h := extConnHash inFd inConnId
  require (s.extConnections < (extConnTableSize / 2 : ℕ)) .assertion
  let cur := Ptr.node a
  let s := { s.clear cur with allocated := update s.allocated a true }
  let s := { s with hNext := update s.hNext cur (s.inExtConnectionHash h) }
  let s := { s with
    inExtConnectionHash := update s.inExtConnectionHash h cur
    inFd := update s.inFd cur inFd
    inGen := update s.inGen cur inGen
    inConnId := update s.inConnId cur inConnId }
  require (inFd < maxConnections) .assertion
  let s ← linkInput s inFd cur
  let h ← chooseSlot s inFd inConnId rands
  let id := nextOutConnId (s.outExtConnections h).outConnId h
  let s := { s with
    outExtConnections := update s.outExtConnections h ⟨cur, id⟩
    outConnId := update s.outConnId cur id }
  require (s.outConnId cur ≠ 0) .assertion
  return (cur, { s with
    extConnections := s.extConnections + 1
    extConnectionsCreated := s.extConnectionsCreated + 1 })

/-- What `get_ext_connection_by_in_conn_id` returns. -/
inductive Lookup where
  /-- the null pointer -/
  | none
  /-- an entry -/
  | entry (p : Ptr)
  /-- `(void *) -1L` -/
  | deleted
  deriving DecidableEq

/-- `get_ext_connection_by_in_conn_id`, with `mode` 0 = find, 1 = delete, 2 = create if not
found, 3 = find or create. -/
def getExtConnectionByInConnId (s : ExtTables) (inFd : ℕ) (inGen : ℤ) (inConnId : Int64)
    (mode : ℕ) (a : ℕ) (rands : List ℕ) : Except Fault (Lookup × ExtTables) := do
  let bucket := Link.bucket (extConnHash inFd inConnId)
  let prev ← walkChain s inFd inConnId (s.extConnections.toNat + 1) bucket
  let cur := s.load prev
  if cur ≠ .null then
    require (s.outConnId cur ≠ 0) .assertion
    if mode = 0 ∨ mode = 3 then
      return (.entry cur, s)
    else if mode ≠ 1 then
      return (.none, s)
    else
      let s ← deleteExtConnection s prev
      return (.deleted, s)
  else if mode ≠ 2 ∧ mode ≠ 3 then
    return (.none, s)
  else
    let (cur, s) ← allocExtConnection s inFd inGen inConnId a rands
    return (.entry cur, s)

/-- `create_ext_connection`: the entry MUST be new. -/
def createExtConnection (s : ExtTables) (CI : ConnRef) (inConnId : Int64) (CO : Option ConnRef)
    (authKeyId : Int64) (a : ℕ) (rands : List ℕ) : Except Fault (Ptr × ExtTables) := do
  match ← getExtConnectionByInConnId s CI.fd CI.generation inConnId 2 a rands with
  | (.entry Ex, s) =>
    require (s.outFd Ex = 0 ∧ s.oNext Ex = .null ∧ s.authKeyId Ex = 0) .assertion
    require (CO ≠ some CI) .assertion
    match CO with
    | none => return (Ex, { s with authKeyId := update s.authKeyId Ex authKeyId })
    | some CO =>
      let H := Ptr.head CO.fd
      require (s.oNext H ≠ .null) .assertion
      let (oNext, oPrev) ← linkLast s.valid s.oNext s.oPrev H Ex
      return (Ex, { s with
        oNext := oNext
        oPrev := oPrev
        outFd := update s.outFd Ex CO.fd
        outGen := update s.outGen Ex CO.generation
        authKeyId := update s.authKeyId Ex authKeyId })
  | _ => .error .assertion

end MtprotoProxy
