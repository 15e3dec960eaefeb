/-
# Raw messages in memory

`net/net-msg.c` on the parts and buffers of `net/net-msg-buffers.c`: the operations of one
thread on raw messages that may share parts and buffers.

A part or a buffer is a number, the place of a cell in a `Store`; `none` is the result of an
operation that reads a cell that was freed, or whose assertion fails.  A buffer that is allocated
holds what `junk` says until it is written.

Where the source writes a pointer to a part and counts it afterwards, or clears one after it
has dropped the part, the model counts first and clears first; nothing reads the pointer in
between.

A part that is locked (`MSG_PART_LOCKED_MAGIC`) is one that the running operation has locked, and
every operation unlocks what it has locked before it returns; `held` is the part that a call
finds locked by its caller.  The checks of `rwm_lock_last_part` behind its barrier are for other
threads and are left out.
-/
import MtprotoProxy.CInt
import MtprotoProxy.Store

namespace MtprotoProxy

open CLib

/-- `struct msg_part`. -/
structure MsgPart where
  refcnt : ℕ
  next : Option ℕ
  part : ℕ
  offset : ℕ
  dataEnd : ℕ
  deriving DecidableEq

/-- `struct msg_buffer`; the buffer size of its chunk is the length of `data`. -/
structure MsgBuffer where
  refcnt : ℕ
  data : Bytes

/-- The memory. -/
structure MsgHeap where
  parts : Store MsgPart
  buffers : Store MsgBuffer
  junk : ℕ → ℕ → UInt8

/-- `struct raw_message` with `RM_INIT_MAGIC`. -/
structure RawMessage where
  first : Option ℕ
  last : Option ℕ
  totalBytes : ℕ
  firstOffset : ℕ
  lastOffset : ℕ

/-- `rwm_clean`. -/
def rwmClean : RawMessage := ⟨none, none, 0, 0, 0⟩

/-- `RM_PREPEND_RESERVE`, `MSG_SMALL_BUFFER`, `MSG_STD_BUFFER`. -/
def rmPrependReserve : ℕ := 128

def msgSmallBuffer : ℕ := 512

def msgStdBuffer : ℕ := 2048

namespace MsgHeap

variable (H : MsgHeap)

/-- No parts and no buffers. -/
def empty (junk : ℕ → ℕ → UInt8) : MsgHeap := ⟨.empty, .empty, junk⟩

def setPart (p : ℕ) (mp : MsgPart) : MsgHeap := { H with parts := H.parts.put p (some mp) }

def setBuffer (b : ℕ) (B : MsgBuffer) : MsgHeap :=
  { H with buffers := H.buffers.put b (some B) }

/-- `memcpy` into a buffer. -/
def write (b : ℕ) (B : MsgBuffer) (i : ℕ) (src : Bytes) : MsgHeap :=
  H.setBuffer b { B with data := memcpyAt B.data i src }

/-- `msg_buffer_decref`. -/
def msgBufferDecref (b : ℕ) : Option MsgHeap := do
  let B ← H.buffers.cell b
  if B.refcnt = 1 then some { H with buffers := H.buffers.put b none }
  else some (H.setBuffer b { B with refcnt := B.refcnt - 1 })

/-- `__sync_fetch_and_add (&X->refcnt, 1)` on a buffer. -/
def msgBufferIncref (b : ℕ) : Option MsgHeap := do
  let B ← H.buffers.cell b
  some (H.setBuffer b { B with refcnt := B.refcnt + 1 })

/-- `__sync_fetch_and_add (&mp->refcnt, 1)` on a part. -/
def msgPartIncref (p : ℕ) : Option MsgHeap := do
  let mp ← H.parts.cell p
  some (H.setPart p { mp with refcnt := mp.refcnt + 1 })

/-- The size of the buffer that `alloc_msg_buffer` chooses. -/
def bufferSize (hint : ℕ) : ℕ :=
  if hint ≤ 48 then 48
  else if hint ≤ 512 then 512
  else if hint ≤ 2048 then 2048
  else if hint ≤ 16384 then 16384
  else 262144

/-- `new_msg_part`, with the fields it gets afterwards: the new part is `H.parts.size`. -/
def newMsgPart (mp : MsgPart) : MsgHeap := { H with parts := H.parts.alloc mp }

/-- `alloc_msg_buffer`, when it succeeds, `memcpy` of `src` to the place `i` of the new buffer,
and `new_msg_part` for these bytes: the new part is `H.parts.size`. -/
def newDataPart (hint i : ℕ) (src : Bytes) (next : Option ℕ) : MsgHeap :=
  let data := (List.range (bufferSize hint)).map (H.junk H.buffers.size)
  { H with
    buffers := H.buffers.alloc ⟨1, memcpyAt data i src⟩
    parts := H.parts.alloc ⟨1, next, H.buffers.size, i, i + src.length⟩ }

/-- `msg_part_decref`.  The fuel bounds the number of parts. -/
def msgPartDecrefLoop (held : Option ℕ) : ℕ → MsgHeap → Option ℕ → Option MsgHeap
  | _, H, none => some H
  | 0, _, some _ => none
  | n + 1, H, some p => do
    let mp ← H.parts.cell p
    if 1 < mp.refcnt then some (H.setPart p { mp with refcnt := mp.refcnt - 1 })
    else if mp.refcnt = 1 ∧ held ≠ some p then do
      let H ← H.msgBufferDecref mp.part
      msgPartDecrefLoop held n { H with parts := H.parts.put p none } mp.next
    else none

def msgPartDecref (held : Option ℕ) (p : Option ℕ) : Option MsgHeap :=
  msgPartDecrefLoop held (H.parts.size + 1) H p

/-! ## Forks and locks -/

/-- The first loop of `fork_message_chain`: it passes parts with one reference.  The result is
the part before the one it stops at, that part, and what is left of `total_bytes`. -/
def forkSkip (held last : Option ℕ) :
    ℕ → Option ℕ → ℕ → ℤ → Option (Option ℕ × ℕ × ℤ)
  | 0, _, _, _ => none
  | n + 1, mpl, p, total => do
    let mp ← H.parts.cell p
    if some p ≠ last ∧ mp.refcnt = 1 then
      if held = some p then none
      else do
        let q ← mp.next
        forkSkip held last n (some p) q (total - (mp.dataEnd - mp.offset))
    else some (mpl, p, total)

/-- `*mpp = mpc`: the pointer behind `mpl`, or the first pointer of the message. -/
def linkAfter (raw : RawMessage) (mpl : Option ℕ) (c : ℕ) : Option (MsgHeap × RawMessage) :=
  match mpl with
  | none => some (H, { raw with first := some c })
  | some q => do
    let mq ← H.parts.cell q
    some (H.setPart q { mq with next := some c }, raw)

/-- The second loop of `fork_message_chain`: it copies the parts from `p` on. -/
def forkCopy : ℕ → MsgHeap → RawMessage → Option ℕ → ℕ → ℤ →
    Option (MsgHeap × RawMessage × ℤ)
  | 0, _, _, _, _, _ => none
  | n + 1, H, raw, mpl, p, total => do
    let mp ← H.parts.cell p
    let H ← H.msgBufferIncref mp.part
    let offset :=
      if raw.first = some p ∧ raw.firstOffset ≠ mp.offset then raw.firstOffset else mp.offset
    let dataEnd := if raw.last = some p then raw.lastOffset else mp.dataEnd
    let c := H.parts.size
    let raw' := if raw.last = some p then { raw with last := some c } else raw
    let (H, raw') ← (H.newMsgPart ⟨1, none, mp.part, offset, dataEnd⟩).linkAfter raw' mpl c
    if raw.last = some p then some (H, raw', total - (dataEnd - offset))
    else do
      let q ← mp.next
      forkCopy n H raw' (some c) q (total - (dataEnd - offset))

/-- The branch of `fork_message_chain` for a chain that has only one reference throughout: what
stands behind the last byte is cut off. -/
def forkCut (held : Option ℕ) (raw : RawMessage) (p : ℕ) (total : ℤ) : Option (MsgHeap × ℤ) := do
  let mp ← H.parts.cell p
  if held = some p then none
  else do
    let H' := H.setPart p { mp with dataEnd := raw.lastOffset, next := none }
    let H' ← H'.msgPartDecref held mp.next
    some (H', total - (raw.lastOffset - mp.offset))

/-- Where `fork_message_chain` starts to copy or to cut: not behind the first part, unless that
part can start with the message. -/
def forkStart (held : Option ℕ) (raw : RawMessage) (f : ℕ) (ok : Prop) [Decidable ok] :
    Option (Option ℕ × ℕ × ℤ) :=
  if ok then H.forkSkip held raw.last (H.parts.size + 1) none f raw.totalBytes
  else some (none, f, (raw.totalBytes : ℤ))

/-- `fork_message_chain`. -/
def forkMessageChain (held : Option ℕ) (raw : RawMessage) : Option (MsgHeap × RawMessage) :=
  match raw.first with
  | none => some (H, raw)
  | some f => do
    let mf ← H.parts.cell f
    let ok := raw.firstOffset = mf.offset ∨ mf.refcnt = 1
    let H := if mf.refcnt = 1 then H.setPart f { mf with offset := raw.firstOffset } else H
    let (mpl, p, total) ← H.forkStart held raw f ok
    let mp ← H.parts.cell p
    if ¬ok ∨ mp.refcnt ≠ 1 ∨ raw.last ≠ some p then do
      let (H, raw, total) ← forkCopy (H.parts.size + 1) H raw mpl p total
      let H ← H.msgPartDecref held (some p)
      if total = 0 then some (H, raw) else none
    else do
      let (H, total) ← H.forkCut held raw p total
      if total = 0 then some (H, raw) else none

/-- `rwm_lock_last_part`: the part that it locks comes first. -/
def rwmLockLastPart (held : Option ℕ) (raw : RawMessage) :
    Option (Option ℕ × MsgHeap × RawMessage) :=
  match raw.first with
  | none => some (none, H, raw)
  | some _ => do
    let l ← raw.last
    let mp ← H.parts.cell l
    if mp.next.isSome ∨ raw.lastOffset ≠ mp.dataEnd then
      if raw.lastOffset ≤ mp.dataEnd then (H.forkMessageChain held raw).map (fun r => (none, r))
      else none
    else if held = some l then (H.forkMessageChain held raw).map (fun r => (none, r))
    else some (some l, H, raw)

/-- `rwm_lock_first_part`. -/
def rwmLockFirstPart (held : Option ℕ) (raw : RawMessage) : Option (MsgHeap × RawMessage) :=
  match raw.first with
  | none => some (H, raw)
  | some f => do
    let mf ← H.parts.cell f
    if mf.refcnt = 1 then some (H.setPart f { mf with offset := raw.firstOffset }, raw)
    else if mf.offset = raw.firstOffset then some (H, raw)
    else do
      let H ← H.msgBufferIncref mf.part
      let c := H.parts.size
      if raw.last = some f then do
        let H := H.newMsgPart ⟨1, none, mf.part, raw.firstOffset, raw.lastOffset⟩
        let H ← H.msgPartDecref held (some f)
        some (H, { raw with first := some c, last := some c })
      else do
        let q ← mf.next
        let H ← H.msgPartIncref q
        let H := H.newMsgPart ⟨1, some q, mf.part, raw.firstOffset, mf.dataEnd⟩
        let H ← H.msgPartDecref held (some f)
        some (H, { raw with first := some c })

/-- `rwm_free`: what it does to the memory. -/
def rwmFree (held : Option ℕ) (raw : RawMessage) : Option MsgHeap :=
  H.msgPartDecref held raw.first

/-- `rwm_clear`. -/
def rwmClear (raw : RawMessage) : Option (MsgHeap × RawMessage) :=
  (H.msgPartDecref none raw.first).map (fun H => (H, rwmClean))

/-- `rwm_clone`. -/
def rwmClone (raw : RawMessage) : Option (MsgHeap × RawMessage) :=
  match raw.first with
  | none => some (H, raw)
  | some f => (H.msgPartIncref f).map (fun H => (H, raw))

/-! ## More bytes -/

/-- `if (data) { memcpy (..) }` into a buffer. -/
def fill (b : ℕ) (X : MsgBuffer) (i : ℕ) (data : Option Bytes) : MsgHeap :=
  match data with
  | none => H
  | some src => H.write b X i src

/-- `alloc_msg_buffer`, when it succeeds, `new_msg_part` for `k` bytes from the place `i` on, and
`if (data) { memcpy (..) }` to this place: the new part is `H.parts.size`. -/
def newBlockPart (hint i k : ℕ) (data : Option Bytes) (next : Option ℕ) : MsgHeap :=
  let blank := (List.range (bufferSize hint)).map (H.junk H.buffers.size)
  { H with
    buffers := H.buffers.alloc ⟨1, (data.map (memcpyAt blank i)).getD blank⟩
    parts := H.parts.alloc ⟨1, next, H.buffers.size, i, i + k⟩ }

/-- The loop of `rwm_push_data_ext`, with `res` bytes done.  The fuel bounds the number of bytes. -/
def pushExtLoop (smallBuffer stdBuffer : ℕ) : ℕ → MsgHeap → RawMessage → ℕ → Option Bytes → ℕ →
    ℕ → Option (MsgHeap × RawMessage × ℕ)
  | 0, H, raw, _, _, allocBytes, res => if allocBytes = 0 then some (H, raw, res) else none
  | n + 1, H, raw, mpl, data, allocBytes, res =>
    if allocBytes = 0 then some (H, raw, res)
    else do
      let hint := if stdBuffer ≤ raw.totalBytes + allocBytes then stdBuffer else smallBuffer
      let sz := min (bufferSize hint) allocBytes
      let c := H.parts.size
      let (H, raw) ← (H.newBlockPart hint 0 sz (data.map (List.take sz)) none).linkAfter raw
        (some mpl) c
      pushExtLoop smallBuffer stdBuffer n H { raw with
        last := some c
        totalBytes := raw.totalBytes + sz
        lastOffset := sz } c (data.map (List.drop sz)) (allocBytes - sz) (res + sz)

/-- `rwm_push_data_ext`: the number of bytes it returns comes last.  `none` is for head-room that
does not fit into the buffer. -/
def rwmPushDataExt (raw : RawMessage) (data : Option Bytes)
    (allocBytes prepend smallBuffer stdBuffer : ℕ) : Option (MsgHeap × RawMessage × ℕ) :=
  if allocBytes = 0 then some (H, raw, 0)
  else
    match raw.first with
    | none =>
      let hint := if (smallBuffer : ℤ) - prepend ≤ allocBytes then stdBuffer else smallBuffer
      let prepend := if allocBytes ≤ stdBuffer ∧ stdBuffer - allocBytes < prepend
        then stdBuffer - allocBytes else prepend
      if bufferSize hint < prepend then none
      else
        let sz := min (bufferSize hint - prepend) allocBytes
        let c := H.parts.size
        pushExtLoop smallBuffer stdBuffer allocBytes
          (H.newBlockPart hint prepend sz (data.map (List.take sz)) none)
          ⟨some c, some c, sz, prepend, prepend + sz⟩ c (data.map (List.drop sz))
          (allocBytes - sz) sz
    | some _ => do
      let (_, H, raw) ← H.rwmLockLastPart none raw
      let l ← raw.last
      let mp ← H.parts.cell l
      let X ← H.buffers.cell mp.part
      if mp.next.isSome ∨ raw.lastOffset ≠ mp.dataEnd ∨ X.data.length < raw.lastOffset then none
      else if X.refcnt = 1 then
        -- the buffer of the last part has room for some of the bytes
        let sz := min (X.data.length - raw.lastOffset) allocBytes
        let H := (H.fill mp.part X raw.lastOffset (data.map (List.take sz))).setPart l
          { mp with dataEnd := mp.dataEnd + sz }
        pushExtLoop smallBuffer stdBuffer allocBytes H { raw with
          totalBytes := raw.totalBytes + sz
          lastOffset := raw.lastOffset + sz } l (data.map (List.drop sz)) (allocBytes - sz) sz
      else pushExtLoop smallBuffer stdBuffer allocBytes H raw l data allocBytes 0

/-- `rwm_push_data`: the number of bytes comes last. -/
def rwmPushDataCount (raw : RawMessage) (data : Option Bytes) (allocBytes : ℕ) :
    Option (MsgHeap × RawMessage × ℕ) :=
  H.rwmPushDataExt raw data allocBytes rmPrependReserve msgSmallBuffer msgStdBuffer

/-- `rwm_push_data` for the bytes `data`, without its count. -/
def rwmPushData (raw : RawMessage) (data : Bytes) : Option (MsgHeap × RawMessage) :=
  (H.rwmPushDataCount raw (some data) data.length).map (fun x => (x.1, x.2.1))

/-- `rwm_create` with data. -/
def rwmCreate (data : Bytes) : Option (MsgHeap × RawMessage) := H.rwmPushData rwmClean data

/-- The loop of `rwm_push_data_front`, which reads while the message changes: `data` points to
`data t` while `total_bytes` is `t`. -/
def pushFrontFromLoop (data : ℕ → Bytes) :
    ℕ → MsgHeap → RawMessage → ℕ → Option (MsgHeap × RawMessage)
  | 0, H, raw, allocBytes => if allocBytes = 0 then some (H, raw) else none
  | n + 1, H, raw, allocBytes =>
    if allocBytes = 0 then some (H, raw)
    else
      let hint := if msgSmallBuffer ≤ allocBytes then msgStdBuffer else msgSmallBuffer
      let size := bufferSize hint
      let sz := min size allocBytes
      let chunk := slice (data raw.totalBytes) (allocBytes - sz) sz
      let c := H.parts.size
      pushFrontFromLoop data n (H.newDataPart hint (size - sz) chunk raw.first)
        { first := some c
          last := if raw.last.isNone then some c else raw.last
          totalBytes := raw.totalBytes + sz
          firstOffset := size - sz
          lastOffset := if raw.last.isNone then size else raw.lastOffset }
        (allocBytes - sz)

/-- `rwm_push_data_front` for some bytes, without its count. -/
def pushFrontFrom (raw : RawMessage) (data : ℕ → Bytes) (allocBytes : ℕ) :
    Option (MsgHeap × RawMessage) :=
  match raw.first with
  | none => pushFrontFromLoop data allocBytes H raw allocBytes
  | some _ => do
    let (H, raw) ← H.rwmLockFirstPart none raw
    let f ← raw.first
    let mp ← H.parts.cell f
    let X ← H.buffers.cell mp.part
    if X.refcnt = 1 ∧ mp.refcnt = 1 then
      let sz := min raw.firstOffset allocBytes
      let i := raw.firstOffset - sz
      let H := (H.write mp.part X i (slice (data raw.totalBytes) (allocBytes - sz) sz)).setPart f
        { mp with offset := i }
      pushFrontFromLoop data allocBytes H
        { raw with totalBytes := raw.totalBytes + sz, firstOffset := i } (allocBytes - sz)
    else pushFrontFromLoop data allocBytes H raw allocBytes

/-- `rwm_push_data_front`: the number of bytes it returns comes last. -/
def rwmPushDataFrontFrom (raw : RawMessage) (data : ℕ → Bytes) (allocBytes : ℕ) :
    Option (MsgHeap × RawMessage × ℕ) :=
  if allocBytes = 0 then some (H, raw, 0)
  else (H.pushFrontFrom raw data allocBytes).map (fun x => (x.1, x.2, allocBytes))

/-- `rwm_push_data_front` for bytes that stay as they are, without its count. -/
def rwmPushDataFront (raw : RawMessage) (data : Bytes) : Option (MsgHeap × RawMessage) :=
  (H.rwmPushDataFrontFrom raw (fun _ => data) data.length).map (fun x => (x.1, x.2.1))

/-- `rwm_push_data (raw, 0, alloc_bytes)` on an empty message, and the place of its bytes. -/
def pushAllocPlace (raw : RawMessage) (allocBytes : ℕ) :
    Option (MsgHeap × RawMessage × Option (ℕ × ℕ)) := do
  let (H, raw, _) ← H.rwmPushDataCount raw none allocBytes
  if raw.first = raw.last ∧ raw.totalBytes = allocBytes then do
    let f ← raw.first
    let mf ← H.parts.cell f
    some (H, raw, some (mf.part, raw.firstOffset))
  else none

/-- `rwm_postpone_alloc`: a buffer and a place in it come last, or a null pointer. -/
def rwmPostponeAllocPlace (raw : RawMessage) (allocBytes : ℕ) :
    Option (MsgHeap × RawMessage × Option (ℕ × ℕ)) :=
  if allocBytes = 0 ∨ msgStdBuffer < allocBytes then some (H, raw, none)
  else
    match raw.first with
    | none => H.pushAllocPlace raw allocBytes
    | some _ => do
      let (_, H, raw) ← H.rwmLockLastPart none raw
      let l ← raw.last
      let mp ← H.parts.cell l
      let X ← H.buffers.cell mp.part
      if mp.dataEnd + allocBytes ≤ X.data.length ∧ X.refcnt = 1 then
        some (H.setPart l { mp with dataEnd := mp.dataEnd + allocBytes },
          { raw with
            totalBytes := raw.totalBytes + allocBytes
            lastOffset := raw.lastOffset + allocBytes }, some (mp.part, mp.dataEnd))
      else if bufferSize allocBytes < allocBytes then none
      else do
        let c := H.parts.size
        let b := H.buffers.size
        let (H, raw) ← (H.newBlockPart allocBytes 0 allocBytes none none).linkAfter raw (some l) c
        some (H, { raw with
          last := some c
          totalBytes := raw.totalBytes + allocBytes
          lastOffset := allocBytes }, some (b, 0))

/-- `rwm_prepend_alloc`: a buffer and a place in it come last, or a null pointer. -/
def rwmPrependAllocPlace (raw : RawMessage) (allocBytes : ℕ) :
    Option (MsgHeap × RawMessage × Option (ℕ × ℕ)) :=
  if allocBytes = 0 ∨ msgStdBuffer < allocBytes then some (H, raw, none)
  else
    match raw.first with
    | none => H.pushAllocPlace raw allocBytes
    | some _ => do
      let (H, raw) ← H.rwmLockFirstPart none raw
      let f ← raw.first
      let mp ← H.parts.cell f
      let X ← H.buffers.cell mp.part
      if raw.firstOffset ≠ mp.offset then none
      else if mp.refcnt = 1 ∧ allocBytes ≤ mp.offset ∧ X.refcnt = 1 then
        let i := mp.offset - allocBytes
        some (H.setPart f { mp with offset := i },
          { raw with totalBytes := raw.totalBytes + allocBytes, firstOffset := i },
          some (mp.part, i))
      else if bufferSize allocBytes < allocBytes then none
      else
        let i := bufferSize allocBytes - allocBytes
        some (H.newBlockPart allocBytes i allocBytes none raw.first,
          { raw with
            first := some H.parts.size
            totalBytes := raw.totalBytes + allocBytes
            firstOffset := i }, some (H.buffers.size, i))

/-- What the caller writes to a place that it was given. -/
def store (place : ℕ × ℕ) (data : Bytes) : Option MsgHeap := do
  let X ← H.buffers.cell place.1
  some (H.write place.1 X place.2 data)

/-- What becomes of a message when the caller writes to the place that he is given. -/
def writePlace (x : Option (MsgHeap × RawMessage × Option (ℕ × ℕ))) (data : Bytes) :
    Option (MsgHeap × RawMessage) := do
  let (H, raw, place) ← x
  match place with
  | none => some (H, raw)
  | some place => (H.store place data).map (fun H => (H, raw))

/-- `rwm_prepend_alloc` for as many bytes as `data` has, and what the caller writes. -/
def rwmPrependAlloc (raw : RawMessage) (data : Bytes) : Option (MsgHeap × RawMessage) :=
  writePlace (H.rwmPrependAllocPlace raw data.length) data

/-- `rwm_postpone_alloc`, and what the caller writes. -/
def rwmPostponeAlloc (raw : RawMessage) (data : Bytes) : Option (MsgHeap × RawMessage) :=
  writePlace (H.rwmPostponeAllocPlace raw data.length) data

/-! ## Splits and unions -/

/-- Where the bytes of a message start in its part `p`. -/
def partStart (raw : RawMessage) (p : ℕ) (mp : MsgPart) : ℕ :=
  if raw.first = some p then raw.firstOffset else mp.offset

/-- Where they end. -/
def partEnd (raw : RawMessage) (p : ℕ) (mp : MsgPart) : ℕ :=
  if raw.last = some p then raw.lastOffset else mp.dataEnd

/-- The loop of `rwm_split`: the part and the offset in it behind `bytes` bytes. -/
def splitLoop (raw : RawMessage) : ℕ → ℕ → ℕ → Option (ℕ × ℕ)
  | 0, _, _ => none
  | n + 1, p, bytes => do
    let mp ← H.parts.cell p
    let sz := partEnd raw p mp - partStart raw p mp
    if sz < bytes then do
      let q ← mp.next
      splitLoop raw n q (bytes - sz)
    else some (p, partStart raw p mp + bytes)

/-- `rwm_split`, with the tail stored over `tail`: the message in front, and the tail. -/
def rwmSplit (raw tail : RawMessage) (bytes : ℕ) : Option (MsgHeap × RawMessage × RawMessage) :=
  if raw.totalBytes ≤ bytes then some (H, raw, rwmClean)
  else do
    let l ← raw.last
    let ml ← H.parts.cell l
    let s := raw.totalBytes - bytes
    if s ≤ raw.lastOffset - ml.offset then do
      let H ← H.msgPartIncref l
      let cut := raw.lastOffset - s
      some (H, { raw with lastOffset := cut, totalBytes := bytes },
        ⟨some l, some l, s, cut, raw.lastOffset⟩)
    -- `while (bytes)`: nothing else is written
    else if bytes = 0 then some (H, { raw with totalBytes := 0 }, { tail with totalBytes := s })
    else do
      let f ← raw.first
      let (p, cut) ← H.splitLoop raw (H.parts.size + 1) f bytes
      let H ← H.msgPartIncref p
      some (H, { raw with last := some p, lastOffset := cut, totalBytes := bytes },
        ⟨some p, raw.last, s, cut, raw.lastOffset⟩)

/-- `rwm_split_head`: the head is a copy of the message, and the message becomes the tail. -/
def rwmSplitHead (raw : RawMessage) (bytes : ℕ) : Option (MsgHeap × RawMessage × RawMessage) :=
  H.rwmSplit raw raw bytes

/-- `rwm_union`. -/
def rwmUnion (raw tail : RawMessage) : Option (MsgHeap × RawMessage) :=
  if raw.last.isNone then some (H, tail)
  else
    match tail.first with
    | none => some (H, raw)
    | some _ => do
      let (locked, H, raw) ← H.rwmLockLastPart none raw
      let (_, H, tail) ← H.rwmLockLastPart locked tail
      let (H, tail) ← H.rwmLockFirstPart locked tail
      let l ← raw.last
      let t ← tail.first
      let H ← H.msgPartIncref t
      let (H, raw) ← H.linkAfter raw (some l) t
      let raw := { raw with
        last := tail.last
        lastOffset := tail.lastOffset
        totalBytes := raw.totalBytes + tail.totalBytes }
      let H ← H.rwmFree locked tail
      some (H, raw)

/-! ## Fewer bytes -/

/-- The search of `rwm_process_ex` for the part in which the place `offset` is; the flag says
that all parts up to there have one reference. -/
def processFind (raw : RawMessage) : ℕ → ℕ → ℕ → Bool → Option (ℕ × ℕ × ℕ × Bool)
  | 0, _, _, _ => none
  | n + 1, p, offset, ok => do
    let mp ← H.parts.cell p
    let ok := ok && mp.refcnt == 1
    let start := partStart raw p mp
    let len := partEnd raw p mp - start
    if offset ≤ len then some (p, start + offset, len - offset, ok)
    else do
      let q ← mp.next
      processFind raw n q (offset - len) ok

/-- The inner loop of `rwm_process_ex` on `len` bytes from `start` on in the part `p`, with the
blocks that `process_block` has got so far. -/
def processBlocks (raw : RawMessage) :
    ℕ → ℕ → ℕ → ℕ → ℕ → Bool → List Bytes → Option (ℕ × ℕ × Bool × List Bytes)
  | 0, _, _, _, _, _, _ => none
  | n + 1, p, start, len, bytes, ok, blocks => do
    let mp ← H.parts.cell p
    let X ← H.buffers.cell mp.part
    if bytes ≤ len then some (p, start + bytes, ok, blocks ++ [slice X.data start bytes])
    else do
      let q ← mp.next
      let mq ← H.parts.cell q
      let start' := partStart raw q mq
      processBlocks raw n q start' (partEnd raw q mq - start') (bytes - len)
        (ok && mq.refcnt == 1) (if len = 0 then blocks else blocks ++ [slice X.data start len])

/-- The reference of a message moves from its first part to the part `p`. -/
def moveFirst (raw : RawMessage) (p : ℕ) : Option MsgHeap :=
  if raw.first = some p then some H
  else do
    let H ← H.msgPartIncref p
    H.msgPartDecref none raw.first

/-- What `RMPF_ADVANCE` does behind the loops, which end at the place `stop` of the part `p`. -/
def processAdvance (raw : RawMessage) (p stop taken : ℕ) (ok : Bool) :
    Option (MsgHeap × RawMessage) :=
  if taken = raw.totalBytes then H.rwmClear raw
  else do
    let H ← H.moveFirst raw p
    let mp ← H.parts.cell p
    let H := if ok then H.setPart p { mp with offset := stop } else H
    some (H, { raw with
      first := some p
      firstOffset := stop
      totalBytes := raw.totalBytes - taken })

/-- What `RMPF_TRUNCATE` does behind the loops, when the bytes to cut off start at the place
`start` of the part `p`. -/
def processTruncate (raw : RawMessage) (p start offset : ℕ) (ok : Bool) :
    Option (MsgHeap × RawMessage) :=
  if offset = 0 then H.rwmClear raw
  else do
    let raw := { raw with totalBytes := offset, last := some p, lastOffset := start }
    if ok then do
      let mp ← H.parts.cell p
      let H := H.setPart p { mp with dataEnd := start, next := none }
      let H ← H.msgPartDecref none mp.next
      some (H, raw)
    else some (H, raw)

/-- What `rwm_process_ex` is asked to do with the bytes it has processed. -/
inductive ProcessFlag where
  | keep
  | advance
  | truncate
  deriving DecidableEq

/-- What is left for the flags to do behind the loops, which have found the place `start` of the
part `p` and the place `stop` of the part `q`. -/
def processFlags (raw : RawMessage) (flag : ProcessFlag) (p start q stop offset bytes : ℕ)
    (ok ok₂ : Bool) : Option (MsgHeap × RawMessage) :=
  match flag with
  | .keep => some (H, raw)
  | .advance => H.processAdvance raw q stop (offset + bytes) ok₂
  | .truncate => H.processTruncate raw p start offset ok

/-- A message without bytes lets go of its parts. -/
def clearEmpty (raw : RawMessage) : Option (MsgHeap × RawMessage) :=
  if raw.totalBytes = 0 then H.rwmClear raw else some (H, raw)

/-- The branch of `rwm_process_ex` for the case that all of it is in the last part `l`, from
`x` bytes before its end on; `out` is what `process_block` gets. -/
def processLast (raw : RawMessage) (l x bytes offset : ℕ) (flag : ProcessFlag) (out : Bytes) :
    Option (MsgHeap × RawMessage × Bytes) :=
  match flag with
  | .keep => some (H, raw, out)
  | .advance => do
    let H ← H.msgPartIncref l
    let H ← H.msgPartDecref none raw.first
    some (H, { raw with
      first := some l
      firstOffset := raw.lastOffset - x + bytes
      totalBytes := raw.totalBytes - (offset + bytes) }, out)
  | .truncate =>
    some (H, { raw with
      totalBytes := raw.totalBytes - x
      lastOffset := raw.lastOffset - x }, out)

/-- The branch of `rwm_process_ex` with the loops. -/
def processParts (raw : RawMessage) (f bytes offset : ℕ) (flag : ProcessFlag) :
    Option (MsgHeap × RawMessage × List Bytes) := do
  let (p, start, len, ok) ← H.processFind raw (H.parts.size + 1) f offset true
  let (q, stop, ok₂, blocks) ← H.processBlocks raw (H.parts.size + 1) p start len bytes ok []
  let (H, raw) ← H.processFlags raw flag p start q stop offset bytes ok ok₂
  let (H, raw) ← H.clearEmpty raw
  some (H, raw, blocks)

/-- `rwm_process_ex` behind the line that cuts `bytes` down, with a `process_block` that does not
fail: the blocks that it is given. -/
def processAll (raw : RawMessage) (bytes offset : ℕ) (flag : ProcessFlag) :
    Option (MsgHeap × RawMessage × List Bytes) :=
  if bytes = 0 then some (H, raw, [])
  else do
    let l ← raw.last
    let ml ← H.parts.cell l
    let x := raw.totalBytes - offset
    if x ≤ raw.lastOffset - ml.offset then do
      let X ← H.buffers.cell ml.part
      let (H, raw, block) ← H.processLast raw l x bytes offset flag
        (slice X.data (raw.lastOffset - x) bytes)
      some (H, raw, [block])
    else do
      let f ← raw.first
      H.processParts raw f bytes offset flag

/-- `rwm_process_ex`: the blocks and the number of bytes that is returned.  `bytes + offset` is an
`int`. -/
def rwmProcess (raw : RawMessage) (bytes offset : ℕ) (flag : ProcessFlag) :
    Option (MsgHeap × RawMessage × List Bytes × ℕ) :=
  let bytes := if (raw.totalBytes : ℤ) < wrap32 (bytes + offset) then raw.totalBytes - offset
    else bytes
  (H.processAll raw bytes offset flag).map (fun r => (r.1, r.2.1, r.2.2, bytes))

/-- `rwm_process_ex` where `bytes + offset` is exact, with a `process_block` that takes down the
bytes it is given. -/
def rwmProcessEx (raw : RawMessage) (bytes offset : ℕ) (flag : ProcessFlag) :
    Option (MsgHeap × RawMessage × Bytes) :=
  let bytes := if raw.totalBytes < bytes + offset then raw.totalBytes - offset else bytes
  (H.processAll raw bytes offset flag).map (fun r => (r.1, r.2.1, r.2.2.flatten))

/-- `rwm_fetch_data`; `rwm_skip_data` is the same without the bytes. -/
def rwmFetchData (raw : RawMessage) (bytes : ℕ) : Option (MsgHeap × RawMessage × Bytes) :=
  H.rwmProcessEx raw bytes 0 .advance

/-- `rwm_skip_data`: the number of bytes it returns comes last. -/
def rwmSkipData (raw : RawMessage) (bytes : ℕ) : Option (MsgHeap × RawMessage × ℕ) :=
  (H.rwmProcessEx raw bytes 0 .advance).map (fun r => (r.1, r.2.1, r.2.2.length))

/-- `rwm_fetch_lookup`. -/
def rwmFetchLookup (raw : RawMessage) (bytes : ℕ) : Option Bytes :=
  (H.rwmProcessEx raw bytes 0 .keep).map (fun r => r.2.2)

/-- `rwm_fetch_data_back`. -/
def rwmFetchDataBack (raw : RawMessage) (bytes : ℕ) : Option (MsgHeap × RawMessage × Bytes) :=
  let bytes := min bytes raw.totalBytes
  if bytes = 0 then some (H, raw, [])
  else H.rwmProcessEx raw bytes (raw.totalBytes - bytes) .truncate

/-- `rwm_trunc`. -/
def rwmTrunc (raw : RawMessage) (len : ℕ) : Option (MsgHeap × RawMessage) :=
  if raw.totalBytes ≤ len then some (H, raw)
  else (H.rwmFetchDataBack raw (raw.totalBytes - len)).map (fun r => (r.1, r.2.1))

end MsgHeap

end MtprotoProxy
