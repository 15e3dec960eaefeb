/-
# References to connections in the engine thread

The functions of `ExtEngine` once more, with what they do with references to connections: the
lookups take a reference, `job_decref` gives one back, and a reference is handed on with a message
or with a job.

`references_balance` says that all of them give away what they take, except for
`forward_tcp_query` on one path: a connection that lost a packet before is closed, but the
middle-end that was chosen for it is not given back.
-/
import MtprotoProxy.References
import MtprotoProxy.PacketFilter

namespace MtprotoProxy

open Function (update)
open CLib

/-- A computation of the engine thread with its notes about references. -/
abbrev RefCounted (α : Type) : Type := Traced Fault ConnRef α

/-! ## Lookups -/

/-- `connection_get_by_fd_generation`, which takes a reference. -/
def refByFdGeneration (net : Net) (fd : ℕ) (generation : ℤ) : RefCounted (Option ConnRef) :=
  match connectionGetByFdGeneration net fd generation with
  | some C => do
    Traced.take C
    return some C
  | none => return none

/-- A message is sent under a reference that is handed on (`TLS_START (JOB_REF_PASS (C))`). -/
def sendPassing (e : Engine) (C : ConnRef) (m : Message) : RefCounted Engine := do
  Traced.pass C
  return e.emit (.send C m)

/-- A message is sent under a reference of its own (`TLS_START (JOB_REF_CREATE_PASS (C))`). -/
def sendCreating (e : Engine) (C : ConnRef) (m : Message) : RefCounted Engine := do
  Traced.take C
  sendPassing e C m

/-! ## Removing an external connection -/

/-- The first half of the notifications. -/
def notifyOutputRefs (net : Net) (e : Engine) (Ex : Ptr) (sendNotifications : ℕ) :
    RefCounted Engine := do
  let t := e.tables
  if t.outFd Ex ≠ 0 then
    Traced.lift (require (t.outFd Ex < maxConnections) .assertion)
    Traced.lift (require (t.oNext Ex ≠ .null) .assertion)
    if sendNotifications.testBit 0 then
      match ← refByFdGeneration net (t.outFd Ex) (t.outGen Ex) with
      | some CO => sendPassing e CO (.closeConn (t.outConnId Ex))
      | none => return e
    else
      return e
  else
    return e

/-- The second half of the notifications. -/
def notifyInputRefs (net : Net) (e : Engine) (Ex : Ptr) (sendNotifications : ℕ) :
    RefCounted Engine := do
  let t := e.tables
  if t.inFd Ex ≠ 0 then
    Traced.lift (require (t.inFd Ex < maxConnections) .assertion)
    Traced.lift (require (t.iNext Ex ≠ .null) .assertion)
    if sendNotifications.testBit 1 then
      let CI ← refByFdGeneration net (t.inFd Ex) (t.inGen Ex)
      Traced.lift (require (t.inConnId Ex = 0) .assertion)
      match CI with
      | some CI =>
        Traced.drop CI
        return e.emit (.fail CI (-33))
      | none => return e
    else
      return e
  else
    return e

/-- `remove_ext_connection`. -/
def removeExtConnectionRefs (net : Net) (e : Engine) (Ex : Ptr) (sendNotifications : ℕ) :
    RefCounted Engine := do
  Traced.lift (require (Ex ≠ .null) .assertion)
  Traced.lift (require (e.tables.valid Ex) .badPointer)
  Traced.lift (require (e.tables.outConnId Ex ≠ 0) .assertion)
  let found ← Traced.lift (findExtConnectionByOutConnId e.tables (e.tables.outConnId Ex))
  Traced.lift (require (Ex = found) .assertion)
  let e ← notifyOutputRefs net e Ex sendNotifications
  let e ← notifyInputRefs net e Ex sendNotifications
  let t := e.tables
  Traced.lift (do
    match ← getExtConnectionByInConnId t (t.inFd Ex) (t.inGen Ex) (t.inConnId Ex) 1 0 [] with
    | (.deleted, t) => return { e with tables := t }
    | _ => .error .assertion)

/-- `if (Ex) remove_ext_connection (Ex, ...)`. -/
def removeIfAnyRefs (net : Net) (e : Engine) (Ex : Ptr) (sendNotifications : ℕ) :
    RefCounted Engine :=
  if Ex ≠ .null then removeExtConnectionRefs net e Ex sendNotifications else return e

/-! ## Messages of middle-ends -/

/-- `http_send_message`; the reference it is given goes to the job that finishes the response. -/
def httpSendMessageRefs (net : Net) (e : Engine) (C : ConnRef) (data : Bytes) (flags : ℕ) :
    RefCounted Engine := do
  let e ←
    if flags.testBit 4 ∧ data.length = 4 then
      pure (e.emit (.send C (.httpError (-asInt32 (le32 data)))))
    else
      sendCreating e C (.httpAnswer data)
  Traced.lift (require (net.awaitsHttp C) .assertion)
  let Ex ← Traced.lift (getExtConnectionByInFd e.tables C.fd)
  let e ← removeIfAnyRefs net e Ex 1
  Traced.pass C
  return e.emit (.finishHttp C)

/-- `client_send_message`, which is given a reference. -/
def clientSendMessageRefs (net : Net) (e : Engine) (C : ConnRef) (inConnId : Int64) (data : Bytes)
    (flags : ℕ) : RefCounted Engine := do
  let (fits, e) := checkConnBuffers e C (net.overfull C)
  if fits then
    Traced.lift (require (inConnId = 0) .assertion)
    if net.kind C = .httpServer then
      httpSendMessageRefs net e C data flags
    else
      let e ← sendCreating e C (.answer data)
      let e := (checkConnBuffers e C (net.overfullAfter C)).2
      Traced.drop C
      return e
  else
    Traced.drop C
    return e

/-- `push_rpc_confirmation`, which is given a reference. -/
def pushRpcConfirmationRefs (net : Net) (e : Engine) (C : ConnRef) (confirm : ℕ)
    (rands : List ℕ) : RefCounted Engine :=
  if (rands.headD 0).testBit 0 ∨ net.isPadded C = false then
    sendPassing e C (.raw (0xdd :: leBytes 4 confirm))
  else do
    let (junk₁, rands) := junkWord rands.tail
    let (junk₂, _) := junkWord rands
    let e ← sendCreating e C (.packet (leBytes 4 (2 ^ 32 - 1) ++ leBytes 4 confirm ++ junk₁))
    sendPassing e C (.packet (leBytes 4 0 ++ junk₂))

/-- The client of the entry `Ex`, with a reference. -/
def boundClientRefs (net : Net) (t : ExtTables) (C : ConnRef) (Ex : Ptr) :
    RefCounted (Option ConnRef) :=
  if Ex ≠ .null ∧ t.outFd Ex = C.fd ∧ t.outGen Ex = C.generation then
    refByFdGeneration net (t.inFd Ex) (t.inGen Ex)
  else
    return none

/-- `process_client_packet`. -/
def processClientPacketRefs (net : Net) (e : Engine) (C : ConnRef) (op : ℕ) (msg : Bytes)
    (rands : List ℕ) : RefCounted (ℕ × Engine) := do
  let len := msg.length
  Traced.lift (require (4 ≤ len ∧ op = le32 msg) .assertion)
  let msg := msg.drop 4
  let t := e.tables
  if op = rpcPong then
    return (1, e)
  else if op = rpcProxyAns then
    if 16 ≤ len then
      let flags := le32 msg
      let outConnId := leLong (msg.drop 4)
      let data := msg.drop 12
      Traced.lift (require (data.length = len - 16) .assertion)
      let Ex ← Traced.lift (findExtConnectionByOutConnId t outConnId)
      match ← boundClientRefs net t C Ex with
      | some D =>
        let e ← clientSendMessageRefs net e D (t.inConnId Ex) data flags
        return (1, e)
      | none =>
        let e ← sendCreating e C (.closeConn outConnId)
        return (1, e)
    else
      return (0, e)
  else if op = rpcSimpleAck then
    if len = 16 then
      let outConnId := leLong msg
      let confirm := le32 (msg.drop 8)
      let Ex ← Traced.lift (findExtConnectionByOutConnId t outConnId)
      match ← boundClientRefs net t C Ex with
      | some D =>
        Traced.lift (require (t.inConnId Ex = 0) .assertion)
        let confirm := if net.isCompact D then bswap32 confirm else confirm
        let e ← pushRpcConfirmationRefs net e D confirm rands
        return (1, e)
      | none =>
        let e ← sendCreating e C (.closeConn outConnId)
        return (1, e)
    else
      return (0, e)
  else if op = rpcCloseExt then
    if len = 12 then
      let Ex ← Traced.lift (findExtConnectionByOutConnId t (leLong msg))
      let e ← removeIfAnyRefs net e Ex 2
      return (1, e)
    else
      return (0, e)
  else
    return (0, e)

/-! ## Packets of clients -/

/-- The loop of `forward_tcp_query`: a connection that is not ready is given back. -/
def chooseReadyLoop (e : Engine) : List (Option ConnRef) → RefCounted (Option ConnRef)
  | [] => return none
  | none :: conns => chooseReadyLoop e conns
  | some d :: conns => do
    Traced.take d
    if e.isReady d then
      return some d
    else
      Traced.drop d
      chooseReadyLoop e conns

/-- The choice of a middle-end of the target `S`. -/
def chooseReadyRefs (e : Engine) (S : Option ℕ) (conns : List (Option ConnRef)) :
    RefCounted (Option ConnRef) :=
  match S with
  | none => return none
  | some _ => chooseReadyLoop e (conns.take 5)

/-- The middle-end of an earlier packet; one without a target is given back. -/
def keepMiddleEndRefs (net : Net) (e : Engine) (Ex : Ptr) :
    RefCounted (Option ConnRef × Ptr × Engine) := do
  if Ex ≠ .null then
    let t := e.tables
    Traced.lift (require (0 < t.outFd Ex ∧ t.outFd Ex < maxConnections) .assertion)
    match ← refByFdGeneration net (t.outFd Ex) (t.outGen Ex) with
    | some d =>
      if net.hasTarget d then
        return (some d, Ex, e)
      else
        Traced.drop d
        let e ← removeExtConnectionRefs net e Ex 1
        return (none, .null, e)
    | none =>
      let e ← removeExtConnectionRefs net e Ex 1
      return (none, .null, e)
  else
    return (none, .null, e)

/-- The end of `forward_tcp_query`: the reference to `d` goes with the request. -/
def sendQueryRefs (net : Net) (e : Engine) (c d : ConnRef) (Ex : Ptr) (flags : ℕ) (data : Bytes) :
    RefCounted (ℕ × Engine) := do
  Traced.lift (require (Ex ≠ .null) .assertion)
  let flags := if net.proxyTagSet then flags ||| 8 else flags
  let e ← sendPassing e d (.proxyReq flags (e.tables.outConnId Ex) (net.remoteIpPort c)
    (net.ourIpPort c) (net.extra flags) data)
  Traced.lift (require (net.kind c = .httpServer → net.awaitsHttp c = true) .assertion)
  return (1, e)

/-- `forward_tcp_query`. -/
def forwardTcpQueryRefs (net : Net) (e : Engine) (c : ConnRef) (S : Option ℕ) (flags : ℕ)
    (authKeyId : Int64) (data : Bytes) (chance : Chance) : RefCounted (ℕ × Engine) := do
  let Ex ← Traced.lift (getExtConnectionByInFd e.tables c.fd)
  let flags := queryFlags net e c flags
  let e :=
    if Ex ≠ .null ∧ e.tables.authKeyId Ex ≠ authKeyId then
      { e with tables := { e.tables with authKeyId := update e.tables.authKeyId Ex authKeyId } }
    else e
  let (d, Ex, e) ← keepMiddleEndRefs net e Ex
  match d with
  | some d => sendQueryRefs net e c d Ex flags data
  | none =>
    match ← chooseReadyRefs e S chance.conns with
    | none =>
      let e :=
        if net.kind c = .extServer then { e with dropped := update e.dropped c true } else e
      return (0, e)
    | some d =>
      if flags &&& rpcFDropped ≠ 0 then
        -- `d` is not given back
        return (0, e.emit (.fail c (-35)))
      else
        let (Ex, t) ← Traced.lift
          (createExtConnection e.tables c 0 (some d) authKeyId chance.cell chance.rands)
        sendQueryRefs net { e with tables := t } c d Ex flags data

/-! ## The notes change nothing -/

section Erase

variable (net : Net) (e : Engine)

/-- Without the references, each function is that of the engine. -/
@[simp] theorem erase_refByFdGeneration (fd : ℕ) (generation : ℤ) :
    (refByFdGeneration net fd generation).erase
      = .ok (connectionGetByFdGeneration net fd generation) := by
  unfold refByFdGeneration
  cases connectionGetByFdGeneration net fd generation <;> rfl

@[simp] theorem erase_sendPassing (C : ConnRef) (m : Message) :
    (sendPassing e C m).erase = .ok (e.emit (.send C m)) := rfl

@[simp] theorem erase_sendCreating (C : ConnRef) (m : Message) :
    (sendCreating e C m).erase = .ok (e.emit (.send C m)) := rfl

@[simp] theorem erase_notifyOutputRefs (Ex : Ptr) (n : ℕ) :
    (notifyOutputRefs net e Ex n).erase = notifyOutput net e Ex n := by
  unfold notifyOutputRefs notifyOutput
  dsimp only
  split
  · simp only [Traced.erase_bind, Traced.erase_lift]
    congr 1; funext _; congr 1; funext _
    split
    · simp only [Traced.erase_bind, erase_refByFdGeneration, ok_bind]
      cases connectionGetByFdGeneration net (e.tables.outFd Ex) (e.tables.outGen Ex) <;> rfl
    · rfl
  · rfl

@[simp] theorem erase_notifyInputRefs (Ex : Ptr) (n : ℕ) :
    (notifyInputRefs net e Ex n).erase = notifyInput net e Ex n := by
  unfold notifyInputRefs notifyInput
  dsimp only
  split
  · simp only [Traced.erase_bind, Traced.erase_lift]
    congr 1; funext _; congr 1; funext _
    split
    · simp only [Traced.erase_bind, Traced.erase_lift, erase_refByFdGeneration, ok_bind]
      congr 1; funext _
      cases connectionGetByFdGeneration net (e.tables.inFd Ex) (e.tables.inGen Ex) <;> rfl
    · rfl
  · rfl

@[simp] theorem erase_removeExtConnectionRefs (Ex : Ptr) (n : ℕ) :
    (removeExtConnectionRefs net e Ex n).erase = removeExtConnection net e Ex n := by
  unfold removeExtConnectionRefs
  simp only [Traced.erase_bind, Traced.erase_lift, erase_notifyOutputRefs, erase_notifyInputRefs]
  rfl

@[simp] theorem erase_removeIfAnyRefs (Ex : Ptr) (n : ℕ) :
    (removeIfAnyRefs net e Ex n).erase = removeIfAny net e Ex n := by
  unfold removeIfAnyRefs removeIfAny
  split
  · exact erase_removeExtConnectionRefs net e Ex n
  · rfl

@[simp] theorem erase_httpSendMessageRefs (C : ConnRef) (data : Bytes) (flags : ℕ) :
    (httpSendMessageRefs net e C data flags).erase = httpSendMessage net e C data flags := by
  unfold httpSendMessageRefs httpSendMessage
  split <;> simp only [Traced.erase_bind, Traced.erase_lift, Traced.erase_pure, Traced.erase_pass,
    erase_sendCreating, erase_removeIfAnyRefs, ok_bind, pure_eq_ok]

@[simp] theorem erase_clientSendMessageRefs (C : ConnRef) (inConnId : Int64) (data : Bytes)
    (flags : ℕ) :
    (clientSendMessageRefs net e C inConnId data flags).erase
      = clientSendMessage net e C inConnId data flags := by
  unfold clientSendMessageRefs clientSendMessage
  dsimp only
  split
  · simp only [Traced.erase_bind, Traced.erase_lift]
    congr 1; funext _
    split
    · exact erase_httpSendMessageRefs net _ C data flags
    · rfl
  · rfl

@[simp] theorem erase_pushRpcConfirmationRefs (C : ConnRef) (confirm : ℕ) (rands : List ℕ) :
    (pushRpcConfirmationRefs net e C confirm rands).erase
      = .ok (pushRpcConfirmation net e C confirm rands) := by
  unfold pushRpcConfirmationRefs pushRpcConfirmation
  split <;> rfl

@[simp] theorem erase_boundClientRefs (t : ExtTables) (C : ConnRef) (Ex : Ptr) :
    (boundClientRefs net t C Ex).erase = .ok (boundClient net t C Ex) := by
  unfold boundClientRefs boundClient
  split
  · exact erase_refByFdGeneration net _ _
  · rfl

/-- **`process_client_packet` is the function of `ExtEngine`.** -/
theorem erase_processClientPacketRefs (C : ConnRef) (op : ℕ) (msg : Bytes) (rands : List ℕ) :
    (processClientPacketRefs net e C op msg rands).erase
      = processClientPacket net e C op msg rands := by
  unfold processClientPacketRefs processClientPacket
  simp only [Traced.erase_bind, Traced.erase_lift]
  congr 1; funext _
  split
  · rfl
  split
  · split
    · simp only [Traced.erase_bind, Traced.erase_lift, erase_boundClientRefs, ok_bind]
      congr 1; funext _; congr 1; funext Ex
      cases boundClient net e.tables C Ex with
      | none => rfl
      | some D => simp only [Traced.erase_bind, erase_clientSendMessageRefs]; rfl
    · rfl
  split
  · split
    · simp only [Traced.erase_bind, Traced.erase_lift, erase_boundClientRefs, ok_bind]
      congr 1; funext Ex
      cases boundClient net e.tables C Ex with
      | none => rfl
      | some D =>
        simp only [Traced.erase_bind, Traced.erase_lift, erase_pushRpcConfirmationRefs]
        rfl
    · rfl
  split
  · split
    · simp only [Traced.erase_bind, Traced.erase_lift, erase_removeIfAnyRefs]
      rfl
    · rfl
  · rfl

theorem erase_chooseReadyLoop (conns : List (Option ConnRef)) :
    (chooseReadyLoop e conns).erase = .ok (conns.findSome? (fun d => d.filter e.isReady)) := by
  induction conns with
  | nil => rfl
  | cons d conns ih =>
    cases d with
    | none => exact ih
    | some d =>
      rw [chooseReadyLoop]
      simp only [Traced.erase_bind, Traced.erase_take, ok_bind]
      by_cases hready : e.isReady d = true
      · rw [if_pos hready, List.findSome?_cons, Option.filter_some, if_pos hready]
        rfl
      · rw [if_neg hready, List.findSome?_cons, Option.filter_some, if_neg hready]
        simp only [Traced.erase_bind, Traced.erase_drop, ok_bind]
        exact ih

@[simp] theorem erase_chooseReadyRefs (S : Option ℕ) (conns : List (Option ConnRef)) :
    (chooseReadyRefs e S conns).erase = .ok (chooseReady e S conns) := by
  cases S with
  | none => rfl
  | some S => exact erase_chooseReadyLoop e (conns.take 5)

@[simp] theorem erase_keepMiddleEndRefs (Ex : Ptr) :
    (keepMiddleEndRefs net e Ex).erase = keepMiddleEnd net e Ex := by
  unfold keepMiddleEndRefs keepMiddleEnd
  dsimp only
  split
  · simp only [Traced.erase_bind, Traced.erase_lift, erase_refByFdGeneration, ok_bind]
    congr 1; funext _
    cases connectionGetByFdGeneration net (e.tables.outFd Ex) (e.tables.outGen Ex) with
    | none => simp only [Traced.erase_bind, erase_removeExtConnectionRefs]; rfl
    | some d =>
      dsimp only
      rw [Option.filter_some]
      by_cases hhas : net.hasTarget d = true
      · rw [if_pos hhas, if_pos hhas]
        rfl
      · rw [if_neg hhas, if_neg hhas]
        simp only [Traced.erase_bind, Traced.erase_drop, ok_bind, erase_removeExtConnectionRefs]
        rfl
  · rfl

@[simp] theorem erase_sendQueryRefs (c d : ConnRef) (Ex : Ptr) (flags : ℕ) (data : Bytes) :
    (sendQueryRefs net e c d Ex flags data).erase = sendQuery net e c d Ex flags data := by
  unfold sendQueryRefs sendQuery
  simp only [Traced.erase_bind, Traced.erase_lift, erase_sendPassing, ok_bind]
  rfl

/-- **`forward_tcp_query` is the function of `ExtEngine`.** -/
theorem erase_forwardTcpQueryRefs (c : ConnRef) (S : Option ℕ) (flags : ℕ) (authKeyId : Int64)
    (data : Bytes) (chance : Chance) :
    (forwardTcpQueryRefs net e c S flags authKeyId data chance).erase
      = forwardTcpQuery net e c S flags authKeyId data chance := by
  unfold forwardTcpQueryRefs forwardTcpQuery
  simp only [Traced.erase_bind, Traced.erase_lift, erase_keepMiddleEndRefs]
  congr 1; funext Ex; congr 1; funext kept
  obtain ⟨d, Ex', e'⟩ := kept
  cases d with
  | some d => exact erase_sendQueryRefs net e' c d Ex' _ data
  | none =>
    simp only [Traced.erase_bind, erase_chooseReadyRefs, ok_bind]
    cases chooseReady e' S chance.conns with
    | none => rfl
    | some d =>
      dsimp only
      split
      · rfl
      · simp only [Traced.erase_bind, Traced.erase_lift, erase_sendQueryRefs]

end Erase

/-! ## What is held -/

section Settles

variable {net : Net} {held : Multiset ConnRef} (e : Engine)

/-- A lookup is left with what it found. -/
theorem settles_refByFdGeneration (fd : ℕ) (generation : ℤ) :
    Settles held (refByFdGeneration net fd generation) (fun C => C.elim held (· ::ₘ held)) := by
  unfold refByFdGeneration
  cases connectionGetByFdGeneration net fd generation with
  | none => exact Settles.pure rfl
  | some C => exact (Settles.take C).bind (fun _ => Settles.pure rfl)

/-- A message passes a reference on, or takes one of its own. -/
theorem settles_sendPassing (C : ConnRef) (m : Message) :
    Settles (C ::ₘ held) (sendPassing e C m) (fun _ => held) :=
  (Settles.pass C).bind (fun _ => Settles.pure rfl)

theorem settles_sendCreating (C : ConnRef) (m : Message) :
    Settles held (sendCreating e C m) (fun _ => held) :=
  (Settles.take C).bind (fun _ => settles_sendPassing e C m)

/-- The notices settle their references. -/
theorem settles_notifyOutputRefs (Ex : Ptr) (n : ℕ) :
    Settles held (notifyOutputRefs net e Ex n) (fun _ => held) := by
  unfold notifyOutputRefs
  dsimp only
  split
  · refine Settles.lift.bind (fun _ => Settles.lift.bind (fun _ => ?_))
    split
    · refine (settles_refByFdGeneration _ _).bind (fun CO => ?_)
      cases CO with
      | none => exact Settles.pure rfl
      | some CO => exact settles_sendPassing e CO _
    · exact Settles.pure rfl
  · exact Settles.pure rfl

theorem settles_notifyInputRefs (Ex : Ptr) (n : ℕ) :
    Settles held (notifyInputRefs net e Ex n) (fun _ => held) := by
  unfold notifyInputRefs
  dsimp only
  split
  · refine Settles.lift.bind (fun _ => Settles.lift.bind (fun _ => ?_))
    split
    · refine (settles_refByFdGeneration _ _).bind (fun CI => Settles.lift.bind (fun _ => ?_))
      cases CI with
      | none => exact Settles.pure rfl
      | some CI => exact (Settles.drop CI).bind (fun _ => Settles.pure rfl)
    · exact Settles.pure rfl
  · exact Settles.pure rfl

/-- **`remove_ext_connection` keeps nothing** and gives away nothing of its caller. -/
theorem settles_removeExtConnectionRefs (Ex : Ptr) (n : ℕ) :
    Settles held (removeExtConnectionRefs net e Ex n) (fun _ => held) :=
  Settles.lift.bind fun _ => Settles.lift.bind fun _ => Settles.lift.bind fun _ =>
    Settles.lift.bind fun _ => Settles.lift.bind fun _ =>
      (settles_notifyOutputRefs e Ex n).bind fun e₁ =>
        (settles_notifyInputRefs e₁ Ex n).bind fun _ => Settles.lift

theorem settles_removeIfAnyRefs (Ex : Ptr) (n : ℕ) :
    Settles held (removeIfAnyRefs net e Ex n) (fun _ => held) := by
  unfold removeIfAnyRefs
  split
  · exact settles_removeExtConnectionRefs e Ex n
  · exact Settles.pure rfl

/-- The reference that is given to `http_send_message` is handed on. -/
theorem settles_httpSendMessageRefs (C : ConnRef) (data : Bytes) (flags : ℕ) :
    Settles (C ::ₘ held) (httpSendMessageRefs net e C data flags) (fun _ => held) := by
  have hanswer : Settles (C ::ₘ held)
      (if flags.testBit 4 ∧ data.length = 4 then
          pure (e.emit (.send C (.httpError (-asInt32 (le32 data)))))
        else sendCreating e C (.httpAnswer data) : RefCounted Engine) (fun _ => C ::ₘ held) := by
    split
    · exact Settles.pure rfl
    · exact settles_sendCreating e C _
  have hrest : ∀ e₁ : Engine, Settles (C ::ₘ held) (do
      Traced.lift (require (net.awaitsHttp C) .assertion)
      let Ex ← Traced.lift (getExtConnectionByInFd e₁.tables C.fd)
      let e ← removeIfAnyRefs net e₁ Ex 1
      Traced.pass C
      return e.emit (.finishHttp C) : RefCounted Engine) (fun _ => held) := fun e₁ =>
    Settles.lift.bind fun _ => Settles.lift.bind fun Ex => (settles_removeIfAnyRefs e₁ Ex 1).bind fun _ =>
      (Settles.pass C).bind fun _ => Settles.pure rfl
  -- the source writes the two halves as one branch each; the rest is the same
  have hall := hanswer.bind hrest
  unfold httpSendMessageRefs
  split at hall <;> rename_i hcond
  · rw [if_pos hcond]
    exact hall
  · rw [if_neg hcond]
    exact hall

/-- **The reference that is given to `client_send_message`** is given back or handed on. -/
theorem settles_clientSendMessageRefs (C : ConnRef) (inConnId : Int64) (data : Bytes) (flags : ℕ) :
    Settles (C ::ₘ held) (clientSendMessageRefs net e C inConnId data flags) (fun _ => held) := by
  unfold clientSendMessageRefs
  dsimp only
  split
  · refine Settles.lift.bind (fun _ => ?_)
    split
    · exact settles_httpSendMessageRefs _ C data flags
    · exact (settles_sendCreating _ C _).bind fun _ => (Settles.drop C).bind fun _ => Settles.pure rfl
  · exact (Settles.drop C).bind fun _ => Settles.pure rfl

/-- The confirmation passes its reference on. -/
theorem settles_pushRpcConfirmationRefs (C : ConnRef) (confirm : ℕ) (rands : List ℕ) :
    Settles (C ::ₘ held) (pushRpcConfirmationRefs net e C confirm rands) (fun _ => held) := by
  unfold pushRpcConfirmationRefs
  split
  · exact settles_sendPassing e C _
  · exact (settles_sendCreating e C _).bind fun e₁ => settles_sendPassing e₁ C _

/-- A connection that was looked up is held. -/
theorem settles_boundClientRefs (t : ExtTables) (C : ConnRef) (Ex : Ptr) :
    Settles held (boundClientRefs net t C Ex) (fun D => D.elim held (· ::ₘ held)) := by
  unfold boundClientRefs
  split
  · exact settles_refByFdGeneration _ _
  · exact Settles.pure rfl

/-- **`process_client_packet` keeps nothing,** on every path. -/
theorem settles_processClientPacketRefs (C : ConnRef) (op : ℕ) (msg : Bytes) (rands : List ℕ) :
    Settles held (processClientPacketRefs net e C op msg rands) (fun _ => held) := by
  unfold processClientPacketRefs
  refine Settles.lift.bind (fun _ => ?_)
  dsimp only
  split
  · exact Settles.pure rfl
  split
  · split
    · refine Settles.lift.bind (fun _ => Settles.lift.bind (fun Ex => ?_))
      refine (settles_boundClientRefs e.tables C Ex).bind (fun D => ?_)
      cases D with
      | none => exact (settles_sendCreating e C _).bind fun _ => Settles.pure rfl
      | some D => exact (settles_clientSendMessageRefs e D _ _ _).bind fun _ => Settles.pure rfl
    · exact Settles.pure rfl
  split
  · split
    · refine Settles.lift.bind (fun Ex => ?_)
      refine (settles_boundClientRefs e.tables C Ex).bind (fun D => ?_)
      cases D with
      | none => exact (settles_sendCreating e C _).bind fun _ => Settles.pure rfl
      | some D =>
        exact Settles.lift.bind fun _ =>
          (settles_pushRpcConfirmationRefs e D _ rands).bind fun _ => Settles.pure rfl
    · exact Settles.pure rfl
  split
  · split
    · exact Settles.lift.bind fun Ex => (settles_removeIfAnyRefs e Ex 2).bind fun _ => Settles.pure rfl
    · exact Settles.pure rfl
  · exact Settles.pure rfl

/-- The loop is left with the connection that it returns. -/
theorem settles_chooseReadyLoop (conns : List (Option ConnRef)) :
    Settles held (chooseReadyLoop e conns) (fun d => d.elim held (· ::ₘ held)) := by
  induction conns with
  | nil => exact Settles.pure rfl
  | cons d conns ih =>
    cases d with
    | none => exact ih
    | some d =>
      -- a connection that is not ready is given back before the next one is taken
      rw [chooseReadyLoop]
      refine (Settles.take d).bind (fun _ => ?_)
      split
      · exact Settles.pure rfl
      · exact (Settles.drop d).bind fun _ => ih

theorem settles_chooseReadyRefs (S : Option ℕ) (conns : List (Option ConnRef)) :
    Settles held (chooseReadyRefs e S conns) (fun d => d.elim held (· ::ₘ held)) := by
  cases S with
  | none => exact Settles.pure rfl
  | some S => exact settles_chooseReadyLoop e (conns.take 5)

theorem settles_keepMiddleEndRefs (Ex : Ptr) :
    Settles held (keepMiddleEndRefs net e Ex) (fun kept => kept.1.elim held (· ::ₘ held)) := by
  unfold keepMiddleEndRefs
  dsimp only
  split
  · refine Settles.lift.bind (fun _ => (settles_refByFdGeneration _ _).bind (fun d => ?_))
    cases d with
    | none => exact (settles_removeExtConnectionRefs e Ex 1).bind fun _ => Settles.pure rfl
    | some d =>
      dsimp only
      split
      · exact Settles.pure rfl
      · exact (Settles.drop d).bind fun _ =>
          (settles_removeExtConnectionRefs e Ex 1).bind fun _ => Settles.pure rfl
  · exact Settles.pure rfl

theorem settles_sendQueryRefs (c d : ConnRef) (Ex : Ptr) (flags : ℕ) (data : Bytes) :
    Settles (d ::ₘ held) (sendQueryRefs net e c d Ex flags data) (fun _ => held) :=
  Settles.lift.bind fun _ => (settles_sendPassing e d _).bind fun _ =>
    Settles.lift.bind fun _ => Settles.pure rfl

end Settles

/-! ## `forward_tcp_query` -/

/-- The notifications do not touch the tags of connections. -/
theorem notifyOutput_extraInt {net : Net} {e e' : Engine} {Ex : Ptr} {n : ℕ}
    (hok : notifyOutput net e Ex n = .ok e') : e'.extraInt = e.extraInt := by
  unfold notifyOutput at hok
  dsimp only at hok
  split at hok
  · obtain ⟨_, -, hok⟩ := bind_eq_ok.mp hok
    obtain ⟨_, -, hok⟩ := bind_eq_ok.mp hok
    split at hok
    · split at hok <;> cases hok <;> rfl
    · cases hok
      rfl
  · cases hok
    rfl

/-- A notice leaves `extra_int` alone. -/
theorem notifyInput_extraInt {net : Net} {e e' : Engine} {Ex : Ptr} {n : ℕ}
    (hok : notifyInput net e Ex n = .ok e') : e'.extraInt = e.extraInt := by
  unfold notifyInput at hok
  dsimp only at hok
  split at hok
  · obtain ⟨_, -, hok⟩ := bind_eq_ok.mp hok
    obtain ⟨_, -, hok⟩ := bind_eq_ok.mp hok
    split at hok
    · obtain ⟨_, -, hok⟩ := bind_eq_ok.mp hok
      split at hok <;> cases hok <;> rfl
    · cases hok
      rfl
  · cases hok
    rfl

/-- A removal does not either. -/
theorem removeExtConnection_extraInt {net : Net} {e e' : Engine} {Ex : Ptr} {n : ℕ}
    (hok : removeExtConnection net e Ex n = .ok e') : e'.extraInt = e.extraInt := by
  unfold removeExtConnection at hok
  obtain ⟨_, -, hok⟩ := bind_eq_ok.mp hok
  obtain ⟨_, -, hok⟩ := bind_eq_ok.mp hok
  obtain ⟨_, -, hok⟩ := bind_eq_ok.mp hok
  obtain ⟨_, -, hok⟩ := bind_eq_ok.mp hok
  obtain ⟨_, -, hok⟩ := bind_eq_ok.mp hok
  obtain ⟨e₁, h₁, hok⟩ := bind_eq_ok.mp hok
  obtain ⟨e₂, h₂, hok⟩ := bind_eq_ok.mp hok
  obtain ⟨⟨found, t⟩, -, hok⟩ := bind_eq_ok.mp hok
  have htags := (notifyInput_extraInt h₂).trans (notifyOutput_extraInt h₁)
  split at hok
  · cases hok
    exact htags
  · cases hok

/-- The middle-end of an earlier packet, if it can still be used. -/
def usableMiddleEnd (net : Net) (t : ExtTables) (Ex : Ptr) : Option ConnRef :=
  if Ex ≠ .null then
    (connectionGetByFdGeneration net (t.outFd Ex) (t.outGen Ex)).filter net.hasTarget
  else none

/-- What `keepMiddleEnd` returns. -/
theorem keepMiddleEnd_eq_ok {net : Net} {e e' : Engine} {Ex Ex' : Ptr} {d : Option ConnRef}
    (hok : keepMiddleEnd net e Ex = .ok (d, Ex', e')) :
    d = usableMiddleEnd net e.tables Ex ∧ e'.extraInt = e.extraInt := by
  unfold keepMiddleEnd at hok
  unfold usableMiddleEnd
  split at hok
  · rename_i hne
    rw [if_pos hne]
    obtain ⟨_, -, hok⟩ := bind_eq_ok.mp hok
    split at hok
    · rename_i d' hd
      cases hok
      exact ⟨hd.symm, rfl⟩
    · rename_i hnone
      obtain ⟨e₁, hremove, hok⟩ := bind_eq_ok.mp hok
      cases hok
      exact ⟨hnone.symm, removeExtConnection_extraInt hremove⟩
  · rename_i hnull
    cases hok
    rw [if_neg hnull]
    exact ⟨rfl, rfl⟩

/-- The entry of the client is bound to a middle-end that can still be used. -/
def HasMiddleEnd (net : Net) (e : Engine) (c : ConnRef) : Prop :=
  ∃ Ex d, getExtConnectionByInFd e.tables c.fd = .ok Ex ∧
    usableMiddleEnd net e.tables Ex = some d

/-- **The path on which a reference is lost:** the client has no middle-end, one is chosen for
it, and a packet of the client was dropped before. -/
def LosesMiddleEnd (net : Net) (e : Engine) (c : ConnRef) (S : Option ℕ) (flags : ℕ)
    (chance : Chance) (d : ConnRef) : Prop :=
  ¬ HasMiddleEnd net e c ∧ chooseReady e S chance.conns = some d ∧
    queryFlags net e c flags &&& rpcFDropped ≠ 0

/-- **What `forward_tcp_query` is left with:** nothing, except on that path. -/
theorem settles_forwardTcpQueryRefs {net : Net} {e : Engine} {c : ConnRef} {S : Option ℕ}
    {flags : ℕ} {authKeyId : Int64} {data : Bytes} {chance : Chance} {left : Multiset ConnRef}
    (hleft : (∃ d, LosesMiddleEnd net e c S flags chance d ∧ left = {d}) ∨
      ((∀ d, ¬ LosesMiddleEnd net e c S flags chance d) ∧ left = 0)) :
    Settles 0 (forwardTcpQueryRefs net e c S flags authKeyId data chance) (fun _ => left) := by
  unfold forwardTcpQueryRefs
  -- which references are left depends on values on the way, so the calls are followed with them
  refine Settles.lift.bind_erase (fun Ex hEx => ?_)
  rw [Traced.erase_lift] at hEx
  dsimp only
  refine (settles_keepMiddleEndRefs _ Ex).bind_erase (fun kept hkept => ?_)
  obtain ⟨d, Ex', e'⟩ := kept
  rw [erase_keepMiddleEndRefs] at hkept
  obtain ⟨hd, htags⟩ := keepMiddleEnd_eq_ok hkept
  have hfields : ∀ key, usableMiddleEnd net (if Ex ≠ .null ∧ e.tables.authKeyId Ex ≠ authKeyId then
      { e with tables := { e.tables with authKeyId := key } } else e : Engine).tables Ex
        = usableMiddleEnd net e.tables Ex := by
    intro key
    split <;> rfl
  rw [hfields] at hd
  cases d with
  | some d =>
    have hhas : HasMiddleEnd net e c := ⟨Ex, d, hEx, hd.symm⟩
    obtain ⟨d', hloses, -⟩ | ⟨-, rfl⟩ := hleft
    · exact absurd hhas hloses.1
    · show Settles (d ::ₘ 0) (sendQueryRefs net e' c d Ex' (queryFlags net e c flags) data) _
      exact settles_sendQueryRefs e' c d Ex' _ data
  | none =>
    -- no middle-end was kept: one is chosen, and it is lost if a packet was dropped before
    have hnot : ¬ HasMiddleEnd net e c := by
      rintro ⟨Ex₁, d₁, hEx₁, hd₁⟩
      obtain rfl := Except.ok.inj (hEx.symm.trans hEx₁)
      exact absurd (hd.trans hd₁) (by simp)
    have hextra : e'.extraInt = e.extraInt := by
      rw [htags]
      split <;> rfl
    refine (settles_chooseReadyRefs e' S chance.conns).bind_erase (fun d hchoose => ?_)
    rw [erase_chooseReadyRefs, chooseReady_congr e e' hextra] at hchoose
    have hchoose' := Except.ok.inj hchoose
    cases d with
    | none =>
      obtain ⟨d', hloses, -⟩ | ⟨-, rfl⟩ := hleft
      · exact absurd (hchoose'.symm.trans hloses.2.1) (by simp)
      · exact Settles.pure rfl
    | some d =>
      dsimp only
      split
      · rename_i hdropped
        obtain ⟨d', hloses, rfl⟩ | ⟨hnone, -⟩ := hleft
        · obtain rfl := Option.some.inj (hchoose'.symm.trans hloses.2.1)
          exact Settles.pure rfl
        · exact absurd ⟨hnot, hchoose', hdropped⟩ (hnone d)
      · rename_i hkeep
        obtain ⟨d', hloses, -⟩ | ⟨-, rfl⟩ := hleft
        · exact absurd hloses.2.2 hkeep
        · refine Settles.lift.bind (fun created => ?_)
          show Settles (d ::ₘ 0) (sendQueryRefs net { e' with tables := created.2 } c d created.1
            (queryFlags net e c flags) data) _
          exact settles_sendQueryRefs _ c d created.1 _ data

/-! ## The balance -/

/-- **The references balance:** every call gives away exactly what it was given and what it took,
and never anything else; for `forward_tcp_query` this is so exactly if the call does not take the
path on which the chosen middle-end is lost. -/
theorem references_balance (net : Net) (e : Engine) :
    (∀ Ex n e' es, removeExtConnectionRefs net e Ex n = .ok (e', es) → account 0 es = some 0) ∧
    (∀ C inConnId data flags e' es,
      clientSendMessageRefs net e C inConnId data flags = .ok (e', es) →
        account {C} es = some 0) ∧
    (∀ C op msg rands res es, processClientPacketRefs net e C op msg rands = .ok (res, es) →
      account 0 es = some 0) ∧
    (∀ c S flags authKeyId data chance res es,
      forwardTcpQueryRefs net e c S flags authKeyId data chance = .ok (res, es) →
        (account 0 es = some 0 ↔ ∀ d, ¬ LosesMiddleEnd net e c S flags chance d)) := by
  refine ⟨fun Ex n => settles_removeExtConnectionRefs e Ex n,
    fun C inConnId data flags => settles_clientSendMessageRefs e C inConnId data flags,
    fun C op msg rands => settles_processClientPacketRefs e C op msg rands, ?_⟩
  intro c S flags authKeyId data chance res es hok
  by_cases hloses : ∃ d, LosesMiddleEnd net e c S flags chance d
  · obtain ⟨d, hd⟩ := hloses
    have hleft := settles_forwardTcpQueryRefs (Or.inl ⟨d, hd, rfl⟩) res es hok
    refine iff_of_false (fun hzero => ?_) (fun hnone => hnone d hd)
    exact Multiset.singleton_ne_zero d (Option.some.inj (hleft.symm.trans hzero))
  · rw [not_exists] at hloses
    exact iff_of_true (settles_forwardTcpQueryRefs (Or.inr ⟨hloses, rfl⟩) res es hok) hloses

/-- A middle-end that answers an unknown connection is told so, under a new reference. -/
theorem references_balance_sample : ∃ e es,
    processClientPacketRefs sampleNet .init sampleMiddleEnd rpcSimpleAck
        (leBytes 4 rpcSimpleAck ++ List.replicate 12 0) [] = .ok ((1, e), es) ∧
      es = [.take sampleMiddleEnd, .pass sampleMiddleEnd] ∧ account 0 es = some 0 := by
  have hok : processClientPacketRefs sampleNet .init sampleMiddleEnd rpcSimpleAck
      (leBytes 4 rpcSimpleAck ++ List.replicate 12 0) []
        = .ok ((1, Engine.init.emit (.send sampleMiddleEnd (.closeConn 0))),
          [.take sampleMiddleEnd, .pass sampleMiddleEnd]) := by
    rfl
  exact ⟨_, _, hok, rfl, (references_balance sampleNet .init).2.2.1 _ _ _ _ _ _ hok⟩

/-- The engine with the ready middle-end, after a packet of every client was dropped. -/
def droppedEngine : Engine := { readyEngine with dropped := fun _ => true }

/-- **The chosen middle-end is not given back** when the client lost a packet before. -/
theorem not_references_balance :
    ¬ ∀ net e c S flags authKeyId data chance res es,
      forwardTcpQueryRefs net e c S flags authKeyId data chance = .ok (res, es) →
        account 0 es = some 0 := by
  intro hall
  have hevents : (forwardTcpQueryRefs sampleNet droppedEngine sampleClient (some 0) 0 0 []
      sampleChance).events = some [.take sampleMiddleEnd] := by
    decide +kernel
  obtain ⟨⟨res, e'⟩, hok⟩ := Traced.exists_of_events hevents
  have hzero := hall _ _ _ _ _ _ _ _ _ _ hok
  exact absurd hzero (by decide)

end MtprotoProxy
