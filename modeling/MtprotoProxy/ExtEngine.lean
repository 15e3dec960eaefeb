/-
# The engine thread

The functions of `mtproto/mtproto-proxy.c` that run in the engine thread and work on the
tables of external connections: the life of middle-end connections, the close of client
connections, the messages of middle-ends (`process_client_packet`) and the packets of
clients (`forward_tcp_query`).

What the network threads show of a connection at the time of a call is a `Net`; what the
engine thread asks of connections is recorded in `effects`, oldest first.
-/
import MtprotoProxy.ExtTables
import MtprotoProxy.CArray

namespace MtprotoProxy

open Function (update)
open CLib

/-! ## The network as the engine thread sees it -/

/-- The connection types that the engine thread tells apart. -/
inductive ConnKind where
  /-- `ct_tcp_rpc_ext_server_mtfront` -/
  | extServer
  /-- `ct_http_server_mtfront` -/
  | httpServer
  /-- any other type -/
  | other
  deriving DecidableEq

/-- **What the engine thread reads of connections** during one call. -/
structure Net where
  /-- `connection_get_by_fd` -/
  byFd : ℕ → Option ConnRef
  byFd_fd : ∀ fd c, byFd fd = some c → c.fd = fd
  /-- `CONN_INFO(c)->type` -/
  kind : ConnRef → ConnKind
  /-- `CONN_INFO(c)->target` is not null -/
  hasTarget : ConnRef → Bool
  /-- `RPC_F_COMPACT` -/
  isCompact : ConnRef → Bool
  /-- `RPC_F_PAD` -/
  isPadded : ConnRef → Bool
  /-- `check_conn_buffers` finds more than `MAX_CONNECTION_BUFFER_SPACE` before a message is sent -/
  overfull : ConnRef → Bool
  /-- the same after the message was sent -/
  overfullAfter : ConnRef → Bool
  /-- `status == conn_working && pending_queries == 1` -/
  awaitsHttp : ConnRef → Bool
  /-- the address and port of the peer, 20 bytes of a request -/
  remoteIpPort : ConnRef → Bytes
  /-- our own address and port, 20 bytes of a request -/
  ourIpPort : ConnRef → Bytes
  proxyTagSet : Bool
  /-- the extra fields of a request with these flags -/
  extra : ℕ → Bytes

/-- `connection_get_by_fd_generation`. -/
def connectionGetByFdGeneration (net : Net) (fd : ℕ) (generation : ℤ) : Option ConnRef :=
  (net.byFd fd).filter (fun c => c.generation = generation)

/-- A connection that was found has the descriptor and the generation. -/
theorem connectionGetByFdGeneration_eq {net : Net} {fd : ℕ} {generation : ℤ} {c : ConnRef}
    (h : connectionGetByFdGeneration net fd generation = some c) :
    c.fd = fd ∧ c.generation = generation := by
  obtain ⟨hfd, hgen⟩ := Option.filter_eq_some_iff.mp h
  exact ⟨net.byFd_fd fd c hfd, by simpa using hgen⟩

/-! ## What the engine thread does to connections -/

/-- What is sent over a connection. -/
inductive Message where
  /-- `RPC_CLOSE_CONN` -/
  | closeConn (outConnId : Int64)
  /-- `RPC_PROXY_REQ` -/
  | proxyReq (flags : ℕ) (outConnId : Int64) (remoteIpPort ourIpPort extra data : Bytes)
  /-- the contents of an answer -/
  | answer (data : Bytes)
  /-- `write_http_error` with this code -/
  | httpError (code : ℤ)
  /-- an answer after the header of an HTTP response -/
  | httpAnswer (data : Bytes)
  /-- bytes that are put in the output queue as they are -/
  | raw (data : Bytes)
  /-- a packet for `tcp_rpc_conn_send` -/
  | packet (data : Bytes)
  deriving DecidableEq

/-- What the engine thread asks of a connection. -/
inductive Effect where
  | send (dest : ConnRef) (m : Message)
  /-- `fail_connection` -/
  | fail (c : ConnRef) (err : ℤ)
  /-- `finish_postponed_http_response` is scheduled -/
  | finishHttp (c : ConnRef)
  deriving DecidableEq

/-- The connection that an effect is about. -/
def Effect.target : Effect → ConnRef
  | .send dest _ => dest
  | .fail c _ => c
  | .finishHttp c => c

/-- **The state of the engine thread.** -/
structure Engine where
  tables : ExtTables
  /-- `TCP_RPC_DATA(C)->extra_int` -/
  extraInt : ConnRef → ℤ
  /-- `RPC_F_DROPPED` in `TCP_RPC_DATA(c)->flags` -/
  dropped : ConnRef → Bool
  effects : List Effect

namespace Engine

/-- The engine thread of a program that has just started. -/
def init : Engine := ⟨.init, fun _ => 0, fun _ => false, []⟩

/-- One more effect. -/
def emit (e : Engine) (x : Effect) : Engine := { e with effects := e.effects ++ [x] }

end Engine

/-- `get_conn_tag`. -/
def getConnTag (C : ConnRef) : ℤ := 1 + C.generation % 2 ^ 24

/-- `_notify_remote_closed`. -/
def notifyRemoteClosed (e : Engine) (C : ConnRef) (outConnId : Int64) : Engine :=
  e.emit (.send C (.closeConn outConnId))

/-! ## Removing an external connection -/

/-- The first half of the notifications of `remove_ext_connection`: bit 0 tells the middle-end. -/
def notifyOutput (net : Net) (e : Engine) (Ex : Ptr) (sendNotifications : ℕ) :
    Except Fault Engine := do
  let t := e.tables
  if t.outFd Ex ≠ 0 then
    require (t.outFd Ex < maxConnections) .assertion
    require (t.oNext Ex ≠ .null) .assertion
    if sendNotifications.testBit 0 then
      match connectionGetByFdGeneration net (t.outFd Ex) (t.outGen Ex) with
      | some CO => return notifyRemoteClosed e CO (t.outConnId Ex)
      | none => return e
    else
      return e
  else
    return e

/-- The second half of the notifications of `remove_ext_connection`: bit 1 fails the client. -/
def notifyInput (net : Net) (e : Engine) (Ex : Ptr) (sendNotifications : ℕ) :
    Except Fault Engine := do
  let t := e.tables
  if t.inFd Ex ≠ 0 then
    require (t.inFd Ex < maxConnections) .assertion
    require (t.iNext Ex ≠ .null) .assertion
    if sendNotifications.testBit 1 then
      require (t.inConnId Ex = 0) .assertion
      match connectionGetByFdGeneration net (t.inFd Ex) (t.inGen Ex) with
      | some CI => return e.emit (.fail CI (-33))
      | none => return e
    else
      return e
  else
    return e

/-- `remove_ext_connection`. -/
def removeExtConnection (net : Net) (e : Engine) (Ex : Ptr) (sendNotifications : ℕ) :
    Except Fault Engine := do
  require (Ex ≠ .null) .assertion
  require (e.tables.valid Ex) .badPointer
  require (e.tables.outConnId Ex ≠ 0) .assertion
  let found ← findExtConnectionByOutConnId e.tables (e.tables.outConnId Ex)
  require (Ex = found) .assertion
  let e ← notifyOutput net e Ex sendNotifications
  let e ← notifyInput net e Ex sendNotifications
  let t := e.tables
  match ← getExtConnectionByInConnId t (t.inFd Ex) (t.inGen Ex) (t.inConnId Ex) 1 0 [] with
  | (.deleted, t) => return { e with tables := t }
  | _ => .error .assertion

/-- `if (Ex) remove_ext_connection (Ex, ...)`. -/
def removeIfAny (net : Net) (e : Engine) (Ex : Ptr) (sendNotifications : ℕ) :
    Except Fault Engine :=
  if Ex ≠ .null then removeExtConnection net e Ex sendNotifications else .ok e

/-! ## Middle-end connections -/

/-- `mtfront_client_ready`. -/
def mtfrontClientReady (e : Engine) (C : ConnRef) : Except Fault Engine := do
  require (e.extraInt C = 0) .assertion
  let e := { e with extraInt := update e.extraInt C (getConnTag C) }
  let H := Ptr.head C.fd
  let t := e.tables
  require (t.oPrev H = .null) .assertion
  return { e with tables := { t with
    oNext := update t.oNext H H
    oPrev := update t.oPrev H H
    outFd := update t.outFd H C.fd } }

/-- The loop of `mtfront_client_close`, of at most `fuel` rounds. -/
def closeLoop (net : Net) (fd : ℕ) : ℕ → Engine → Ptr → Except Fault Engine
  | 0, _, _ => .error .endless
  | fuel + 1, e, Ex => do
    if Ex = .head fd then
      return e
    else
      require (e.tables.valid Ex) .badPointer
      let ExNext := e.tables.oNext Ex
      require (e.tables.outFd Ex = fd) .assertion
      let e ← removeExtConnection net e Ex 2
      closeLoop net fd fuel e ExNext

/-- `mtfront_client_close`. -/
def mtfrontClientClose (net : Net) (e : Engine) (C : ConnRef) : Except Fault Engine := do
  let e ←
    if e.extraInt C ≠ 0 then do
      require (e.extraInt C = getConnTag C) .assertion
      let H := Ptr.head C.fd
      require (e.tables.oNext H ≠ .null) .assertion
      let e ← closeLoop net C.fd (e.tables.extConnections.toNat + 1) e (e.tables.oNext H)
      let t := e.tables
      require (t.oNext H = H ∧ t.oPrev H = H) .assertion
      pure { e with tables := { t with
        oNext := update t.oNext H .null
        oPrev := update t.oPrev H .null
        outFd := update t.outFd H 0 } }
    else pure e
  return { e with extraInt := update e.extraInt C 0 }

/-! ## Client connections -/

/-- `mtproto_ext_rpc_close`. -/
def mtprotoExtRpcClose (net : Net) (e : Engine) (C : ConnRef) : Except Fault Engine := do
  let Ex ← getExtConnectionByInFd e.tables C.fd
  removeIfAny net e Ex 1

/-- `lru_delete_conn`. -/
def lruDeleteConn (e : Engine) (c : ConnRef) : Except Fault Engine := do
  let t := e.tables
  let Ext ← getExtConnectionByInFd t c.fd
  if Ext ≠ .null ∧ t.inFd Ext = c.fd then
    let t ← lruDeleteExtConn t Ext
    return { e with tables := t }
  else
    return e

/-- `lru_insert_conn`, which is also `mtproto_ext_rpc_ready`. -/
def lruInsertConn (e : Engine) (c : ConnRef) : Except Fault Engine := do
  let t := e.tables
  let Ext ← getExtConnectionByInFd t c.fd
  if Ext ≠ .null ∧ t.inFd Ext = c.fd ∧ t.inGen Ext = c.generation then
    let t ← lruInsertExtConn t Ext
    return { e with tables := t }
  else
    return e

/-- One round of the loop of `check_all_conn_buffers`: the least recently used client fails. -/
def evictLeastRecent (net : Net) (e : Engine) : Except Fault Engine := do
  let t := e.tables
  let Ext := t.lruNext .lru
  if Ext ≠ .lru then
    require (t.valid Ext) .badPointer
    let e :=
      match connectionGetByFdGeneration net (t.inFd Ext) (t.inGen Ext) with
      | some d => e.emit (.fail d (-500))
      | none => e
    let t ← lruDeleteExtConn t Ext
    return { e with tables := t }
  else
    return e

/-! ## Messages of middle-ends -/

/-- `check_conn_buffers`, which found the buffers too full or not. -/
def checkConnBuffers (e : Engine) (c : ConnRef) (overfull : Bool) : Bool × Engine :=
  if overfull then (false, e.emit (.fail c (-429))) else (true, e)

/-- `http_send_message`. -/
def httpSendMessage (net : Net) (e : Engine) (C : ConnRef) (data : Bytes) (flags : ℕ) :
    Except Fault Engine := do
  let e :=
    if flags.testBit 4 ∧ data.length = 4 then
      e.emit (.send C (.httpError (-asInt32 (le32 data))))
    else
      e.emit (.send C (.httpAnswer data))
  require (net.awaitsHttp C) .assertion
  let Ex ← getExtConnectionByInFd e.tables C.fd
  let e ← removeIfAny net e Ex 1
  return e.emit (.finishHttp C)

/-- `client_send_message`. -/
def clientSendMessage (net : Net) (e : Engine) (C : ConnRef) (inConnId : Int64) (data : Bytes)
    (flags : ℕ) : Except Fault Engine := do
  let (fits, e) := checkConnBuffers e C (net.overfull C)
  if fits then
    require (inConnId = 0) .assertion
    if net.kind C = .httpServer then
      httpSendMessage net e C data flags
    else
      let e := e.emit (.send C (.answer data))
      return (checkConnBuffers e C (net.overfullAfter C)).2
  else
    return e

/-- `z = lrand48_j() & 1; while (z-- > 0) push (lrand48_j())`, on the values of `lrand48_j`. -/
def junkWord : List ℕ → Bytes × List ℕ
  | z :: t :: rands => if z.testBit 0 then (leBytes 4 t, rands) else ([], t :: rands)
  | rands => ([], rands)

/-- `push_rpc_confirmation`. -/
def pushRpcConfirmation (net : Net) (e : Engine) (C : ConnRef) (confirm : ℕ) (rands : List ℕ) :
    Engine :=
  if (rands.headD 0).testBit 0 ∨ net.isPadded C = false then
    e.emit (.send C (.raw (0xdd :: leBytes 4 confirm)))
  else
    let (junk₁, rands) := junkWord rands.tail
    let (junk₂, _) := junkWord rands
    (e.emit (.send C (.packet (leBytes 4 (2 ^ 32 - 1) ++ leBytes 4 confirm ++ junk₁)))).emit
      (.send C (.packet (leBytes 4 0 ++ junk₂)))

/-- `__builtin_bswap32`. -/
def bswap32 (x : ℕ) : ℕ := leWord (leBytes 4 x).reverse

/-- `tl_fetch_long`. -/
def leLong (bs : Bytes) : Int64 := Int64.ofNat (leWord (bs.take 8))

/-- `RPC_PONG`. -/
def rpcPong : ℕ := 0x8430eaa7

/-- `RPC_PROXY_ANS`. -/
def rpcProxyAns : ℕ := 0x4403da0d

/-- `RPC_SIMPLE_ACK`. -/
def rpcSimpleAck : ℕ := 0x3bac409b

/-- `RPC_CLOSE_EXT`. -/
def rpcCloseExt : ℕ := 0x5eb634a2

/-- The client of the entry `Ex`, if the entry exists and is bound to `C`. -/
def boundClient (net : Net) (t : ExtTables) (C : ConnRef) (Ex : Ptr) : Option ConnRef :=
  if Ex ≠ .null ∧ t.outFd Ex = C.fd ∧ t.outGen Ex = C.generation then
    connectionGetByFdGeneration net (t.inFd Ex) (t.inGen Ex)
  else
    none

/-- `process_client_packet`: a message of the middle-end `C`, and the values of `lrand48_j`. -/
def processClientPacket (net : Net) (e : Engine) (C : ConnRef) (op : ℕ) (msg : Bytes)
    (rands : List ℕ) : Except Fault (ℕ × Engine) := do
  let len := msg.length
  require (4 ≤ len ∧ op = le32 msg) .assertion
  let msg := msg.drop 4
  let t := e.tables
  if op = rpcPong then
    return (1, e)
  else if op = rpcProxyAns then
    if 16 ≤ len then
      let flags := le32 msg
      let outConnId := leLong (msg.drop 4)
      let data := msg.drop 12
      require (data.length = len - 16) .assertion
      let Ex ← findExtConnectionByOutConnId t outConnId
      match boundClient net t C Ex with
      | some D =>
        let e ← clientSendMessage net e D (t.inConnId Ex) data flags
        return (1, e)
      | none => return (1, notifyRemoteClosed e C outConnId)
    else
      return (0, e)
  else if op = rpcSimpleAck then
    if len = 16 then
      let outConnId := leLong msg
      let confirm := le32 (msg.drop 8)
      let Ex ← findExtConnectionByOutConnId t outConnId
      match boundClient net t C Ex with
      | some D =>
        require (t.inConnId Ex = 0) .assertion
        let confirm := if net.isCompact D then bswap32 confirm else confirm
        return (1, pushRpcConfirmation net e D confirm rands)
      | none => return (1, notifyRemoteClosed e C outConnId)
    else
      return (0, e)
  else if op = rpcCloseExt then
    if len = 12 then
      let Ex ← findExtConnectionByOutConnId t (leLong msg)
      let e ← removeIfAny net e Ex 2
      return (1, e)
    else
      return (0, e)
  else
    return (0, e)

/-! ## Packets of clients -/

/-- `RPC_F_DROPPED`. -/
def rpcFDropped : ℕ := 0x10000000

/-- **What chance and the targets give** to the forwarding of one packet. -/
structure Chance where
  /-- the targets that `choose_proxy_target` tries, each with the connection that
  `rpc_target_choose_random_connections` returns for it; none if there is no cluster -/
  picks : Option (List (ℕ × Option ConnRef))
  /-- the connections that `rpc_target_choose_random_connections` returns to
  `forward_tcp_query` -/
  conns : List (Option ConnRef)
  /-- the cell that `calloc` returns -/
  cell : ℕ
  /-- the values of `lrand48` -/
  rands : List ℕ

/-- The connection is ready: it carries the tag of its generation. -/
def Engine.isReady (e : Engine) (d : ConnRef) : Bool := decide (e.extraInt d = getConnTag d)

/-- `choose_proxy_target`. -/
def chooseProxyTarget (e : Engine) (picks : Option (List (ℕ × Option ConnRef))) : Option ℕ :=
  picks.bind fun tries =>
    ((tries.take 5).find? (fun pick => pick.2.any e.isReady)).map Prod.fst

/-- The loop of `forward_tcp_query` that looks for a ready connection of the target. -/
def chooseReady (e : Engine) (S : Option ℕ) (conns : List (Option ConnRef)) : Option ConnRef :=
  S.bind fun _ => (conns.take 5).findSome? (fun d => d.filter e.isReady)

/-- The flags of a request. -/
def queryFlags (net : Net) (e : Engine) (c : ConnRef) (flags : ℕ) : ℕ :=
  match net.kind c with
  | .extServer => flags ||| (if e.dropped c then rpcFDropped else 0) ||| 0x1000
  | .httpServer => flags ||| 0x3005
  | .other => flags

/-- The part of `forward_tcp_query` that keeps the middle-end of an earlier packet: the
middle-end and the entry, if they are still there. -/
def keepMiddleEnd (net : Net) (e : Engine) (Ex : Ptr) :
    Except Fault (Option ConnRef × Ptr × Engine) := do
  if Ex ≠ .null then
    let t := e.tables
    require (0 < t.outFd Ex ∧ t.outFd Ex < maxConnections) .assertion
    match (connectionGetByFdGeneration net (t.outFd Ex) (t.outGen Ex)).filter net.hasTarget with
    | some d => return (some d, Ex, e)
    | none =>
      let e ← removeExtConnection net e Ex 1
      return (none, .null, e)
  else
    return (none, .null, e)

/-- The end of `forward_tcp_query`: the request goes to the middle-end `d`. -/
def sendQuery (net : Net) (e : Engine) (c d : ConnRef) (Ex : Ptr) (flags : ℕ) (data : Bytes) :
    Except Fault (ℕ × Engine) := do
  require (Ex ≠ .null) .assertion
  let flags := if net.proxyTagSet then flags ||| 8 else flags
  let e := e.emit (.send d (.proxyReq flags (e.tables.outConnId Ex) (net.remoteIpPort c)
    (net.ourIpPort c) (net.extra flags) data))
  require (net.kind c = .httpServer → net.awaitsHttp c = true) .assertion
  return (1, e)

/-- `forward_tcp_query`. -/
def forwardTcpQuery (net : Net) (e : Engine) (c : ConnRef) (S : Option ℕ) (flags : ℕ)
    (authKeyId : Int64) (data : Bytes) (chance : Chance) : Except Fault (ℕ × Engine) := do
  let Ex ← getExtConnectionByInFd e.tables c.fd
  let flags := queryFlags net e c flags
  let e :=
    if Ex ≠ .null ∧ e.tables.authKeyId Ex ≠ authKeyId then
      { e with tables := { e.tables with authKeyId := update e.tables.authKeyId Ex authKeyId } }
    else e
  let (d, Ex, e) ← keepMiddleEnd net e Ex
  match d with
  | some d => sendQuery net e c d Ex flags data
  | none =>
    match chooseReady e S chance.conns with
    | none =>
      let e :=
        if net.kind c = .extServer then { e with dropped := update e.dropped c true } else e
      return (0, e)
    | some d =>
      if flags &&& rpcFDropped ≠ 0 then
        return (0, e.emit (.fail c (-35)))
      else
        let (Ex, t) ←
          createExtConnection e.tables c 0 (some d) authKeyId chance.cell chance.rands
        sendQuery net { e with tables := t } c d Ex flags data

/-- `offsetof (struct encrypted_message, message)`. -/
def encryptedHeader : ℕ := 56

/-- The functions that an unencrypted message may call. -/
def handshakeFunctions : List ℕ :=
  [0x60469778, 0xbe7e8ef1, 0xd712e4be, 0xf5045f1f]

/-- `forward_mtproto_packet`, with `forward_mtproto_enc_packet`. -/
def forwardMtprotoPacket (net : Net) (e : Engine) (c : ConnRef) (rpcFlags : ℕ) (data : Bytes)
    (chance : Chance) : Except Fault (ℕ × Engine) := do
  let len := data.length
  if len < 28 ∨ len % 4 ≠ 0 then
    return (0, e)
  else
    let authKeyId := leLong data
    if authKeyId ≠ 0 then
      if len < encryptedHeader then
        return (0, e)
      else
        forwardTcpQuery net e c (chooseProxyTarget e chance.picks) rpcFlags authKeyId data chance
    else
      let innerLen := asInt32 (le32 (data.drop 16))
      if wrap32 (innerLen + 20) > len ∨ innerLen < 20 then
        return (0, e)
      else if le32 (data.drop 20) ∉ handshakeFunctions then
        return (0, e)
      else
        forwardTcpQuery net e c (chooseProxyTarget e chance.picks) (2 ||| rpcFlags) 0 data chance

/-- `do_rpcs_execute`. -/
def doRpcsExecute (net : Net) (e : Engine) (c : ConnRef) (rpcFlags : ℕ) (data : Bytes)
    (chance : Chance) : Except Fault Engine := do
  let e ← lruInsertConn e c
  let (_, e) ← forwardMtprotoPacket net e c rpcFlags data chance
  return e

end MtprotoProxy
