/-
# Handshake packets of the RPC server

The second packet of an RPC connection: `tcp_rpcs_process_handshake_packet` of
`net/net-tcp-rpc-server.c` with its replies, and the process ids of `common/pid.c`.

`processHandshake_spec` says when an assertion fails.  The server insists on a process id
other than zero when it sends an error packet; `init_common_PID` keeps the lower 16 bits of
`getpid`, which may all be zero.
-/
import MtprotoProxy.RpcNonce

namespace MtprotoProxy

open CLib

/-! ## Handshake packets -/

/-- `RPC_HANDSHAKE`. -/
def rpcHandshake : ℤ := 0x7682eef5

/-- `RPC_HANDSHAKE_ERROR`. -/
def rpcHandshakeError : ℤ := 0x6a27beda

/-- `RPCF_USE_CRC32C`. -/
def rpcfUseCrc32c : ℤ := 2048

/-- `init_server_PID`, with `init_common_PID`. -/
def initServerPid (w : RpcsWorld) (ip port : ℕ) (p : ProcessId) : ProcessId where
  ip := if ip ≠ 0 ∧ ip ≠ 0x7f000001 then ip else p.ip
  port := if p.port = 0 then Int.bmod port (2 ^ 16) else p.port
  pid := if p.pid = 0 then w.getpid % 2 ^ 16 else p.pid
  utime := if p.utime = 0 then w.now else p.utime

/-- The first lines of `tcp_rpcs_process_handshake_packet`: `PID` gets an address. -/
def ensurePid (setup : RpcsSetup) (w : RpcsWorld) (conn : RpcsConn) : RpcsConn :=
  if conn.pid.ip = 0 then
    let p := initServerPid w setup.ends.ourIp setup.ends.ourPort conn.pid
    { conn with pid := if p.ip = 0 then { p with ip := w.myIpv4 } else p }
  else conn

/-- `tcp_rpcs_send_handshake_packet`. -/
def sendHandshake (conn : RpcsConn) : Except Fault (ℤ × RpcsConn) := do
  require (conn.pid.ip ≠ 0) Fault.assertion
  let flags := if conn.cryptoFlags.useCrc32c then rpcfUseCrc32c else 0
  pure (0, conn.sendFramed
    (intBytes rpcHandshake ++ intBytes flags ++ conn.pid.bytes ++ conn.remotePid.bytes))

/-- `tcp_rpcs_send_handshake_error_packet`, and the caller's `return` of the same code. -/
def refuseHandshake (code : ℤ) (conn : RpcsConn) : Except Fault (ℤ × RpcsConn) := do
  require (conn.pid.pid ≠ 0) Fault.assertion
  pure (code, conn.sendQueued (intBytes rpcHandshakeError ++ intBytes code ++ conn.pid.bytes))

/-- `tcp_rpcs_process_handshake_packet`. -/
def processHandshake (setup : RpcsSetup) (w : RpcsWorld) (msg : Bytes) (conn : RpcsConn) :
    Except Fault (ℤ × RpcsConn) := do
  let conn := ensurePid setup w conn
  let packetType := rwmFetchLookup msg 4
  require (packetType.length = 4) Fault.assertion
  if conn.inPacketNum ≠ -1 ∨ asInt32 (le32 packetType) ≠ rpcHandshake then pure (-2, conn)
  else if msg.length ≠ 32 then refuseHandshake (-3) conn
  else do
    let (P, _) := rwmFetchData msg msg.length
    -- 32 bytes: type, flags, the process ids of the sender and of the peer it means
    require (P.length = msg.length) Fault.assertion
    let conn := { conn with remotePid := ProcessId.ofBytes (P.drop 8) }
    let flags := le32 (P.drop 4)
    if matchesPid conn.pid (ProcessId.ofBytes (P.drop 20)) = 0 ∧ !setup.ignorePid then
      refuseHandshake (-4) conn
    else if flags % 256 ≠ 0 then refuseHandshake (-7) conn
    else if flags.testBit 11 && setup.defaultCrc32c then
      pure (0, { conn with cryptoFlags := { conn.cryptoFlags with useCrc32c := true } })
    else pure (0, conn)

/-! ## When an assertion fails -/

/-- The server answers a handshake packet with an error packet. -/
def SendsHandshakeError (setup : RpcsSetup) (msg : Bytes) (conn : RpcsConn) : Prop :=
  conn.inPacketNum = -1 ∧ intAt msg 0 = rpcHandshake ∧
    (msg.length ≠ 32 ∨
      (matchesPid conn.pid (ProcessId.ofBytes (msg.drop 20)) = 0 ∧ setup.ignorePid = false) ∨
      le32 (msg.drop 4) % 256 ≠ 0)

/-- An error packet is only sent by a server whose 16-bit process id is not zero. -/
def HandshakeOk (setup : RpcsSetup) (msg : Bytes) (conn : RpcsConn) : Prop :=
  SendsHandshakeError setup msg conn → conn.pid.pid ≠ 0

/-- What a handshake packet leaves: the stream, and the mark that the reply was sent. -/
def KeepsHandshake (conn : RpcsConn) (r : ℤ × RpcsConn) : Prop :=
  SameStream conn r.2 ∧ r.2.cryptoFlags.encSent = conn.cryptoFlags.encSent

theorem KeepsHandshake.refl (code : ℤ) (conn : RpcsConn) : KeepsHandshake conn (code, conn) :=
  ⟨SameStream.refl conn, rfl⟩

theorem KeepsHandshake.of_remotePid {conn : RpcsConn} {p : ProcessId} {r : ℤ × RpcsConn}
    (h : KeepsHandshake { conn with remotePid := p } r) : KeepsHandshake conn r :=
  ⟨⟨h.1.1, h.1.2, h.1.3, h.1.4, h.1.5, h.1.6, h.1.7⟩, h.2⟩

/-- An error packet: an assertion fails exactly when the process id is zero. -/
theorem refuseHandshake_spec (code : ℤ) (conn : RpcsConn) :
    FailsUnless Fault.assertion (conn.pid.pid ≠ 0) (KeepsHandshake conn)
      (refuseHandshake code conn) := by
  unfold refuseHandshake
  by_cases h : conn.pid.pid = 0
  · rw [require_error (not_not.mpr h), error_bind]
    exact FailsUnless.fault (not_not.mpr h)
  · rw [require_ok h, ok_bind]
    exact FailsUnless.returns h ⟨⟨rfl, rfl, rfl, rfl, rfl, rfl, id⟩, rfl⟩

/-- **A handshake packet**: an assertion fails exactly when an error packet is to be sent
and the process id of the server is zero. -/
theorem processHandshake_spec (setup : RpcsSetup) (w : RpcsWorld) {msg : Bytes}
    (hmsg : 4 ≤ msg.length) {conn : RpcsConn} (hip : conn.pid.ip ≠ 0) :
    FailsUnless Fault.assertion (HandshakeOk setup msg conn) (KeepsHandshake conn)
      (processHandshake setup w msg conn) := by
  have htype : (rwmFetchLookup msg 4).length = 4 := by
    simp [rwmFetchLookup, hmsg]
  have hword : asInt32 (le32 (rwmFetchLookup msg 4)) = intAt msg 0 := by
    simp [rwmFetchLookup, intAt, le32, List.take_take]
  have hraw : (rwmFetchData msg msg.length).1 = msg := by
    simp [rwmFetchData]
  have hensure : ensurePid setup w conn = conn := if_neg hip
  -- three branches answer with an error packet, the others fail no assertion
  have hsends : SendsHandshakeError setup msg conn →
      (conn.pid.pid ≠ 0 ↔ HandshakeOk setup msg conn) :=
    fun h => ⟨fun hpid _ => hpid, fun hok => hok h⟩
  have hquiet : ¬ SendsHandshakeError setup msg conn → HandshakeOk setup msg conn :=
    fun hno h => absurd h hno
  unfold processHandshake
  dsimp only
  rw [hensure, require_ok htype, ok_bind, hword]
  split
  · rename_i h
    have hno : ¬ SendsHandshakeError setup msg conn := by
      rintro ⟨hnum, hty, -⟩
      exact h.elim (fun hn => hn hnum) (fun hn => hn hty)
    exact FailsUnless.returns (hquiet hno) (KeepsHandshake.refl _ conn)
  rename_i hours
  rw [not_or, not_not, not_not] at hours
  split
  · rename_i hlen
    exact (refuseHandshake_spec _ conn).congr (hsends ⟨hours.1, hours.2, Or.inl hlen⟩)
  rename_i hlen
  rw [hraw, require_ok rfl, ok_bind]
  have hrefuse : ∀ {code : ℤ} {p : ProcessId}, SendsHandshakeError setup msg conn →
      FailsUnless Fault.assertion (HandshakeOk setup msg conn) (KeepsHandshake conn)
        (refuseHandshake code { conn with remotePid := p }) := by
    intro code p hsend
    have hspec := refuseHandshake_spec code { conn with remotePid := p }
    exact (hspec.congr (hsends hsend)).mono (fun _ h => h.of_remotePid)
  split
  · rename_i hpid
    have hsend : SendsHandshakeError setup msg conn :=
      ⟨hours.1, hours.2, Or.inr (Or.inl ⟨hpid.1, by simpa using hpid.2⟩)⟩
    exact hrefuse hsend
  rename_i hpid
  split
  · rename_i hflags
    have hsend : SendsHandshakeError setup msg conn :=
      ⟨hours.1, hours.2, Or.inr (Or.inr hflags)⟩
    exact hrefuse hsend
  rename_i hflags
  have hno : ¬ SendsHandshakeError setup msg conn := by
    rintro ⟨-, -, h | ⟨h, hignore⟩ | h⟩
    · exact hlen h
    · exact hpid ⟨h, by simp [hignore]⟩
    · exact hflags h
  split
  · exact FailsUnless.returns (hquiet hno) ⟨⟨rfl, rfl, rfl, rfl, rfl, rfl, id⟩, rfl⟩
  · exact FailsUnless.returns (hquiet hno) ⟨⟨rfl, rfl, rfl, rfl, rfl, rfl, id⟩, rfl⟩

end MtprotoProxy
