/-
# The parse loop of the RPC server

`tcp_rpcs_parse_execute` of `net/net-tcp-rpc-server.c` on the decrypted input of a
connection: frames with a length, a packet number and a checksum, the nonce and handshake
packets of `RpcNonce` and `RpcHandshake`, and the packets the server executes.

A connection starts with `tcp_rpcs_init_accepted` and lives through reads: bytes arrive and
the loop runs until it returns.  A peer is promised not to be able to crash the server.  It
can, in two ways: a value for the DH exchange that `is_good_rpc_dh_bin` rejects makes an
assertion of `tcp_rpcs_init_crypto` fail, and a handshake packet that is answered with an
error fails one when the lower 16 bits of the server's process id are zero.
`reads_safe_iff` says that these, and random exponents with a short power, are the only
ones.
-/
import MtprotoProxy.RpcHandshake
import MtprotoProxy.Runs

namespace MtprotoProxy

open CLib

/-! ## Frames -/

/-- `"HEAD"`, `"POST"`, `"GET "` and `"OPTI"`, read as `int`s. -/
def httpWords : List ℤ :=
  [[72, 69, 65, 68], [80, 79, 83, 84], [71, 69, 84, 32], [79, 80, 84, 73]].map
    (fun text => asInt32 (le32 text))

/-- What the front of `c->in` comes to. -/
inductive Frame : Type where
  /-- more bytes are needed -/
  | wait (need : ℤ) : Frame
  /-- the connection fails; this input is left -/
  | bad (rest : Bytes) : Frame
  /-- a request for the HTTP fallback -/
  | http : Frame
  /-- four bytes of padding -/
  | skip (rest : Bytes) : Frame
  | packet (packetNum packetType : ℤ) (msg rest : Bytes) : Frame

/-- `packet_len`, without the bit for quick acknowledgements when that is in use. -/
def framedLength (conn : RpcsConn) (word : Bytes) : ℤ :=
  if conn.cryptoFlags.quickack then (le32 word % 2 ^ 31 : ℕ) else asInt32 (le32 word)

/-- `D->flags` takes that bit over. -/
def noteQuickack (conn : RpcsConn) : RpcsConn :=
  if conn.cryptoFlags.quickack ∧ 4 ≤ conn.input.length then
    { conn with quickack := (le32 conn.input).testBit 31 }
  else conn

/-- The packet in a frame whose bytes are all there. -/
def openFrame (setup : RpcsSetup) (conn : RpcsConn) (frame rest : Bytes) : Except Fault Frame := do
  let (crc32, body) := rwmFetchDataBack frame 4
  require (crc32.length = 4) Fault.assertion
  let packetCrc32 := rwmCustomCrc32 setup.checksums conn.customCrcPartial body
  if le32 crc32 ≠ packetCrc32.toNat then pure (.bad rest)
  else do
    let (packetLen, msg) := rwmFetchData body 4
    require (packetLen.length = 4) Fault.assertion
    let (packetNum, msg) := rwmFetchData msg 4
    require (packetNum.length = 4) Fault.assertion
    let packetType := rwmFetchLookup msg 4
    require (packetType.length = 4) Fault.assertion
    pure (.packet (asInt32 (le32 packetNum)) (asInt32 (le32 packetType)) msg rest)

/-- The part of a round of the loop that looks at the length of the next packet and cuts it
off. -/
def takeFrame (setup : RpcsSetup) (conn : RpcsConn) : Except Fault Frame :=
  let len : ℤ := conn.input.length
  if len ≤ 0 then .ok (.wait needMoreBytes)
  else if len < 4 then .ok (.wait (4 - len))
  else do
    let word := rwmFetchLookup conn.input 4
    require (word.length = 4) Fault.assertion
    let packetLen := framedLength conn word
    if packetLen ≤ 0 ∨ packetLen % 4 ≠ 0 ∨ 2 ^ 30 ≤ packetLen then
      -- no length: perhaps the first word of an HTTP request
      if conn.inPacketNum ≤ -2 ∧ packetLen ∈ httpWords ∧ setup.httpFallback then pure .http
      else pure (.bad conn.input)
    else if setup.maxPacketLen < packetLen ∧ 0 < setup.maxPacketLen then pure (.bad conn.input)
    else if packetLen = 4 then do
      let (padding, rest) := rwmFetchData conn.input 4
      require (padding.length = 4) Fault.assertion
      pure (.skip rest)
    else if packetLen < 16 then pure (.bad conn.input)
    else if len < packetLen then pure (.wait (packetLen - len))
    else
      let (frame, rest) := rwmFetchData conn.input packetLen.toNat
      openFrame setup conn frame rest

/-! ## The loop -/

/-- The switch to the HTTP fallback: `custom_data` is cleared. -/
def switchToHttp (w : RpcsWorld) (conn : RpcsConn) : RpcsConn :=
  let conn := { conn with
    http := true
    quickack := false
    inPacketNum := 0
    outPacketNum := 0
    cryptoFlags := ⟨false, false, false, false, false, false, false, false⟩
    remotePid := ⟨0, 0, 0, 0⟩
    nonce := List.replicate 16 0
    nonceTime := 0 }
  if w.httpAccepts then conn else conn.fail

/-- A packet with a negative number. -/
def controlPacket (setup : RpcsSetup) (w : RpcsWorld) (packetNum : ℤ) (msg : Bytes)
    (conn : RpcsConn) : Except Fault (ℤ × RpcsConn) :=
  if packetNum = -2 then processNonce setup w msg conn
  else if packetNum = -1 then do
    let (res, conn) ← processHandshake setup w msg conn
    if 0 ≤ res then do
      let (res, conn) ← sendHandshake conn
      if conn.cryptoFlags.useCrc32c then pure (res, { conn with customCrcPartial := .crc32c })
      else pure (res, conn)
    else pure (res, conn)
  else .ok (-1, conn)

/-- `tcp_rpcs_default_execute` for a ping, `execute` of the server for the rest. -/
def executeFramed (w : RpcsWorld) (packetType : ℤ) (msg : Bytes) (conn : RpcsConn) :
    Except Fault RpcsConn :=
  if packetType = rpcPing then
    if msg.length = 12 then do
      let (P, _) := rwmFetchData msg 12
      require (P.length = 12) Fault.assertion
      pure (conn.sendQueued (pongOf P))
    else pure conn
  else
    let effect := w.execute packetType msg
    pure { conn with
      error := conn.error || effect.fails
      stopParse := conn.stopParse || effect.stopsParse
      sent := conn.sent ++ effect.replies }

/-- `D->in_packet_num++`. -/
def RpcsConn.countPacket (conn : RpcsConn) : RpcsConn :=
  { conn with inPacketNum := wrap32 (conn.inPacketNum + 1) }

/-- The first packet of a connection without a handshake has number `0`. -/
def RpcsConn.startCount (conn : RpcsConn) : RpcsConn :=
  if conn.inPacketNum = -3 then { conn with inPacketNum := 0 } else conn

/-- The part of a round that handles a packet; `some` value is the value the loop returns. -/
def handlePacket (setup : RpcsSetup) (w : RpcsWorld) (packetNum packetType : ℤ) (msg : Bytes)
    (conn : RpcsConn) : Except Fault (Option ℤ × RpcsConn) :=
  let conn := conn.startCount
  if !conn.cryptoFlags.seqnoHoles ∧ packetNum ≠ conn.inPacketNum then .ok (some 0, conn.fail)
  else if packetNum < 0 then do
    let (res, conn) ← controlPacket setup w packetNum msg conn
    if res < 0 then pure (some 0, conn.fail) else pure (none, conn.countPacket)
  else do
    let conn ← executeFramed w packetType msg conn
    pure (none, conn.countPacket)

/-- One round of the loop of `tcp_rpcs_parse_execute`. -/
def parseRound (setup : RpcsSetup) (w : RpcsWorld) (conn : RpcsConn) :
    Except Fault (Option ℤ × RpcsConn) :=
  if conn.error || conn.stopParse then .ok (some needMoreBytes, conn)
  else do
    let conn := noteQuickack conn
    match ← takeFrame setup conn with
    | .wait need => pure (some need, conn)
    | .bad rest => pure (some 0, { conn with input := rest }.fail)
    | .http => pure (some 0, switchToHttp w conn)
    | .skip rest => pure (none, { conn with input := rest })
    | .packet packetNum packetType msg rest =>
      handlePacket setup w packetNum packetType msg { conn with input := rest }

/-- The loop, from its round `i` on, for at most `fuel` rounds. -/
def parsePackets (setup : RpcsSetup) (w : ℕ → RpcsWorld) : ℕ → ℕ → RpcsConn →
    Except Fault (ℤ × RpcsConn)
  | _, 0, _ => .error Fault.endless
  | i, fuel + 1, conn => do
    match ← parseRound setup (w i) conn with
    | (some ret, conn) => pure (ret, conn)
    | (none, conn) => parsePackets setup w (i + 1) fuel conn

/-- `tcp_rpcs_parse_execute`: every round that does not return takes bytes off the input. -/
def tcpRpcsParseExecute (setup : RpcsSetup) (w : ℕ → RpcsWorld) (conn : RpcsConn) :
    Except Fault (ℤ × RpcsConn) :=
  parsePackets setup w 0 (conn.input.length + 1) conn

/-! ## Connections -/

/-- `tcp_rpcs_init_accepted`, with the permission word of `rpc_check_perm`, in a process
with this `PID` and these DH parameters. -/
def tcpRpcsInitAccepted (pid : ProcessId) (dhParamsSelect : ℤ) (perm : ℕ) : Option RpcsConn :=
  let flags := CryptoFlags.ofPerm perm
  if flags.allowUnenc || flags.allowEnc then
    some {
      input := []
      error := false
      stopParse := false
      isDh := false
      http := false
      crypto := none
      quickack := false
      inPacketNum := -2
      outPacketNum := -2
      cryptoFlags := flags
      remotePid := ⟨0, 0, 0, 0⟩
      nonce := List.replicate 16 0
      nonceTime := 0
      customCrcPartial := .crc32
      sent := []
      dhParamsSelect := dhParamsSelect
      pid := pid }
  else none

/-- One read: the bytes that arrive, and what the process answers in each round. -/
structure RpcsRead where
  chunk : Bytes
  world : ℕ → RpcsWorld

/-- The call of `tcp_rpcs_parse_execute` for a read. -/
def readCall (setup : RpcsSetup) (conn : RpcsConn) (e : RpcsRead) : Except Fault (ℤ × RpcsConn) :=
  tcpRpcsParseExecute setup e.world { conn with input := conn.input ++ e.chunk }

/-- A read; bytes for the HTTP fallback go to another parser.  `none`: the call does not
return. -/
def readStep (setup : RpcsSetup) (conn : RpcsConn) (e : RpcsRead) : Option RpcsConn :=
  if conn.http then some conn
  else
    match readCall setup conn e with
    | .ok (_, conn) => some conn
    | .error _ => none

/-! ## Frames are cut without a failed assertion -/

/-- What is known of a frame cut off the input of a connection. -/
def Frame.From (conn : RpcsConn) : Frame → Prop
  | .skip rest => rest.length < conn.input.length
  | .packet packetNum _ msg rest =>
    rest.length < conn.input.length ∧ 4 ≤ msg.length ∧ IsInt32 packetNum
  | _ => True

/-- The assertions on a frame of at least 16 bytes hold. -/
theorem openFrame_ok (setup : RpcsSetup) {conn : RpcsConn} {frame rest : Bytes}
    (hframe : 16 ≤ frame.length) (hrest : rest.length < conn.input.length) :
    ∃ f, openFrame setup conn frame rest = .ok f ∧ f.From conn := by
  have hcrc : (rwmFetchDataBack frame 4).1.length = 4 := by
    simp only [rwmFetchDataBack, List.length_drop]
    omega
  have hbody : (rwmFetchDataBack frame 4).2.length = frame.length - 4 := by
    simp [rwmFetchDataBack]
  unfold openFrame
  dsimp only
  rw [require_ok hcrc, ok_bind]
  split
  · exact ⟨_, rfl, trivial⟩
  generalize (rwmFetchDataBack frame 4).2 = body at hbody ⊢
  have hlen : (rwmFetchData body 4).1.length = 4 := by
    simp only [rwmFetchData, List.length_take]
    omega
  have hnum : (rwmFetchData (rwmFetchData body 4).2 4).1.length = 4 := by
    simp only [rwmFetchData, List.length_take, List.length_drop]
    omega
  have htype : (rwmFetchLookup (rwmFetchData (rwmFetchData body 4).2 4).2 4).length = 4 := by
    simp only [rwmFetchLookup, rwmFetchData, List.length_take, List.length_drop]
    omega
  rw [require_ok hlen, ok_bind, require_ok hnum, ok_bind, require_ok htype, ok_bind]
  refine ⟨_, rfl, hrest, ?_, isInt32_wrap32 _⟩
  simp only [rwmFetchData, List.length_drop]
  omega

/-- **Every assertion of the framing holds**, whatever the input is. -/
theorem takeFrame_ok (setup : RpcsSetup) (conn : RpcsConn) :
    ∃ f, takeFrame setup conn = .ok f ∧ f.From conn := by
  unfold takeFrame
  dsimp only
  split
  · exact ⟨_, rfl, trivial⟩
  split
  · exact ⟨_, rfl, trivial⟩
  rename_i hlen
  have hword : (rwmFetchLookup conn.input 4).length = 4 := by
    simp only [rwmFetchLookup, List.length_take]
    omega
  rw [require_ok hword, ok_bind]
  generalize framedLength conn (rwmFetchLookup conn.input 4) = packetLen
  split
  · split
    · exact ⟨_, rfl, trivial⟩
    · exact ⟨_, rfl, trivial⟩
  split
  · exact ⟨_, rfl, trivial⟩
  split
  · have hpad : (rwmFetchData conn.input 4).1.length = 4 := hword
    rw [require_ok hpad, ok_bind]
    refine ⟨_, rfl, ?_⟩
    simp only [Frame.From, rwmFetchData, List.length_drop]
    omega
  split
  · exact ⟨_, rfl, trivial⟩
  split
  · exact ⟨_, rfl, trivial⟩
  · apply openFrame_ok
    · simp only [rwmFetchData, List.length_take]
      omega
    · simp only [rwmFetchData, List.length_drop]
      omega

/-! ## Written frames are taken off -/

@[simp] theorem length_intBytes (x : ℤ) : (intBytes x).length = 4 := length_leBytes _ _

/-- An `int` that was written is read back. -/
theorem asInt32_intBytes {x : ℤ} (h : IsInt32 x) (rest : Bytes) :
    asInt32 (le32 (intBytes x ++ rest)) = x := by
  obtain ⟨hlo, hhi⟩ := h
  have hword : (x % 2 ^ 32).toNat < 2 ^ 32 := by omega
  rw [intBytes, le32_leBytes hword, asInt32]
  by_cases hx : 0 ≤ x
  · have hcast : (((x % 2 ^ 32).toNat : ℕ) : ℤ) = x := by omega
    rw [hcast, wrap32_of_isInt32 ⟨hlo, hhi⟩]
  · have hcast : (((x % 2 ^ 32).toNat : ℕ) : ℤ) = x + 2 ^ 32 := by omega
    rw [hcast, wrap32_of_ge (by omega) (by omega)]
    omega

/-- The bytes that `tcp_rpc_write_packet` makes of a message. -/
def frameBytes (k : Checksums) (crc : CrcPartial) (packetNum : ℤ) (raw : Bytes) : Bytes :=
  let framed := intBytes (raw.length + 12) ++ intBytes packetNum ++ raw
  framed ++ leBytes 4 (rwmCustomCrc32 k crc framed).toNat

/-- The checksum of a written frame is found to be right. -/
theorem openFrame_frameBytes (setup : RpcsSetup) (conn : RpcsConn) {packetNum : ℤ}
    (hnum : IsInt32 packetNum) {raw : Bytes} (hraw : 4 ≤ raw.length) (rest : Bytes) :
    openFrame setup conn
        (frameBytes setup.checksums conn.customCrcPartial packetNum raw) rest
      = .ok (.packet packetNum (intAt raw 0) raw rest) := by
  unfold openFrame frameBytes
  dsimp only
  generalize hframed : intBytes (raw.length + 12) ++ intBytes packetNum ++ raw = framed
  generalize hsum : (rwmCustomCrc32 setup.checksums conn.customCrcPartial framed).toNat = crc
  have hcrc : crc < 2 ^ 32 := by
    rw [← hsum]
    exact UInt32.toNat_lt _
  have hback : rwmFetchDataBack (framed ++ leBytes 4 crc) 4 = (leBytes 4 crc, framed) := by
    simp [rwmFetchDataBack]
  have hword : le32 (leBytes 4 crc) = crc := by
    have h := le32_leBytes hcrc []
    rwa [List.append_nil] at h
  have hlen : rwmFetchData framed 4 = (intBytes (raw.length + 12), intBytes packetNum ++ raw) := by
    rw [← hframed, List.append_assoc]
    simp [rwmFetchData]
  have hnext : rwmFetchData (intBytes packetNum ++ raw) 4 = (intBytes packetNum, raw) := by
    simp [rwmFetchData]
  have hnumber : asInt32 (le32 (intBytes packetNum)) = packetNum := by
    have h := asInt32_intBytes hnum []
    rwa [List.append_nil] at h
  have htype : (rwmFetchLookup raw 4).length = 4 := by
    simp [rwmFetchLookup, hraw]
  have hat : asInt32 (le32 (rwmFetchLookup raw 4)) = intAt raw 0 := by
    simp [rwmFetchLookup, intAt, le32, List.take_take]
  rw [hback]
  dsimp only
  rw [require_ok (length_leBytes 4 crc), ok_bind, hsum, hword, if_neg (fun h => h rfl), hlen]
  dsimp only
  rw [require_ok (length_intBytes _), ok_bind, hnext]
  dsimp only
  rw [require_ok (length_intBytes _), ok_bind, require_ok htype, ok_bind, hnumber, hat]
  rfl

/-- **Frames are read back**: what `tcp_rpc_write_packet` makes of a message is taken off the
input as one packet. -/
theorem takeFrame_frameBytes (setup : RpcsSetup) {conn : RpcsConn} {packetNum : ℤ}
    (hnum : IsInt32 packetNum) {raw rest : Bytes} (hraw : 4 ≤ raw.length)
    (halign : raw.length % 4 = 0) (hlong : raw.length + 12 < 2 ^ 30)
    (hmax : raw.length + 12 ≤ setup.maxPacketLen ∨ setup.maxPacketLen ≤ 0)
    (hquick : conn.cryptoFlags.quickack = false)
    (hinput : conn.input
      = frameBytes setup.checksums conn.customCrcPartial packetNum raw ++ rest) :
    takeFrame setup conn = .ok (.packet packetNum (intAt raw 0) raw rest) := by
  generalize hframe : frameBytes setup.checksums conn.customCrcPartial packetNum raw = frame
    at hinput
  have hlen : frame.length = raw.length + 12 := by
    rw [← hframe]
    simp [frameBytes]
    omega
  have htotal : conn.input.length = raw.length + 12 + rest.length := by
    rw [hinput, List.length_append, hlen]
  have hword : (rwmFetchLookup conn.input 4).length = 4 := by
    simp only [rwmFetchLookup, List.length_take]
    omega
  have hpacketLen : framedLength conn (rwmFetchLookup conn.input 4) = raw.length + 12 := by
    have hint : IsInt32 ((raw.length : ℤ) + 12) := ⟨by omega, by omega⟩
    rw [framedLength, hquick, if_neg (by simp), hinput, ← hframe]
    simp only [rwmFetchLookup, frameBytes, le32, List.take_take, Nat.min_self]
    rw [← le32, List.append_assoc, List.append_assoc, List.append_assoc]
    exact asInt32_intBytes hint _
  have hcut : rwmFetchData conn.input (raw.length + 12) = (frame, rest) := by
    rw [hinput, ← hlen]
    simp [rwmFetchData]
  have hnat : ((raw.length : ℤ) + 12).toNat = raw.length + 12 := by omega
  unfold takeFrame
  dsimp only
  rw [if_neg (by omega), if_neg (by omega), require_ok hword, ok_bind, hpacketLen,
    if_neg (by omega), if_neg (by omega), if_neg (by omega), if_neg (by omega),
    if_neg (by omega), hnat, hcut, ← hframe]
  exact openFrame_frameBytes setup conn hnum hraw rest

/-! ## The invariant of a connection -/

/-- What holds between two rounds of the loop. -/
structure RpcsInv (conn : RpcsConn) : Prop where
  ip : conn.pid.ip ≠ 0
  seqnoHoles : conn.cryptoFlags.seqnoHoles = false
  inPacketNum : conn.inPacketNum ≠ -3
  /-- before the nonce packet no reply was sent, or the connection is closed -/
  notSent : conn.inPacketNum = -2 → conn.error = false → conn.cryptoFlags.encSent = false
  /-- after it the reply was sent, or the connection is closed -/
  settled : conn.inPacketNum ≠ -2 → conn.http = false → conn.error = false →
    conn.cryptoFlags.encSent = true

/-- A connection that fails keeps the invariant. -/
theorem RpcsInv.fail {conn : RpcsConn} (h : RpcsInv conn) : RpcsInv conn.fail where
  ip := h.ip
  seqnoHoles := h.seqnoHoles
  inPacketNum := h.inPacketNum
  notSent := fun _ herr => absurd herr (by simp [RpcsConn.fail])
  settled := fun _ _ herr => absurd herr (by simp [RpcsConn.fail])

/-- New input does not touch the invariant. -/
theorem RpcsInv.withInput {conn : RpcsConn} (h : RpcsInv conn) (input : Bytes) :
    RpcsInv { conn with input := input } :=
  ⟨h.ip, h.seqnoHoles, h.inPacketNum, h.notSent, h.settled⟩

theorem RpcsInv.noteQuickack {conn : RpcsConn} (h : RpcsInv conn) :
    RpcsInv (noteQuickack conn) := by
  unfold MtprotoProxy.noteQuickack
  split
  · exact ⟨h.ip, h.seqnoHoles, h.inPacketNum, h.notSent, h.settled⟩
  · exact h

theorem RpcsInv.switchToHttp {conn : RpcsConn} (h : RpcsInv conn) (w : RpcsWorld) :
    RpcsInv (switchToHttp w conn) := by
  have hhttp : ∀ c : RpcsConn, c.pid = conn.pid → c.cryptoFlags.seqnoHoles = false →
      c.inPacketNum = 0 → c.http = true → RpcsInv c := by
    intro c hpid hseq hnum hc
    refine ⟨by rw [hpid]; exact h.ip, hseq, by rw [hnum]; decide, ?_, ?_⟩
    · intro hn _
      rw [hnum] at hn
      exact absurd hn (by decide)
    · intro _ hno
      rw [hc] at hno
      exact absurd hno (by decide)
  unfold MtprotoProxy.switchToHttp
  dsimp only
  split <;> exact hhttp _ rfl rfl rfl rfl

/-- A connection that is closed after its packet was handled. -/
theorem RpcsInv.fail_of_sameStream {conn conn' : RpcsConn} (h : RpcsInv conn)
    (hsame : SameStream conn conn') : RpcsInv conn'.fail where
  ip := by
    show conn'.pid.ip ≠ 0
    rw [hsame.pid]
    exact h.ip
  seqnoHoles := hsame.seqnoHoles h.seqnoHoles
  inPacketNum := by
    show conn'.inPacketNum ≠ -3
    rw [hsame.inPacketNum]
    exact h.inPacketNum
  notSent := fun _ herr => absurd herr (by simp [RpcsConn.fail])
  settled := fun _ _ herr => absurd herr (by simp [RpcsConn.fail])

/-! ## One round -/

/-- The packet that a round takes up does no harm: it is out of order, or its nonce or its
handshake is fine. -/
def ControlOk (setup : RpcsSetup) (w : RpcsWorld) (packetNum : ℤ) (msg : Bytes)
    (conn : RpcsConn) : Prop :=
  packetNum = conn.inPacketNum →
    (packetNum = -2 → NonceOk setup w msg conn) ∧ (packetNum = -1 → HandshakeOk setup msg conn)

/-- The condition on a round: if the connection is open and a whole packet is there, the
packet is fine. -/
def RoundOk (setup : RpcsSetup) (w : RpcsWorld) (conn : RpcsConn) : Prop :=
  conn.error = false → conn.stopParse = false → ∀ packetNum packetType msg rest,
    takeFrame setup (noteQuickack conn) = .ok (.packet packetNum packetType msg rest) →
      ControlOk setup w packetNum msg { noteQuickack conn with input := rest }

variable {setup : RpcsSetup}

/-- A round that finds a packet handles it. -/
theorem parseRound_of_packet {w : RpcsWorld} {conn : RpcsConn}
    {packetNum packetType : ℤ} {msg rest : Bytes} (herr : conn.error = false)
    (hstop : conn.stopParse = false) (hquick : conn.cryptoFlags.quickack = false)
    (hframe : takeFrame setup conn = .ok (.packet packetNum packetType msg rest)) :
    parseRound setup w conn
      = handlePacket setup w packetNum packetType msg { conn with input := rest } := by
  have hnote : noteQuickack conn = conn := if_neg (fun h => by simp [hquick] at h)
  have hopen : ¬ (conn.error || conn.stopParse) = true := by
    rw [herr, hstop]
    decide
  unfold parseRound
  dsimp only
  rw [if_neg hopen, hnote, hframe, ok_bind]

/-- The answer to a handshake packet insists on an address in `PID`. -/
theorem sendHandshake_ok {conn : RpcsConn} (hip : conn.pid.ip ≠ 0) :
    ∃ data, sendHandshake conn = .ok (0, conn.sendFramed data) := by
  unfold sendHandshake
  rw [require_ok hip, ok_bind]
  exact ⟨_, rfl⟩

/-- The answer to a handshake packet that was accepted or refused. -/
theorem answerHandshake_ok {conn : RpcsConn} (hip : conn.pid.ip ≠ 0)
    (hsent : conn.cryptoFlags.encSent = true) (res : ℤ) :
    ∃ r, (if 0 ≤ res then do
        let (res, conn) ← sendHandshake conn
        if conn.cryptoFlags.useCrc32c then pure (res, { conn with customCrcPartial := .crc32c })
        else pure (res, conn)
      else pure (res, conn) : Except Fault (ℤ × RpcsConn)) = .ok r ∧ SetsUp conn r := by
  split
  · obtain ⟨data, hdata⟩ := sendHandshake_ok hip
    rw [hdata, ok_bind]
    dsimp only
    split
    · exact ⟨_, rfl, ⟨rfl, rfl, rfl, rfl, rfl, rfl, id⟩, fun _ => hsent⟩
    · exact ⟨_, rfl, ⟨rfl, rfl, rfl, rfl, rfl, rfl, id⟩, fun _ => hsent⟩
  · exact ⟨_, rfl, SameStream.refl conn, fun _ => hsent⟩

/-- **A control packet in its turn**: an assertion fails exactly when the packet is not
fine; otherwise the stream is kept, and a success leaves a connection with a reply. -/
theorem controlPacket_spec (hfam : setup.SameFamily) (w : RpcsWorld)
    {msg : Bytes} (hmsg : 4 ≤ msg.length) {conn : RpcsConn} (hinv : RpcsInv conn)
    (hhttp : conn.http = false) (herr : conn.error = false) :
    FailsUnless Fault.assertion (ControlOk setup w conn.inPacketNum msg conn) (SetsUp conn)
      (controlPacket setup w conn.inPacketNum msg conn) := by
  unfold controlPacket ControlOk
  by_cases hnonce : conn.inPacketNum = -2
  · rw [if_pos hnonce]
    refine (processNonce_spec hfam w hmsg (hinv.notSent hnonce herr)).congr ⟨?_, ?_⟩
    · intro h _
      exact ⟨fun _ => h, fun h1 => absurd (hnonce.symm.trans h1) (by decide)⟩
    · intro h
      exact (h rfl).1 hnonce
  rw [if_neg hnonce]
  by_cases hshake : conn.inPacketNum = -1
  · rw [if_pos hshake]
    have hsent := hinv.settled hnonce hhttp herr
    refine ((processHandshake_spec setup w hmsg hinv.ip).bind_quiet ?_).congr ⟨?_, ?_⟩
    · rintro ⟨res, conn'⟩ ⟨hstream, hkeep⟩
      have hip : conn'.pid.ip ≠ 0 := by
        have hpid : conn'.pid = conn.pid := hstream.pid
        rw [hpid]
        exact hinv.ip
      obtain ⟨r, hr, hset⟩ := answerHandshake_ok hip (hkeep.trans hsent) res
      exact ⟨r, hr, hstream.trans hset.1, hset.2⟩
    · exact fun h _ => ⟨fun h2 => absurd h2 hnonce, fun _ => h⟩
    · exact fun h => (h rfl).2 hshake
  · rw [if_neg hshake]
    apply FailsUnless.returns
    · exact fun _ => ⟨fun h2 => absurd h2 hnonce, fun h1 => absurd h1 hshake⟩
    · exact SetsUp.refused

/-- A packet was handled and counted: the next one has another number than `-2`. -/
theorem RpcsInv.countPacket {conn conn' : RpcsConn} (h : RpcsInv conn)
    (hsame : conn'.pid = conn.pid) (hseq : conn'.cryptoFlags.seqnoHoles = false)
    (hnum : conn'.inPacketNum = conn.inPacketNum) (hint : IsInt32 conn.inPacketNum)
    (hcount : conn.inPacketNum = -2 ∨ -1 ≤ conn.inPacketNum)
    (hsent : conn'.cryptoFlags.encSent = true) : RpcsInv conn'.countPacket := by
  have hnext : wrap32 (conn'.inPacketNum + 1) ≠ -2 ∧ wrap32 (conn'.inPacketNum + 1) ≠ -3 := by
    obtain ⟨hlo, hhi⟩ := hint
    rw [hnum]
    -- the counter may wrap around, but not to the numbers of the two control packets
    by_cases hmax : conn.inPacketNum + 1 < 2 ^ 31
    · rw [wrap32_of_isInt32 ⟨by omega, hmax⟩]
      omega
    · rw [wrap32_of_ge (by omega) (by omega)]
      omega
  refine ⟨?_, hseq, hnext.2, fun h2 => absurd h2 hnext.1, fun _ _ _ => hsent⟩
  show conn'.pid.ip ≠ 0
  rw [hsame]
  exact h.ip

/-- `execute` and the answer to a ping fail no assertion and leave the stream's state. -/
theorem executeFramed_ok (w : RpcsWorld) (packetType : ℤ) (msg : Bytes) (conn : RpcsConn) :
    ∃ conn', executeFramed w packetType msg conn = .ok conn' ∧ conn'.input = conn.input ∧
      conn'.http = conn.http ∧ conn'.pid = conn.pid ∧ conn'.cryptoFlags = conn.cryptoFlags ∧
      conn'.inPacketNum = conn.inPacketNum := by
  unfold executeFramed
  split
  · split
    · rename_i hlen
      have hP : (rwmFetchData msg 12).1.length = 12 := by
        simp only [rwmFetchData, List.length_take]
        omega
      dsimp only
      rw [require_ok hP]
      exact ⟨_, rfl, rfl, rfl, rfl, rfl, rfl⟩
    · exact ⟨_, rfl, rfl, rfl, rfl, rfl, rfl⟩
  · exact ⟨_, rfl, rfl, rfl, rfl, rfl, rfl⟩

/-- What a packet leaves behind: the invariant, and the input without it. -/
def AfterPacket (conn : RpcsConn) (r : Option ℤ × RpcsConn) : Prop :=
  RpcsInv r.2 ∧ r.2.input = conn.input ∧ r.2.http = conn.http

/-- A control packet that succeeds is one of the two numbers the server knows. -/
theorem inPacketNum_of_controlPacket {w : RpcsWorld} {packetNum : ℤ}
    {msg : Bytes} {conn : RpcsConn} {r : ℤ × RpcsConn}
    (h : controlPacket setup w packetNum msg conn = .ok r) (hres : 0 ≤ r.1) :
    packetNum = -2 ∨ packetNum = -1 := by
  by_contra hno
  rw [not_or] at hno
  unfold controlPacket at h
  rw [if_neg hno.1, if_neg hno.2] at h
  rw [← Except.ok.inj h] at hres
  exact absurd hres (show ¬ (0 : ℤ) ≤ -1 by decide)

/-- **A packet**: an assertion fails exactly when the packet is not fine. -/
theorem handlePacket_spec (hfam : setup.SameFamily) (w : RpcsWorld)
    {packetNum : ℤ} (packetType : ℤ) {msg : Bytes} (hmsg : 4 ≤ msg.length)
    (hint : IsInt32 packetNum) {conn : RpcsConn} (hinv : RpcsInv conn)
    (hhttp : conn.http = false) (herr : conn.error = false) :
    FailsUnless Fault.assertion (ControlOk setup w packetNum msg conn) (AfterPacket conn)
      (handlePacket setup w packetNum packetType msg conn) := by
  have hstart : conn.startCount = conn := if_neg hinv.inPacketNum
  unfold handlePacket
  dsimp only
  rw [hstart, hinv.seqnoHoles]
  by_cases hnum : packetNum = conn.inPacketNum
  · subst hnum
    rw [if_neg (by simp)]
    split
    · have hcontrol := controlPacket_spec hfam w hmsg hinv hhttp herr
      have hrest : ∀ r, controlPacket setup w conn.inPacketNum msg conn = .ok r →
          SetsUp conn r → FailsUnless Fault.assertion True (AfterPacket conn)
            (match r with
              | (res, conn) => if res < 0 then pure (some 0, conn.fail)
                else pure (none, conn.countPacket)) := by
        rintro ⟨res, conn'⟩ hctl ⟨hstream, hsent⟩
        dsimp only
        split
        · exact FailsUnless.returns trivial
            ⟨hinv.fail_of_sameStream hstream, hstream.input, hstream.http⟩
        · rename_i hres
          have hcount : conn.inPacketNum = -2 ∨ -1 ≤ conn.inPacketNum := by
            have hknown := inPacketNum_of_controlPacket hctl (not_lt.mp hres)
            omega
          exact FailsUnless.returns trivial
            ⟨hinv.countPacket hstream.pid (hstream.seqnoHoles hinv.seqnoHoles)
              hstream.inPacketNum hint hcount (hsent (not_lt.mp hres)), hstream.input,
              hstream.http⟩
      exact (hcontrol.bind hrest).congr (and_iff_left (fun _ _ => trivial))
    · rename_i hpos
      obtain ⟨conn', hexec, hinput, hsamehttp, hpid, hflags, hsame⟩ :=
        executeFramed_ok w packetType msg conn
      rw [hexec, ok_bind]
      apply FailsUnless.returns
      · exact fun _ => ⟨fun h => absurd h (by omega), fun h => absurd h (by omega)⟩
      · refine ⟨hinv.countPacket hpid (by rw [hflags]; exact hinv.seqnoHoles) hsame hint
          (Or.inr (by omega)) ?_, hinput, hsamehttp⟩
        rw [hflags]
        exact hinv.settled (by omega) hhttp herr
  · rw [if_pos ⟨rfl, hnum⟩]
    exact FailsUnless.returns (fun heq => absurd heq hnum) ⟨hinv.fail, rfl, rfl⟩

/-- What a round leaves behind: the invariant, and when the loop goes on, less input. -/
def AfterRound (conn : RpcsConn) (r : Option ℤ × RpcsConn) : Prop :=
  RpcsInv r.2 ∧ (r.1 = none → r.2.input.length < conn.input.length ∧ r.2.http = false)

/-- A round that ends the call. -/
theorem AfterRound.ends {conn conn' : RpcsConn} {ret : ℤ} (h : RpcsInv conn') :
    AfterRound conn (some ret, conn') :=
  ⟨h, fun hnone => absurd hnone (by simp)⟩

/-- **One round of the loop**: an assertion fails exactly when its packet is not fine, and a
round after which the loop goes on took bytes off the input. -/
theorem parseRound_spec (hfam : setup.SameFamily) (w : RpcsWorld)
    {conn : RpcsConn} (hinv : RpcsInv conn) (hhttp : conn.http = false) :
    FailsUnless Fault.assertion (RoundOk setup w conn) (AfterRound conn)
      (parseRound setup w conn) := by
  unfold parseRound
  split
  · rename_i hstop
    apply FailsUnless.returns
    · intro herr hparse
      rw [herr, hparse] at hstop
      exact absurd hstop (by decide)
    · exact AfterRound.ends hinv
  rename_i hopen
  rw [Bool.not_eq_true, Bool.or_eq_false_iff] at hopen
  have hsame : (noteQuickack conn).http = false ∧ (noteQuickack conn).error = false ∧
      (noteQuickack conn).input = conn.input := by
    unfold noteQuickack
    split
    · exact ⟨hhttp, hopen.1, rfl⟩
    · exact ⟨hhttp, hopen.1, rfl⟩
  have hnote := hinv.noteQuickack
  -- what was cut off decides; only a packet can do harm
  obtain ⟨f, hf, hfrom⟩ := takeFrame_ok setup (noteQuickack conn)
  have hquiet : (∀ packetNum packetType msg rest, f ≠ .packet packetNum packetType msg rest) →
      RoundOk setup w conn := by
    intro hno _ _ packetNum packetType msg rest hpacket
    rw [hf] at hpacket
    exact absurd (Except.ok.inj hpacket) (hno packetNum packetType msg rest)
  dsimp only
  rw [hf, ok_bind]
  cases f with
  | wait need => exact FailsUnless.returns (hquiet (by simp)) (AfterRound.ends hnote)
  | bad rest =>
    exact FailsUnless.returns (hquiet (by simp)) (AfterRound.ends (hnote.withInput rest).fail)
  | http =>
    exact FailsUnless.returns (hquiet (by simp)) (AfterRound.ends (hnote.switchToHttp w))
  | skip rest =>
    apply FailsUnless.returns (hquiet (by simp))
    refine ⟨hnote.withInput rest, fun _ => ⟨?_, hsame.1⟩⟩
    have hlt : rest.length < (noteQuickack conn).input.length := hfrom
    rw [hsame.2.2] at hlt
    exact hlt
  | packet packetNum packetType msg rest =>
    obtain ⟨hrest, hmsg, hint⟩ := hfrom
    rw [hsame.2.2] at hrest
    have hpacket := handlePacket_spec hfam w packetType hmsg hint (hnote.withInput rest)
      hsame.1 hsame.2.1
    refine (hpacket.congr ⟨?_, ?_⟩).mono ?_
    · intro h _ _ packetNum' packetType' msg' rest' heq
      rw [hf] at heq
      obtain ⟨rfl, rfl, rfl, rfl⟩ := Frame.packet.inj (Except.ok.inj heq)
      exact h
    · exact fun h => h hopen.1 hopen.2 packetNum packetType msg rest hf
    · rintro r ⟨hinv', hinput, hhttp'⟩
      refine ⟨hinv', fun _ => ⟨?_, hhttp'.trans hsame.1⟩⟩
      rw [hinput]
      exact hrest

/-! ## One call -/

/-- The condition on the rounds of a call, from round `i` on. -/
def RoundsOk (setup : RpcsSetup) (w : ℕ → RpcsWorld) : ℕ → ℕ → RpcsConn → Prop
  | _, 0, _ => True
  | i, fuel + 1, conn =>
    RoundOk setup (w i) conn ∧
      ∀ conn', parseRound setup (w i) conn = .ok (none, conn') →
        RoundsOk setup w (i + 1) fuel conn'

/-- The loop goes on with the state a round leaves. -/
theorem parsePackets_of_none {w : ℕ → RpcsWorld} {i fuel : ℕ}
    {conn conn' : RpcsConn} (h : parseRound setup (w i) conn = .ok (none, conn')) :
    parsePackets setup w i (fuel + 1) conn = parsePackets setup w (i + 1) fuel conn' := by
  rw [parsePackets, h, ok_bind]

/-- The loop ends with a round that returns. -/
theorem parsePackets_of_some {w : ℕ → RpcsWorld} {i fuel : ℕ} {ret : ℤ}
    {conn conn' : RpcsConn} (h : parseRound setup (w i) conn = .ok (some ret, conn')) :
    parsePackets setup w i (fuel + 1) conn = .ok (ret, conn') := by
  rw [parsePackets, h, ok_bind]
  rfl

theorem parsePackets_of_error {w : ℕ → RpcsWorld} {i fuel : ℕ} {f : Fault}
    {conn : RpcsConn} (h : parseRound setup (w i) conn = .error f) :
    parsePackets setup w i (fuel + 1) conn = .error f := by
  rw [parsePackets, h, error_bind]

/-- A call ends with the first round when that fails an assertion. -/
theorem readCall_of_error {conn : RpcsConn} {e : RpcsRead} {f : Fault}
    (h : parseRound setup (e.world 0) { conn with input := conn.input ++ e.chunk } = .error f) :
    readCall setup conn e = .error f :=
  parsePackets_of_error h

/-- **The rounds of a call**: an assertion fails exactly when one of them meets a packet that
is not fine. -/
theorem parsePackets_spec (hfam : setup.SameFamily) (w : ℕ → RpcsWorld) :
    ∀ {fuel i : ℕ} {conn : RpcsConn}, RpcsInv conn → conn.http = false →
      FailsUnless Fault.assertion (RoundsOk setup w i fuel conn) (fun r => RpcsInv r.2)
        (parsePackets setup w i fuel conn) := by
  intro fuel
  induction fuel with
  | zero =>
    intro i conn _ _
    rw [parsePackets, RoundsOk]
    exact FailsUnless.otherFault (by decide) trivial
  | succ fuel ih =>
    intro i conn hinv hhttp
    rw [parsePackets, RoundsOk]
    -- the rounds behind the first one have their conditions at the state that it leaves
    have hrest : ∀ r, parseRound setup (w i) conn = .ok r → AfterRound conn r →
        FailsUnless Fault.assertion (r.1 = none → RoundsOk setup w (i + 1) fuel r.2)
          (fun r => RpcsInv r.2)
          (match r with
            | (some ret, conn) => pure (ret, conn)
            | (none, conn) => parsePackets setup w (i + 1) fuel conn) := by
      rintro ⟨ret, conn'⟩ - ⟨hinv', hshorter⟩
      cases ret with
      | some ret => exact FailsUnless.returns (fun h => absurd h (by simp)) hinv'
      | none => exact (ih hinv' (hshorter rfl).2).congr ⟨fun h _ => h, fun h => h rfl⟩
    refine ((parseRound_spec hfam (w i) hinv hhttp).bind hrest).congr
      (and_congr_right (fun _ => ⟨?_, ?_⟩))
    · exact fun h conn' hround => h _ hround rfl
    · rintro h ⟨ret, conn'⟩ hround (rfl : ret = none)
      exact h conn' hround

/-! ## Whole connections -/

/-- The nonce packet is still to come, its reply was sent, or the connection is closed or
another protocol's. -/
def RpcsConn.Settled (conn : RpcsConn) : Prop :=
  conn.inPacketNum = -2 ∨ conn.cryptoFlags.encSent = true ∨ conn.error = true ∨ conn.http = true

/-- The promise for one read: no assertion fails, and the connection is set up or closed
once its nonce packet was handled. -/
def ReadSafe (setup : RpcsSetup) (conn : RpcsConn) (e : RpcsRead) : Prop :=
  (conn.http = false → readCall setup conn e ≠ .error Fault.assertion) ∧
    ∀ conn', readStep setup conn e = some conn' → conn'.Settled

/-- The condition on one read: no packet that it completes has a DH exchange that goes
wrong, or is answered with a handshake error by a server whose process id is zero. -/
def ReadOk (setup : RpcsSetup) (conn : RpcsConn) (e : RpcsRead) : Prop :=
  conn.http = false →
    RoundsOk setup e.world 0 ((conn.input ++ e.chunk).length + 1)
      { conn with input := conn.input ++ e.chunk }

theorem RpcsInv.settled' {conn : RpcsConn} (h : RpcsInv conn) : conn.Settled := by
  unfold RpcsConn.Settled
  by_cases hnum : conn.inPacketNum = -2
  · exact Or.inl hnum
  · cases herr : conn.error with
    | true => exact Or.inr (Or.inr (Or.inl rfl))
    | false =>
      cases hhttp : conn.http with
      | true => exact Or.inr (Or.inr (Or.inr rfl))
      | false => exact Or.inr (Or.inl (h.settled hnum hhttp herr))

/-- A read keeps the invariant. -/
theorem readStep_inv (hfam : setup.SameFamily) {conn conn' : RpcsConn}
    {e : RpcsRead} (hinv : RpcsInv conn) (h : readStep setup conn e = some conn') :
    RpcsInv conn' := by
  unfold readStep at h
  split at h
  · rw [← Option.some.inj h]
    exact hinv
  · rename_i hhttp
    split at h
    · rename_i ret c hcall
      rw [← Option.some.inj h]
      exact (parsePackets_spec hfam e.world (hinv.withInput _) (by simpa using hhttp)).gives _ hcall
    · exact absurd h (by simp)

/-- A read keeps the promise exactly when it meets the condition. -/
theorem readSafe_iff (hfam : setup.SameFamily) {conn : RpcsConn}
    (hinv : RpcsInv conn) (e : RpcsRead) : ReadSafe setup conn e ↔ ReadOk setup conn e := by
  have hsettled : ∀ conn', readStep setup conn e = some conn' → conn'.Settled :=
    fun conn' h => (readStep_inv hfam hinv h).settled'
  unfold ReadSafe ReadOk
  rw [and_iff_left hsettled]
  refine forall_congr' (fun hhttp => ?_)
  rw [ne_eq, ← not_iff_not, not_not]
  exact (parsePackets_spec hfam e.world (hinv.withInput (conn.input ++ e.chunk)) hhttp).fails

/-- A connection that was just accepted. -/
theorem tcpRpcsInitAccepted_inv {pid : ProcessId} (hip : pid.ip ≠ 0) {dhParamsSelect : ℤ}
    {perm : ℕ} {conn : RpcsConn} (h : tcpRpcsInitAccepted pid dhParamsSelect perm = some conn) :
    RpcsInv conn := by
  unfold tcpRpcsInitAccepted at h
  dsimp only at h
  split at h
  · rw [← Option.some.inj h]
    have hnum : (-2 : ℤ) ≠ -3 := by decide
    exact ⟨hip, rfl, hnum, fun _ _ => rfl, fun hno => absurd rfl hno⟩
  · exact absurd h (by simp)

/-- **No peer can crash the server** exactly as long as every read meets its condition: for
every permission word, every stream and every cutting of it into reads. -/
theorem reads_safe_iff {setup : RpcsSetup} (hfam : setup.SameFamily) {pid : ProcessId}
    (hip : pid.ip ≠ 0) {dhParamsSelect : ℤ} {perm : ℕ} {conn : RpcsConn}
    (hstart : tcpRpcsInitAccepted pid dhParamsSelect perm = some conn) (es : List RpcsRead) :
    Runs.Along (readStep setup) (ReadSafe setup) conn es ↔
      Runs.Along (readStep setup) (ReadOk setup) conn es :=
  Runs.along_congr (fun _ _ _ hinv hstep => readStep_inv hfam hinv hstep)
    (fun _ e hinv => readSafe_iff hfam hinv e) (tcpRpcsInitAccepted_inv hip hstart)

/-! ## A value that is not good -/

/-- A reflected CRC with this polynomial, bit by bit. -/
def crcBitByBit (polynomial : UInt32) (bs : Bytes) : UInt32 :=
  let shift (crc : UInt32) : UInt32 :=
    if crc &&& 1 = 1 then (crc >>> 1) ^^^ polynomial else crc >>> 1
  ~~~ bs.foldl (fun crc b => shift^[8] (crc ^^^ b.toUInt32)) (~~~ 0)

/-- The polynomials of CRC-32 and CRC-32C. -/
def Checksums.bitByBit : Checksums := ⟨crcBitByBit 0xedb88320, crcBitByBit 0x82f63b78⟩

/-- A server with a secret of 32 bytes, for peers with IPv4 addresses. -/
def RpcsSetup.local : RpcsSetup where
  mainSecret := ⟨List.replicate 32 1, by decide⟩
  digests := ⟨fun _ => List.replicate 16 0, fun _ => List.replicate 20 0⟩
  checksums := Checksums.bitByBit
  natInfo := []
  ends := ⟨0x7f000001, 443, [], 0x7f000001, 50000, []⟩
  maxPacketLen := 0
  ignorePid := false
  httpFallback := false
  defaultCrc32c := false

theorem rpcsSetup_local_sameFamily : RpcsSetup.local.SameFamily := by
  unfold RpcsSetup.SameFamily
  decide

/-- The process id of that server. -/
def ProcessId.local : ProcessId := ⟨0x7f000001, 443, 100, 1000⟩

/-- A second in the life of the process. -/
def RpcsWorld.second : RpcsWorld where
  now := 1000
  dhAccept := true
  draws := []
  nonce := List.replicate 16 7
  getpid := 100
  myIpv4 := 0x7f000001
  httpAccepts := false
  execute := fun _ _ => ⟨false, false, []⟩

/-- A nonce packet for a DH exchange, without extra keys, with this `g_a`. -/
def dhNoncePacket (gA : Bytes) : Bytes :=
  intBytes rpcNonce ++ intBytes RpcsSetup.local.mainSecret.keySignature ++
    intBytes rpcCryptoAesDh ++ intBytes 1000 ++ List.replicate 16 0 ++ intBytes 0 ++
    intBytes rpcParamHash ++ gA

theorem length_dhNoncePacket (gA : Bytes) : (dhNoncePacket gA).length = gA.length + 40 := by
  simp only [dhNoncePacket, List.length_append, length_intBytes, List.length_replicate]
  omega

/-- A connection to that server that must be encrypted with a DH exchange. -/
def RpcsConn.local : RpcsConn := (tcpRpcsInitAccepted ProcessId.local 0 6).get rfl

theorem tcpRpcsInitAccepted_local :
    tcpRpcsInitAccepted ProcessId.local 0 6 = some RpcsConn.local := rfl

/-- A failed assertion. -/
def crashes {α : Type} : Except Fault α → Bool
  | .error .assertion => true
  | _ => false

theorem eq_of_crashes {α : Type} {x : Except Fault α} (h : crashes x = true) :
    x = .error Fault.assertion := by
  cases x with
  | ok a => exact absurd h (by simp [crashes])
  | error f => cases f <;> first | rfl | exact absurd h (by simp [crashes])

/-- The server dies of a nonce packet whose `g_a` is 256 zeros. -/
theorem handlePacket_zeros (packetType : ℤ) :
    handlePacket RpcsSetup.local RpcsWorld.second (-2) packetType
      (dhNoncePacket (List.replicate 256 0)) RpcsConn.local = .error Fault.assertion := by
  have hnonce : crashes (processNonce RpcsSetup.local RpcsWorld.second
      (dhNoncePacket (List.replicate 256 0)) RpcsConn.local) = true := by decide +kernel
  have hcontrol : controlPacket RpcsSetup.local RpcsWorld.second (-2)
      (dhNoncePacket (List.replicate 256 0)) RpcsConn.local = .error Fault.assertion :=
    eq_of_crashes hnonce
  have hstart : RpcsConn.local.startCount = RpcsConn.local := rfl
  unfold handlePacket
  dsimp only
  rw [hstart, if_neg (by decide), if_pos (by decide), hcontrol, error_bind]

/-- **A peer can crash the server**: it sends that packet first. -/
theorem not_reads_safe :
    ¬ ∀ (setup : RpcsSetup) (pid : ProcessId) (dhParamsSelect : ℤ) (perm : ℕ)
      (conn : RpcsConn) (es : List RpcsRead), setup.SameFamily → pid.ip ≠ 0 →
      perm.testBit 1 = true → tcpRpcsInitAccepted pid dhParamsSelect perm = some conn →
      Runs.Along (readStep setup) (ReadSafe setup) conn es := by
  intro h
  obtain ⟨raw, hraw⟩ : ∃ raw, raw = dhNoncePacket (List.replicate 256 0) := ⟨_, rfl⟩
  have hlen : raw.length = 296 := by
    rw [hraw, length_dhNoncePacket, List.length_replicate]
  obtain ⟨chunk, hchunk⟩ :
      ∃ chunk, chunk = frameBytes Checksums.bitByBit .crc32 (-2) raw := ⟨_, rfl⟩
  have hsafe := h RpcsSetup.local ProcessId.local 0 6 RpcsConn.local
    [⟨chunk, fun _ => RpcsWorld.second⟩] rpcsSetup_local_sameFamily (by decide) (by decide)
    tcpRpcsInitAccepted_local
  have hframe : takeFrame RpcsSetup.local { RpcsConn.local with input := chunk }
      = .ok (.packet (-2) (intAt raw 0) raw []) := by
    apply takeFrame_frameBytes RpcsSetup.local (by decide)
    · omega
    · omega
    · omega
    · exact Or.inr (by decide)
    · rfl
    · rw [List.append_nil]
      exact hchunk
  have hround := parseRound_of_packet (w := RpcsWorld.second) rfl rfl rfl hframe
  rw [hraw] at hround
  apply hsafe.1.1 rfl
  apply readCall_of_error
  exact hround.trans (handlePacket_zeros _)

/-- A read that returns, with a connection that is set up or still waits. -/
theorem readSafe_of_step {conn conn' : RpcsConn} {e : RpcsRead}
    (h : readStep setup conn e = some conn') (hset : conn'.Settled) : ReadSafe setup conn e := by
  refine ⟨fun hhttp herror => ?_, fun c hc => ?_⟩
  · simp [readStep, hhttp, herror] at h
  · rwa [← Option.mem_unique h hc]

/-- The exponent `1290`: its powers are long. -/
def RpcsWorld.drawing : RpcsWorld :=
  { RpcsWorld.second with
    draws := [⟨List.replicate 254 0 ++ [5, 10], by
      rw [List.length_append, List.length_replicate]
      rfl⟩] }

/-- A nonce packet with a good `g_a`, in two reads. -/
def dhReads : List RpcsRead :=
  let packet := frameBytes Checksums.bitByBit .crc32 (-2) (dhNoncePacket (List.replicate 256 1))
  [⟨packet.take 10, fun _ => RpcsWorld.drawing⟩, ⟨packet.drop 10, fun _ => RpcsWorld.drawing⟩]

set_option maxRecDepth 100000 in
/-- The DH exchange of that packet is fine, and its reply is sent. -/
theorem reads_safe_iff_noncePacket :
    Runs.Along (readStep RpcsSetup.local) (ReadOk RpcsSetup.local) RpcsConn.local dhReads ∧
      (Runs.run (readStep RpcsSetup.local) RpcsConn.local dhReads).map
        (fun conn => conn.cryptoFlags.encSent) = some true := by
  have hrun : (Runs.run (readStep RpcsSetup.local) RpcsConn.local (dhReads.take 1)).bind (fun c₁ =>
      (Runs.run (readStep RpcsSetup.local) c₁ (dhReads.drop 1)).map
        (fun c₂ => (c₁.inPacketNum, c₂.cryptoFlags.encSent))) = some (-2, true) := by
    decide +kernel
  obtain ⟨c₁, hfirst, hrest⟩ := Option.bind_eq_some_iff.mp hrun
  obtain ⟨c₂, hsecond, hends⟩ := Option.map_eq_some_iff.mp hrest
  obtain ⟨c₁', hstep₁, hnil₁⟩ := Runs.run_cons.mp hfirst
  obtain rfl := Option.some.inj hnil₁
  obtain ⟨c₂', hstep₂, hnil₂⟩ := Runs.run_cons.mp hsecond
  obtain rfl := Option.some.inj hnil₂
  obtain ⟨hnum, hsent⟩ := Prod.mk.inj hends
  refine ⟨(reads_safe_iff rpcsSetup_local_sameFamily (by decide) tcpRpcsInitAccepted_local
    dhReads).mp ?_, ?_⟩
  · refine ⟨readSafe_of_step hstep₁ (Or.inl hnum), ?_⟩
    rw [hstep₁]
    refine ⟨readSafe_of_step hstep₂ (Or.inr (Or.inl hsent)), ?_⟩
    rw [hstep₂]
    trivial
  · have hall := Runs.run_append.mpr ⟨c₁', hfirst, hsecond⟩
    rw [List.take_append_drop] at hall
    rw [hall, Option.map_some, hsent]

end MtprotoProxy
