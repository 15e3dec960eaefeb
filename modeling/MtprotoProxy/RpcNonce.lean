/-
# Nonce packets of the RPC server

The first packet of an RPC connection, as `net/net-tcp-rpc-server.c` handles it:
`tcp_rpcs_process_nonce_packet` with `tcp_rpcs_init_crypto`, and `aes_create_keys` of
`net/net-crypto-aes.c`.

A raw message is the list of its bytes; a failed `assert` is `Fault.assertion`.  What the
functions ask of the rest of the process (clocks, random numbers, the limit on new DH
connections) is an argument, `RpcsWorld`.

The checks before `tcp_rpcs_init_crypto` fail no assertion (`nonceVerdict_ok`).
`processNonce_spec` says when one fails behind them, and that a packet that is not turned
down leaves a connection whose reply was sent.
-/
import MtprotoProxy.RpcDh
import MtprotoProxy.ClientFraming

namespace MtprotoProxy

open CLib

/-! ## Process ids -/

/-- `struct process_id`. -/
structure ProcessId where
  ip : ℕ
  port : ℤ
  pid : ℕ
  utime : ℤ
  deriving DecidableEq

namespace ProcessId

/-- The twelve bytes of a process id. -/
def bytes (p : ProcessId) : Bytes :=
  leBytes 4 p.ip ++ leBytes 2 (p.port % 2 ^ 16).toNat ++ leBytes 2 p.pid ++ intBytes p.utime

/-- The process id that starts with these bytes. -/
def ofBytes (bs : Bytes) : ProcessId where
  ip := le32 bs
  port := leShort (bs.drop 4)
  pid := leWord ((bs.drop 6).take 2)
  utime := asInt32 (le32 (bs.drop 8))

end ProcessId

/-- `matches_pid`. -/
def matchesPid (X Y : ProcessId) : ℤ :=
  if X = Y then 2
  else if (Y.ip = 0 ∨ X.ip = Y.ip) ∧ (Y.port = 0 ∨ X.port = Y.port) ∧
      (Y.pid = 0 ∨ X.pid = Y.pid) ∧ (Y.utime = 0 ∨ X.utime = Y.utime) then 1
  else 0

/-! ## Keys -/

/-- `main_secret`, as `aes_load_pwd_file` leaves it: empty, or of `MIN_PWD_LEN` to
`MAX_PWD_LEN` bytes. -/
abbrev AesSecret : Type :=
  { bs : Bytes // bs.length = 0 ∨ 32 ≤ bs.length ∧ bs.length ≤ 256 }

/-- `main_secret.key_signature`: the first four bytes of the secret. -/
def AesSecret.keySignature (secret : AesSecret) : ℤ := asInt32 (le32 secret.val)

/-- `select_best_key_signature`. -/
def selectBestKeySignature (secret : AesSecret) (keySignature : ℤ) (extra : List ℤ) :
    Except Fault ℤ := do
  require (extra.length ≤ 16) Fault.assertion
  if secret.val.length < 4 then pure 0
  else if secret.keySignature = keySignature then pure secret.keySignature
  else if secret.keySignature ∈ extra then pure secret.keySignature
  else pure 0

/-- `md5` and `sha1`. -/
structure Digests where
  md5 : Bytes → Bytes
  sha1 : Bytes → Bytes

/-- The addresses of the two ends of a connection. -/
structure Endpoints where
  ourIp : ℕ
  ourPort : ℕ
  ourIpv6 : Bytes
  remoteIp : ℕ
  remotePort : ℕ
  remoteIpv6 : Bytes

/-- `"CLIENT"` and `"SERVER"`. -/
def roleText (amClient : Bool) : Bytes :=
  if amClient then [67, 76, 73, 69, 78, 84] else [83, 69, 82, 86, 69, 82]

/-- The temporary key laid over the string: exclusive or where both have bytes, the longer
one behind. -/
def mixTempKey (str tempKey : Bytes) : Bytes :=
  List.zipWith (· ^^^ ·) str tempKey ++ str.drop tempKey.length ++ tempKey.drop str.length

/-- `str[42] ^= 'C' ^ 'S'` and so on: the other role's text in place of this one's. -/
def flipRole (str : Bytes) : Bytes :=
  memcpyAt str 42 (List.zipWith (· ^^^ ·) (slice str 42 6)
    (List.zipWith (· ^^^ ·) (roleText true) (roleText false)))

/-- A key of 32 bytes and an initial vector from a string. -/
def keyAndIv (digests : Digests) (str : Bytes) : Bytes × Bytes :=
  ((digests.md5 (str.drop 1)).take 12 ++ digests.sha1 str, digests.md5 (str.drop 2))

/-- `aes_create_keys`; `none` is the return value `-1`. -/
def aesCreateKeys (digests : Digests) (amClient : Bool) (nonceServer nonceClient : Bytes)
    (clientTimestamp : ℤ) (serverIp serverPort : ℕ) (serverIpv6 : Bytes)
    (clientIp clientPort : ℕ) (clientIpv6 : Bytes) (key : AesSecret) (tempKey : Bytes) :
    Except Fault (Option AesKeyData) :=
  if key.val.length = 0 then .ok none
  else do
    require (32 ≤ key.val.length ∧ key.val.length ≤ 256) Fault.assertion
    require (if serverIp = 0 then clientIp = 0 else clientIp ≠ 0) Fault.assertion
    let ipv6 := if serverIp = 0 then clientIpv6 ++ serverIpv6 else []
    let str := nonceServer ++ nonceClient ++ intBytes clientTimestamp ++ leBytes 4 serverIp ++
      leBytes 2 clientPort ++ roleText amClient ++ leBytes 4 clientIp ++ leBytes 2 serverPort ++
      key.val ++ nonceServer ++ ipv6 ++ nonceClient
    let str := mixTempKey str tempKey
    let (writeKey, writeIv) := keyAndIv digests str
    let (readKey, readIv) := keyAndIv digests (flipRole str)
    pure (some ⟨readKey, readIv, writeKey, writeIv⟩)

/-! ## The connection -/

/-- `D->crypto_flags`. -/
structure CryptoFlags where
  allowUnenc : Bool
  allowEnc : Bool
  reqDh : Bool
  allowSkipDh : Bool
  encSent : Bool
  seqnoHoles : Bool
  quickack : Bool
  useCrc32c : Bool
  deriving DecidableEq

namespace CryptoFlags

/-- `RPCF_ALLOW_UNENC` alone. -/
def onlyUnenc : CryptoFlags := ⟨true, false, false, false, false, false, false, false⟩

/-- The bits of a permission word that `tcp_rpcs_init_accepted` keeps. -/
def ofPerm (perm : ℕ) : CryptoFlags :=
  ⟨perm.testBit 0, perm.testBit 1, perm.testBit 2, perm.testBit 3, false, false, false, false⟩

end CryptoFlags

/-- What does not change while a connection lives: the server's settings and the two
addresses. -/
structure RpcsSetup where
  mainSecret : AesSecret
  digests : Digests
  checksums : Checksums
  natInfo : List (ℕ × ℕ)
  ends : Endpoints
  maxPacketLen : ℤ
  ignorePid : Bool
  httpFallback : Bool
  /-- `RPCF_USE_CRC32C` is among the default flags -/
  defaultCrc32c : Bool

/-- `nat_translate_ip`. -/
def RpcsSetup.natTranslateIp (setup : RpcsSetup) (localIp : ℕ) : ℕ :=
  match setup.natInfo.find? (fun rule => rule.1 = localIp) with
  | some rule => rule.2
  | none => localIp

/-- What `execute` of the server does to the connection. -/
structure ExecEffect where
  fails : Bool
  stopsParse : Bool
  replies : List Bytes

/-- What the rest of the process answers while one packet is handled. -/
structure RpcsWorld where
  /-- `now`, and the result of `time` -/
  now : ℤ
  /-- `tcp_add_dh_accept () >= 0` -/
  dhAccept : Bool
  draws : List DhRandom
  /-- what `aes_generate_nonce` makes -/
  nonce : Bytes
  getpid : ℕ
  myIpv4 : ℕ
  /-- `init_accepted` of the HTTP fallback succeeds -/
  httpAccepts : Bool
  execute : ℤ → Bytes → ExecEffect

/-- A connection of the server, with the two global variables that its packets change. -/
structure RpcsConn where
  /-- `c->in` -/
  input : Bytes
  /-- `C_ERROR`, `C_STOPPARSE` and `C_ISDH` in `c->flags` -/
  error : Bool
  stopParse : Bool
  isDh : Bool
  /-- `c->type` is the HTTP fallback -/
  http : Bool
  crypto : Option AesKeyData
  /-- `RPC_F_QUICKACK` in `D->flags` -/
  quickack : Bool
  inPacketNum : ℤ
  outPacketNum : ℤ
  cryptoFlags : CryptoFlags
  remotePid : ProcessId
  nonce : Bytes
  nonceTime : ℤ
  customCrcPartial : CrcPartial
  /-- the messages handed to the output, without their frames -/
  sent : List Bytes
  /-- `dh_params_select` -/
  dhParamsSelect : ℤ
  /-- `PID` -/
  pid : ProcessId

namespace RpcsConn

/-- A message sent with a frame at once (`tcp_rpc_conn_send_data_init`,
`tcp_rpc_conn_send_data_im`). -/
def sendFramed (conn : RpcsConn) (data : Bytes) : RpcsConn :=
  { conn with
    outPacketNum := wrap32 (conn.outPacketNum + 1)
    sent := conn.sent ++ [data] }

/-- `tcp_rpc_conn_send_data`: the frame is made when the queue is written. -/
def sendQueued (conn : RpcsConn) (data : Bytes) : RpcsConn :=
  { conn with sent := conn.sent ++ [data] }

/-- `fail_connection`. -/
def fail (conn : RpcsConn) : RpcsConn := { conn with error := true }

end RpcsConn

/-! ## Raw messages -/

/-- `rwm_fetch_lookup`: the first bytes of a message. -/
def rwmFetchLookup (raw : Bytes) (n : ℕ) : Bytes := raw.take n

/-- `rwm_fetch_data`: the first bytes, and the message without them. -/
def rwmFetchData (raw : Bytes) (n : ℕ) : Bytes × Bytes := (raw.take n, raw.drop n)

/-- `rwm_fetch_data_back`: the last bytes, and the message without them. -/
def rwmFetchDataBack (raw : Bytes) (n : ℕ) : Bytes × Bytes :=
  (raw.drop (raw.length - n), raw.take (raw.length - n))

/-- The `int` at an offset. -/
def intAt (raw : Bytes) (i : ℕ) : ℤ := asInt32 (le32 (raw.drop i))

/-! ## Nonce packets -/

/-- `RPC_NONCE`. -/
def rpcNonce : ℤ := 0x7acb87aa

/-- `RPC_CRYPTO_AES`. -/
def rpcCryptoAes : ℤ := 1

/-- `RPC_CRYPTO_AES_EXT`. -/
def rpcCryptoAesExt : ℤ := 2

/-- `RPC_CRYPTO_AES_DH`. -/
def rpcCryptoAesDh : ℤ := 3

/-- `RPC_MAX_EXTRA_KEYS`. -/
def rpcMaxExtraKeys : ℤ := 8

/-- A nonce packet: the fields of `struct tcp_rpc_nonce_packet`, and the whole packet for
those behind them. -/
structure NoncePacket where
  keySelect : ℤ
  cryptoSchema : ℤ
  cryptoTs : ℤ
  cryptoNonce : Bytes
  raw : Bytes

namespace NoncePacket

/-- The packet with these bytes. -/
def ofBytes (raw : Bytes) : NoncePacket where
  keySelect := intAt raw 4
  cryptoSchema := intAt raw 8
  cryptoTs := intAt raw 12
  cryptoNonce := slice raw 16 16
  raw := raw

/-- `P.x.extra_keys_count`. -/
def extraKeysCount (P : NoncePacket) : ℤ := intAt P.raw 32

/-- The first `extra_keys_count` elements of `P.x.extra_key_select`. -/
def extraKeySelect (P : NoncePacket) : List ℤ :=
  (List.range P.extraKeysCount.toNat).map (fun i => intAt P.raw (36 + 4 * i))

/-- `dh->dh_params_select`; `dh` is moved back by the extra keys that are missing. -/
def dhParamsSelect (P : NoncePacket) : ℤ := intAt P.raw (36 + 4 * P.extraKeysCount.toNat)

/-- `dh->g_a`. -/
def gA (P : NoncePacket) : Bytes := slice P.raw (40 + 4 * P.extraKeysCount.toNat) 256

/-- The first `switch` on the schema: the packet has the length its schema and its number
of extra keys ask for. -/
def hasRightLength (P : NoncePacket) : Bool :=
  let len : ℤ := P.raw.length
  let withKeys (size : ℤ) : Bool :=
    size - 4 * rpcMaxExtraKeys ≤ len && 0 ≤ P.extraKeysCount &&
      P.extraKeysCount ≤ rpcMaxExtraKeys &&
      len == size + 4 * (P.extraKeysCount - rpcMaxExtraKeys)
  if P.cryptoSchema = 0 then len == 32
  else if P.cryptoSchema = rpcCryptoAes then len == 32
  else if P.cryptoSchema = rpcCryptoAesExt then withKeys 68
  else if P.cryptoSchema = rpcCryptoAesDh then withKeys 328
  else false

end NoncePacket

/-- `abs` of an `int`. -/
def absInt (x : ℤ) : ℤ := if x < 0 then wrap32 (-x) else x

/-- `init_dh_params`. -/
def initDhParams (conn : RpcsConn) : RpcsConn :=
  if conn.dhParamsSelect = 0 then { conn with dhParamsSelect := rpcParamHash } else conn

/-- What the checks of a nonce packet come to: the packet is turned down, or
`rpc_init_crypto` is called. -/
inductive NonceVerdict : Type where
  | refuse (code : ℤ) (conn : RpcsConn) : NonceVerdict
  | accept (P : NoncePacket) (conn : RpcsConn) : NonceVerdict

/-- The check behind both switches: a connection that asks for DH gets it, or may do
without. -/
def checkDh (P : NoncePacket) (dh : Bool) (conn : RpcsConn) : NonceVerdict :=
  if conn.cryptoFlags.reqDh && conn.cryptoFlags.allowEnc && !dh then
    if conn.cryptoFlags.allowSkipDh then
      .accept P { conn with
        cryptoFlags := { conn.cryptoFlags with reqDh := false, allowSkipDh := false } }
    else .refuse (-7) conn
  else .accept P conn

/-- The connection goes on without encryption, if it may. -/
def goUnencrypted (P : NoncePacket) (dh : Bool) (code : ℤ) (conn : RpcsConn) : NonceVerdict :=
  if conn.cryptoFlags.allowUnenc then
    checkDh P dh { conn with cryptoFlags := CryptoFlags.onlyUnenc }
  else .refuse code conn

/-- `case RPC_CRYPTO_AES` of the second `switch`, which the two other schemas fall through
to. -/
def agreeOnKey (setup : RpcsSetup) (w : RpcsWorld) (P : NoncePacket) (dh : Bool)
    (conn : RpcsConn) : Except Fault NonceVerdict := do
  let best ← selectBestKeySignature setup.mainSecret P.keySelect []
  if P.keySelect = 0 ∨ best = 0 then pure (goUnencrypted P dh (-3) conn)
  else if !conn.cryptoFlags.allowEnc then pure (goUnencrypted P dh (-5) conn)
  else
    -- the clock is read before the check that may turn the packet down
    let conn := { conn with nonceTime := w.now }
    if 30 < absInt (wrap32 (P.cryptoTs - conn.nonceTime)) then pure (.refuse (-6) conn)
    else
      pure (checkDh P dh
        { conn with cryptoFlags := { conn.cryptoFlags with allowUnenc := false } })

/-- The second `switch` on the schema. -/
def agreeOnSchema (setup : RpcsSetup) (w : RpcsWorld) (P : NoncePacket) (conn : RpcsConn) :
    Except Fault NonceVerdict :=
  if P.cryptoSchema = 0 then
    if P.keySelect ≠ 0 then .ok (.refuse (-3) conn)
    else .ok (goUnencrypted P false (-5) conn)
  else if P.cryptoSchema = rpcCryptoAes then agreeOnKey setup w P false conn
  else if P.cryptoSchema = rpcCryptoAesExt then do
    let best ← selectBestKeySignature setup.mainSecret P.keySelect P.extraKeySelect
    agreeOnKey setup w { P with keySelect := best } false conn
  else if P.cryptoSchema = rpcCryptoAesDh then do
    let conn := initDhParams conn
    -- other parameters are no error yet: the exchange may be optional
    let dh := P.dhParamsSelect ≠ 0 ∧ P.dhParamsSelect = conn.dhParamsSelect
    let best ← selectBestKeySignature setup.mainSecret P.keySelect P.extraKeySelect
    agreeOnKey setup w { P with keySelect := best } (decide dh) conn
  else .ok (goUnencrypted P false (-4) conn)

/-- `tcp_rpcs_process_nonce_packet` up to the call of `rpc_init_crypto`. -/
def nonceVerdict (setup : RpcsSetup) (w : RpcsWorld) (msg : Bytes) (conn : RpcsConn) :
    Except Fault NonceVerdict := do
  let packetType := rwmFetchLookup msg 4
  require (packetType.length = 4) Fault.assertion
  if conn.inPacketNum ≠ -2 ∨ asInt32 (le32 packetType) ≠ rpcNonce then pure (.refuse (-2) conn)
  else if msg.length < 32 ∨ 328 < msg.length then pure (.refuse (-3) conn)
  else do
    let (raw, _) := rwmFetchData msg msg.length
    require (raw.length = msg.length) Fault.assertion
    let P := NoncePacket.ofBytes raw
    if P.hasRightLength then agreeOnSchema setup w P conn else pure (.refuse (-3) conn)

/-- `tcp_rpcs_init_fake_crypto`. -/
def initFakeCrypto (conn : RpcsConn) : Except Fault (ℤ × RpcsConn) :=
  if !conn.cryptoFlags.allowUnenc then .ok (-1, conn)
  else do
    require (conn.cryptoFlags.allowEnc = false ∧ conn.cryptoFlags.encSent = false) Fault.assertion
    let conn := { conn with cryptoFlags := { conn.cryptoFlags with encSent := true } }
    pure (1, conn.sendFramed (intBytes rpcNonce ++ List.replicate 28 0))

/-- The end of `tcp_rpcs_init_crypto`: the keys, and the reply; `newGA` is the value sent
back for a DH exchange. -/
def setUpCrypto (setup : RpcsSetup) (w : RpcsWorld) (P : NoncePacket) (tempDh : Bytes)
    (newGA : Option Bytes) (conn : RpcsConn) : Except Fault (ℤ × RpcsConn) := do
  let conn := { conn with nonce := w.nonce }
  let keys ← aesCreateKeys setup.digests false conn.nonce P.cryptoNonce P.cryptoTs
    (setup.natTranslateIp setup.ends.ourIp) setup.ends.ourPort setup.ends.ourIpv6
    (setup.natTranslateIp setup.ends.remoteIp) setup.ends.remotePort setup.ends.remoteIpv6
    setup.mainSecret tempDh
  match keys with
  | none => pure (-1, conn)
  | some keys =>
    let conn := { conn with crypto := some keys }
    -- the keys are set before the assertion
    require (conn.cryptoFlags.allowEnc = true ∧ conn.cryptoFlags.encSent = false) Fault.assertion
    let conn := { conn with cryptoFlags := { conn.cryptoFlags with encSent := true } }
    let head (schema : ℤ) : Bytes := intBytes rpcNonce ++ intBytes setup.mainSecret.keySignature ++
      intBytes schema ++ intBytes conn.nonceTime ++ conn.nonce
    match newGA with
    | none => pure (1, conn.sendFramed (head rpcCryptoAes))
    | some gA =>
      pure (1, conn.sendFramed
        (head rpcCryptoAesDh ++ intBytes 0 ++ intBytes conn.dhParamsSelect ++ gA))

/-- `tcp_rpcs_init_crypto`. -/
def initCrypto (setup : RpcsSetup) (w : RpcsWorld) (P : NoncePacket) (conn : RpcsConn) :
    Except Fault (ℤ × RpcsConn) :=
  if conn.crypto.isSome then .ok (-1, conn)
  else if conn.cryptoFlags.allowUnenc && !conn.cryptoFlags.allowEnc then initFakeCrypto conn
  else if conn.cryptoFlags.allowUnenc || !conn.cryptoFlags.allowEnc then .ok (-1, conn)
  else if setup.mainSecret.keySignature ≠ P.keySelect then .ok (-1, conn)
  else if conn.cryptoFlags.reqDh then
    if P.cryptoSchema ≠ rpcCryptoAesDh then .ok (-1, conn)
    else if P.dhParamsSelect ≠ conn.dhParamsSelect ∨ conn.dhParamsSelect = 0 then .ok (-1, conn)
    else if !w.dhAccept then .ok (-1, conn)
    else do
      -- the other checks return `-1`; a value that is not good has only the assertion
      let (tempDhLen, tempDh, newGA) ← dhSecondRound w.draws P.gA
      require (tempDhLen = 256) Fault.assertion
      setUpCrypto setup w P tempDh (some newGA) { conn with isDh := true }
  else setUpCrypto setup w P [] none conn

/-- `tcp_rpcs_process_nonce_packet`. -/
def processNonce (setup : RpcsSetup) (w : RpcsWorld) (msg : Bytes) (conn : RpcsConn) :
    Except Fault (ℤ × RpcsConn) := do
  match ← nonceVerdict setup w msg conn with
  | .refuse code conn => pure (code, conn)
  | .accept P conn =>
    let (res, conn) ← initCrypto setup w P conn
    if res < 0 then pure (-6, conn) else pure (0, conn)

/-! ## What the packets leave alone -/

/-- The fields that belong to the stream are the same in both states. -/
structure SameStream (conn conn' : RpcsConn) : Prop where
  input : conn'.input = conn.input
  error : conn'.error = conn.error
  stopParse : conn'.stopParse = conn.stopParse
  http : conn'.http = conn.http
  inPacketNum : conn'.inPacketNum = conn.inPacketNum
  pid : conn'.pid = conn.pid
  seqnoHoles : conn.cryptoFlags.seqnoHoles = false → conn'.cryptoFlags.seqnoHoles = false

theorem SameStream.refl (conn : RpcsConn) : SameStream conn conn :=
  ⟨rfl, rfl, rfl, rfl, rfl, rfl, id⟩

theorem SameStream.trans {a b c : RpcsConn} (hab : SameStream a b) (hbc : SameStream b c) :
    SameStream a c where
  input := hbc.input.trans hab.input
  error := hbc.error.trans hab.error
  stopParse := hbc.stopParse.trans hab.stopParse
  http := hbc.http.trans hab.http
  inPacketNum := hbc.inPacketNum.trans hab.inPacketNum
  pid := hbc.pid.trans hab.pid
  seqnoHoles := fun h => hbc.seqnoHoles (hab.seqnoHoles h)

/-- The keys are the same too, and no reply is marked as sent. -/
structure BeforeReply (conn conn' : RpcsConn) : Prop extends SameStream conn conn' where
  crypto : conn'.crypto = conn.crypto
  encSent : conn.cryptoFlags.encSent = false → conn'.cryptoFlags.encSent = false

theorem BeforeReply.refl (conn : RpcsConn) : BeforeReply conn conn :=
  ⟨SameStream.refl conn, rfl, id⟩

theorem BeforeReply.trans {a b c : RpcsConn} (hab : BeforeReply a b) (hbc : BeforeReply b c) :
    BeforeReply a c where
  toSameStream := hab.toSameStream.trans hbc.toSameStream
  crypto := hbc.crypto.trans hab.crypto
  encSent := fun h => hbc.encSent (hab.encSent h)

/-- A verdict on a connection: nothing was sent, and a refusal has a negative code. -/
def NonceVerdict.On (conn : RpcsConn) : NonceVerdict → Prop
  | refuse code conn' => BeforeReply conn conn' ∧ code < 0
  | accept _ conn' => BeforeReply conn conn'

theorem NonceVerdict.On.after {a b : RpcsConn} {v : NonceVerdict} (hv : v.On b)
    (hab : BeforeReply a b) : v.On a := by
  cases v with
  | refuse code conn => exact ⟨hab.trans hv.1, hv.2⟩
  | accept P conn => exact hab.trans hv

/-! ## The checks of a nonce packet -/

theorem checkDh_on (P : NoncePacket) (dh : Bool) (conn : RpcsConn) :
    (checkDh P dh conn).On conn := by
  unfold checkDh
  split
  · split
    · exact ⟨⟨rfl, rfl, rfl, rfl, rfl, rfl, id⟩, rfl, id⟩
    · exact ⟨BeforeReply.refl conn, by decide⟩
  · exact BeforeReply.refl conn

theorem goUnencrypted_on (P : NoncePacket) (dh : Bool) {code : ℤ} (hcode : code < 0)
    (conn : RpcsConn) : (goUnencrypted P dh code conn).On conn := by
  unfold goUnencrypted
  split
  · apply (checkDh_on P dh _).after
    exact ⟨⟨rfl, rfl, rfl, rfl, rfl, rfl, fun _ => rfl⟩, rfl, fun _ => rfl⟩
  · exact ⟨BeforeReply.refl conn, hcode⟩

/-- The number of extra keys is in the range `select_best_key_signature` insists on. -/
theorem selectBestKeySignature_ok (secret : AesSecret) (keySignature : ℤ) {extra : List ℤ}
    (h : extra.length ≤ 16) : ∃ best, selectBestKeySignature secret keySignature extra = .ok best := by
  unfold selectBestKeySignature
  rw [require_ok h, ok_bind]
  split
  · exact ⟨0, rfl⟩
  · split
    · exact ⟨_, rfl⟩
    · split
      · exact ⟨_, rfl⟩
      · exact ⟨0, rfl⟩

theorem agreeOnKey_ok (setup : RpcsSetup) (w : RpcsWorld) (P : NoncePacket) (dh : Bool)
    (conn : RpcsConn) : ∃ v, agreeOnKey setup w P dh conn = .ok v ∧ v.On conn := by
  have hnone : ([] : List ℤ).length ≤ 16 := by decide
  obtain ⟨best, hbest⟩ := selectBestKeySignature_ok setup.mainSecret P.keySelect hnone
  unfold agreeOnKey
  rw [hbest, ok_bind]
  split
  · exact ⟨_, rfl, goUnencrypted_on P dh (by decide) conn⟩
  · split
    · exact ⟨_, rfl, goUnencrypted_on P dh (by decide) conn⟩
    · dsimp only
      split
      · exact ⟨_, rfl, ⟨⟨rfl, rfl, rfl, rfl, rfl, rfl, id⟩, rfl, id⟩, by decide⟩
      · refine ⟨_, rfl, (checkDh_on P dh _).after ?_⟩
        exact ⟨⟨rfl, rfl, rfl, rfl, rfl, rfl, id⟩, rfl, id⟩

/-- The packets that pass the length check have at most eight extra keys. -/
theorem length_extraKeySelect_le {P : NoncePacket} (h : P.hasRightLength = true)
    (hschema : P.cryptoSchema = rpcCryptoAesExt ∨ P.cryptoSchema = rpcCryptoAesDh) :
    P.extraKeySelect.length ≤ 16 := by
  have hcount : P.extraKeysCount ≤ rpcMaxExtraKeys := by
    unfold NoncePacket.hasRightLength at h
    rcases hschema with hs | hs <;>
      simp [hs, rpcCryptoAesExt, rpcCryptoAesDh, rpcCryptoAes] at h <;> exact h.1.2
  unfold NoncePacket.extraKeySelect
  rw [List.length_map, List.length_range]
  unfold rpcMaxExtraKeys at hcount
  omega

theorem agreeOnSchema_ok (setup : RpcsSetup) (w : RpcsWorld) {P : NoncePacket}
    (h : P.hasRightLength = true) (conn : RpcsConn) :
    ∃ v, agreeOnSchema setup w P conn = .ok v ∧ v.On conn := by
  unfold agreeOnSchema
  split
  · split
    · exact ⟨_, rfl, BeforeReply.refl conn, by decide⟩
    · exact ⟨_, rfl, goUnencrypted_on P false (by decide) conn⟩
  split
  · exact agreeOnKey_ok setup w P false conn
  split
  · rename_i hs
    obtain ⟨best, hbest⟩ := selectBestKeySignature_ok setup.mainSecret P.keySelect
      (length_extraKeySelect_le h (Or.inl hs))
    rw [hbest, ok_bind]
    exact agreeOnKey_ok setup w { P with keySelect := best } false conn
  split
  · rename_i hs
    obtain ⟨best, hbest⟩ := selectBestKeySignature_ok setup.mainSecret P.keySelect
      (length_extraKeySelect_le h (Or.inr hs))
    dsimp only
    rw [hbest, ok_bind]
    obtain ⟨v, hv, hon⟩ := agreeOnKey_ok setup w { P with keySelect := best }
      (decide (P.dhParamsSelect ≠ 0 ∧ P.dhParamsSelect = (initDhParams conn).dhParamsSelect))
      (initDhParams conn)
    refine ⟨v, hv, hon.after ?_⟩
    unfold initDhParams
    split
    · exact ⟨⟨rfl, rfl, rfl, rfl, rfl, rfl, id⟩, rfl, id⟩
    · exact BeforeReply.refl conn
  · exact ⟨_, rfl, goUnencrypted_on P false (by decide) conn⟩

/-- **The checks of a nonce packet** fail no assertion and send nothing. -/
theorem nonceVerdict_ok (setup : RpcsSetup) (w : RpcsWorld) {msg : Bytes} (h : 4 ≤ msg.length)
    (conn : RpcsConn) : ∃ v, nonceVerdict setup w msg conn = .ok v ∧ v.On conn := by
  have htype : (rwmFetchLookup msg 4).length = 4 := by
    simp [rwmFetchLookup, h]
  have hraw : (rwmFetchData msg msg.length).1.length = msg.length := by
    simp [rwmFetchData]
  unfold nonceVerdict
  dsimp only
  rw [require_ok htype, ok_bind]
  split
  · exact ⟨_, rfl, BeforeReply.refl conn, by decide⟩
  split
  · exact ⟨_, rfl, BeforeReply.refl conn, by decide⟩
  rw [require_ok hraw, ok_bind]
  split
  · rename_i hright
    exact agreeOnSchema_ok setup w hright conn
  · exact ⟨_, rfl, BeforeReply.refl conn, by decide⟩

/-! ## Setting up the encryption -/

/-- Both ends have an IPv4 address, or both an IPv6 one. -/
def RpcsSetup.SameFamily (setup : RpcsSetup) : Prop :=
  setup.natTranslateIp setup.ends.ourIp = 0 ↔ setup.natTranslateIp setup.ends.remoteIp = 0

/-- The call of `tcp_rpcs_init_crypto` gets as far as `dh_second_round`. -/
structure ReachesDh (setup : RpcsSetup) (w : RpcsWorld) (P : NoncePacket) (conn : RpcsConn) :
    Prop where
  crypto : conn.crypto = none
  allowUnenc : conn.cryptoFlags.allowUnenc = false
  allowEnc : conn.cryptoFlags.allowEnc = true
  reqDh : conn.cryptoFlags.reqDh = true
  key : setup.mainSecret.keySignature = P.keySelect
  schema : P.cryptoSchema = rpcCryptoAesDh
  params : P.dhParamsSelect = conn.dhParamsSelect
  params_ne_zero : conn.dhParamsSelect ≠ 0
  accept : w.dhAccept = true

/-- The peer's value is good, and the random exponents give long powers. -/
def DhOk (w : RpcsWorld) (P : NoncePacket) : Prop :=
  isGoodRpcDhBin P.gA = true ∧ DrawsLong P.gA w.draws

/-- A step towards encryption: it keeps the stream, and a success means that the reply is
marked as sent. -/
def SetsUp (conn : RpcsConn) (r : ℤ × RpcsConn) : Prop :=
  SameStream conn r.2 ∧ (0 ≤ r.1 → r.2.cryptoFlags.encSent = true)

theorem SetsUp.refused {conn : RpcsConn} : SetsUp conn (-1, conn) :=
  ⟨SameStream.refl conn, fun h => absurd h (show ¬ (0 : ℤ) ≤ -1 by decide)⟩

/-- The unencrypted reply: no assertion fails when nothing was sent before. -/
theorem initFakeCrypto_ok {conn : RpcsConn} (henc : conn.cryptoFlags.allowEnc = false)
    (hsent : conn.cryptoFlags.encSent = false) :
    ∃ r, initFakeCrypto conn = .ok r ∧ SetsUp conn r := by
  unfold initFakeCrypto
  split
  · exact ⟨_, rfl, SetsUp.refused⟩
  · rw [require_ok ⟨henc, hsent⟩, ok_bind]
    exact ⟨_, rfl, ⟨rfl, rfl, rfl, rfl, rfl, rfl, id⟩, fun _ => rfl⟩

/-- `aes_create_keys` fails no assertion for two ends of one family. -/
theorem aesCreateKeys_ok {serverIp clientIp : ℕ} (hfam : serverIp = 0 ↔ clientIp = 0)
    (digests : Digests) (amClient : Bool) (nonceServer nonceClient : Bytes) (clientTimestamp : ℤ)
    (serverPort : ℕ) (serverIpv6 : Bytes) (clientPort : ℕ) (clientIpv6 : Bytes)
    (key : AesSecret) (tempKey : Bytes) :
    ∃ keys, aesCreateKeys digests amClient nonceServer nonceClient clientTimestamp serverIp
      serverPort serverIpv6 clientIp clientPort clientIpv6 key tempKey = .ok keys := by
  unfold aesCreateKeys
  split
  · exact ⟨none, rfl⟩
  · rename_i hlen
    have hkey : 32 ≤ key.val.length ∧ key.val.length ≤ 256 := key.property.resolve_left hlen
    have hips : if serverIp = 0 then clientIp = 0 else clientIp ≠ 0 := by
      split
      · rename_i h
        exact hfam.mp h
      · rename_i h
        exact fun hc => h (hfam.mpr hc)
    rw [require_ok hkey, ok_bind, require_ok hips, ok_bind]
    exact ⟨_, rfl⟩

theorem setUpCrypto_ok {setup : RpcsSetup} (hfam : setup.SameFamily) (w : RpcsWorld)
    (P : NoncePacket) (tempDh : Bytes) (newGA : Option Bytes) {conn : RpcsConn}
    (henc : conn.cryptoFlags.allowEnc = true) (hsent : conn.cryptoFlags.encSent = false) :
    ∃ r, setUpCrypto setup w P tempDh newGA conn = .ok r ∧ SetsUp conn r := by
  obtain ⟨keys, hkeys⟩ := aesCreateKeys_ok hfam setup.digests false w.nonce P.cryptoNonce
    P.cryptoTs setup.ends.ourPort setup.ends.ourIpv6 setup.ends.remotePort
    setup.ends.remoteIpv6 setup.mainSecret tempDh
  unfold setUpCrypto
  dsimp only
  rw [hkeys, ok_bind]
  cases keys with
  | none =>
    exact ⟨_, rfl, ⟨rfl, rfl, rfl, rfl, rfl, rfl, id⟩,
      fun h => absurd h (show ¬ (0 : ℤ) ≤ -1 by decide)⟩
  | some keys =>
    dsimp only
    rw [require_ok ⟨henc, hsent⟩, ok_bind]
    cases newGA <;> exact ⟨_, rfl, ⟨rfl, rfl, rfl, rfl, rfl, rfl, id⟩, fun _ => rfl⟩

/-- **The DH exchange**: an assertion fails exactly when the peer's value is not good or a
power is short. -/
theorem dhExchange_spec {setup : RpcsSetup} (hfam : setup.SameFamily) (w : RpcsWorld)
    (P : NoncePacket) {conn : RpcsConn} (henc : conn.cryptoFlags.allowEnc = true)
    (hsent : conn.cryptoFlags.encSent = false) :
    FailsUnless Fault.assertion (DhOk w P) (SetsUp conn) (do
      let (tempDhLen, tempDh, newGA) ← dhSecondRound w.draws P.gA
      require (tempDhLen = 256) Fault.assertion
      setUpCrypto setup w P tempDh (some newGA) { conn with isDh := true }) := by
  -- a good value: the powers decide; any other: the return value is 0, not 256
  by_cases hgood : isGoodRpcDhBin P.gA = true
  · have hdh : DrawsLong P.gA w.draws ↔ DhOk w P := (and_iff_right hgood).symm
    refine ((dhSecondRound_spec hgood).bind_quiet ?_).congr hdh
    rintro ⟨len, gAB, newGA⟩ hlen
    have henc' : { conn with isDh := true }.cryptoFlags.allowEnc = true := henc
    obtain ⟨r, hr, hstream, hsuccess⟩ := setUpCrypto_ok hfam w P gAB (some newGA) henc' hsent
    refine ⟨r, ?_, ⟨hstream.1, hstream.2, hstream.3, hstream.4, hstream.5, hstream.6,
      hstream.7⟩, hsuccess⟩
    dsimp only
    rw [require_ok hlen, ok_bind, hr]
  · have hbad : isGoodRpcDhBin P.gA = false := by simpa using hgood
    rw [dhSecondRound_of_bad hbad, ok_bind]
    dsimp only
    rw [require_error (show ¬ (0 : ℤ) = 256 by decide), error_bind]
    exact FailsUnless.fault (fun h => hgood h.1)

/-- **`tcp_rpcs_init_crypto`** before the first reply: an assertion fails exactly when the
call reaches the DH exchange and that goes wrong. -/
theorem initCrypto_spec {setup : RpcsSetup} (hfam : setup.SameFamily) (w : RpcsWorld)
    (P : NoncePacket) {conn : RpcsConn} (hsent : conn.cryptoFlags.encSent = false) :
    FailsUnless Fault.assertion (ReachesDh setup w P conn → DhOk w P) (SetsUp conn)
      (initCrypto setup w P conn) := by
  have hquiet : ∀ {r : ℤ × RpcsConn}, SetsUp conn r → ¬ ReachesDh setup w P conn →
      FailsUnless Fault.assertion (ReachesDh setup w P conn → DhOk w P) (SetsUp conn) (.ok r) :=
    fun hset hno => FailsUnless.returns (fun h => absurd h hno) hset
  unfold initCrypto
  split
  · rename_i h
    exact hquiet SetsUp.refused (fun hr => by simp [hr.crypto] at h)
  split
  · rename_i h
    have henc : conn.cryptoFlags.allowEnc = false := by simp_all
    obtain ⟨r, hr, hset⟩ := initFakeCrypto_ok henc hsent
    rw [hr]
    exact hquiet hset (fun hr => by simp [hr.allowUnenc] at h)
  split
  · rename_i h
    exact hquiet SetsUp.refused (fun hr => by simp [hr.allowUnenc, hr.allowEnc] at h)
  rename_i hcrypto _ hflags
  have henc : conn.cryptoFlags.allowEnc = true := by simp_all
  split
  · rename_i h
    exact hquiet SetsUp.refused (fun hr => h hr.key)
  rename_i hkey
  split
  · rename_i hreq
    split
    · rename_i h
      exact hquiet SetsUp.refused (fun hr => h hr.schema)
    rename_i hschema
    split
    · rename_i h
      exact hquiet SetsUp.refused (fun hr => h.elim (fun hne => hne hr.params) hr.params_ne_zero)
    rename_i hparams
    split
    · rename_i h
      exact hquiet SetsUp.refused (fun hr => by simp [hr.accept] at h)
    rename_i haccept
    have hreach : ReachesDh setup w P conn := by
      rw [not_or, not_not] at hparams
      exact ⟨by simpa using hcrypto, by simp_all, henc, hreq, not_not.mp hkey,
        not_not.mp hschema, hparams.1, hparams.2, by simpa using haccept⟩
    exact (dhExchange_spec hfam w P henc hsent).congr ⟨fun h _ => h, fun h => h hreach⟩
  · rename_i hreq
    obtain ⟨r, hr, hset⟩ := setUpCrypto_ok hfam w P [] none henc hsent
    rw [hr]
    exact hquiet hset (fun hr => hreq hr.reqDh)

/-! ## The two packets -/

/-- If the nonce packet passes the checks and the call of `rpc_init_crypto` reaches the DH
exchange, then the exchange is fine. -/
def NonceOk (setup : RpcsSetup) (w : RpcsWorld) (msg : Bytes) (conn : RpcsConn) : Prop :=
  ∀ P conn', nonceVerdict setup w msg conn = .ok (.accept P conn') →
    ReachesDh setup w P conn' → DhOk w P

/-- **A nonce packet**: an assertion fails exactly when its DH exchange goes wrong. -/
theorem processNonce_spec {setup : RpcsSetup} (hfam : setup.SameFamily) (w : RpcsWorld)
    {msg : Bytes} (hmsg : 4 ≤ msg.length) {conn : RpcsConn}
    (hsent : conn.cryptoFlags.encSent = false) :
    FailsUnless Fault.assertion (NonceOk setup w msg conn) (SetsUp conn)
      (processNonce setup w msg conn) := by
  obtain ⟨v, hv, hon⟩ := nonceVerdict_ok setup w hmsg conn
  unfold processNonce NonceOk
  rw [hv, ok_bind]
  cases v with
  | refuse code conn' =>
    obtain ⟨hbefore, hcode⟩ := hon
    apply FailsUnless.returns
    · exact fun P c heq => absurd heq (by simp)
    · exact ⟨hbefore.toSameStream, fun h => absurd h (by simpa using hcode)⟩
  | accept P conn' =>
    -- the verdict is a function of the packet, so the condition is about this one call
    have hcond : (ReachesDh setup w P conn' → DhOk w P) ↔
        ∀ P' c, (.ok (.accept P conn') : Except Fault NonceVerdict) = .ok (.accept P' c) →
          ReachesDh setup w P' c → DhOk w P' := by
      constructor
      · intro h P' c heq
        obtain ⟨rfl, rfl⟩ := NonceVerdict.accept.inj (Except.ok.inj heq)
        exact h
      · exact fun h => h P conn' rfl
    refine ((initCrypto_spec hfam w P (hon.encSent hsent)).bind_quiet ?_).congr hcond
    rintro ⟨res, conn''⟩ ⟨hstream, hsuccess⟩
    dsimp only
    have hkeeps := hon.toSameStream.trans hstream
    split
    · exact ⟨_, rfl, hkeeps, fun h => absurd h (show ¬ (0 : ℤ) ≤ -6 by decide)⟩
    · rename_i hres
      exact ⟨_, rfl, hkeeps, fun _ => hsuccess (not_lt.mp hres)⟩

end MtprotoProxy
