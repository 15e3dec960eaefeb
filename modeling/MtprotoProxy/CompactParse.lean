/-
# `tcp_rpcs_compact_parse_execute`

The parser of client connections in `net/net-tcp-rpc-ext-server.c`, one pass of its
`while (1)` at a time (`parsePass`): the fake-TLS phase, the 64-byte header with its trial
decryption, and the packets.

`__ALLOW_UNOBFS__` is `0`, so the branches under it are not compiled, and no connection
ever gets `RPCF_COMPACT_OFF`.  A pass either goes round again or returns a number of bytes
to its caller; a failed assertion is `none`.  One pass is one step: other threads act
between passes.
-/
import MtprotoProxy.Connection

namespace MtprotoProxy

open CLib

/-- What the parser reads of the configuration: the cryptographic library, the proxy
domains, and `max_packet_len` of the server functions. -/
structure ExtConfig where
  crypto : Crypto
  domains : ProxyDomains
  maxPacketLen : ℤ

/-- `NEED_MORE_BYTES`. -/
def needMoreBytes : ℤ := 2 ^ 31 - 1

/-- `-1 << 28`, the return value that makes the reader skip all that comes. -/
def skipAllBytes : ℤ := -2 ^ 28

/-- How a pass ends: `continue`, or `return`. -/
inductive Pass where
  | again
  | ret (res : ℤ)
  deriving DecidableEq

/-- What a pass leaves behind. -/
abbrev PassResult : Type := Option (Pass × Globals × Conn)

/-- `RETURN_TLS_ERROR`; `none` stands for a null pointer that is followed. -/
def returnTlsError (w : World) (info : Option DomainInfo) (g : Globals) (c : Conn) :
    PassResult :=
  match info with
  | none => none
  | some info =>
    let (res, g', c') := proxyConnection w info g c
    some (.ret res, g', c')

/-! ## The fake-TLS phase -/

/-- How the branch for an established TLS connection ends: it returns, or the header
follows in the input. -/
inductive TlsFirst where
  | ret (res : ℤ) (c : Conn)
  | header (c : Conn)

/-- The dummy ChangeCipherSpec record and the start of the first application record. -/
def dummyChangeCipherSpec : Bytes := [0x14, 0x03, 0x03, 0x00, 0x01, 0x01, 0x17, 0x03, 0x03]

/-- The branch under `C_IS_TLS`. -/
def tlsFirstPacket (c : Conn) : Option TlsFirst :=
  let len := c.inp.length
  if len < 11 then some (.ret (11 - len) c)
  else do
    let header ← fetchLookup c.inp 11
    if header.take 9 ≠ dummyChangeCipherSpec then some (.ret 0 (failConnection c))
    else
      let left := readLength header 9
      if len < 11 + left then some (.ret (11 + left - len) c)
      else do
        let rest ← skipData c.inp 11
        if left < 64 then
          some (.ret 0 (failConnection { c with inp := rest, leftTlsPacketLength := left }))
        else do
          let _packetLen ← fetchLookup rest 4
          some (.header { c with inp := rest, leftTlsPacketLength := left - 64 })

/-- The branch for a ClientHello. -/
def clientHelloPass (cfg : ExtConfig) (w : World) (g : Globals) (c : Conn) : PassResult := do
  let len := c.inp.length
  let header ← fetchLookup c.inp 5
  let minLen := 5 + readLength header 3
  if len < minLen then some (.ret (minLen - len), g, c)
  else
    let readLen := min len 4096
    let hello ← fetchLookup c.inp readLen
    match getSniDomainInfo cfg.domains hello readLen with
    | none => returnTlsError w cfg.domains.defaultDomainInfo g c
    | some info =>
      if c.ourPort = 80 ∨ minLen < len ∨ len ≠ readLen then returnTlsError w (some info) g c
      else
        let snapshot := extSnapshotActiveSecrets w.mallocOk g.store w.snapshotTime.val
        let (verdict, randoms) ←
          checkClientHello cfg.crypto.sha256Hmac w.now snapshot hello g.randoms
        match verdict, cipherSuiteId hello readLen with
        | some a, some suite =>
          let rest ← skipData c.inp len
          let (extraInt2, store) :=
            extMetricsAttachSecretToConnection w.attachTime c.peer c.extraInt2 a.id g.store
          let response ←
            serverHello cfg.crypto.sha256Hmac w.randomness info a.secret hello suite
          some (.ret 11, ⟨store, randoms⟩,
            { c with
              inp := rest
              isTls := true
              leftTlsPacketLength := -1
              extraInt2 := extraInt2
              outQueue := c.outQueue ++ [response] })
        | _, _ => returnTlsError w (some info) ⟨g.store, randoms⟩ c

/-! ## The 64-byte header -/

/-- The local variables that the trials work on: `random_header`, `k` and `key_data`. -/
structure TrialVars where
  randomHeader : Bytes
  k : Bytes
  keyData : AesKeyData

/-- The variables before the first trial. -/
def TrialVars.start (header : Bytes) : TrialVars :=
  ⟨header, List.replicate 48 0, ⟨[], [], [], []⟩⟩

/-- The part of a trial that fills in `key_data`; `none` is the trial that is made when
there are no active secrets. -/
def trialKeyData (cr : Crypto) (secret : Option Secret) (v : TrialVars) : TrialVars :=
  let readIv := slice v.randomHeader 40 16
  let writeKey := (slice v.randomHeader 24 32).reverse
  let writeIv := (slice v.randomHeader 8 16).reverse
  match secret with
  | some s =>
    let k₁ := memcpyAt (memcpyAt v.k 0 (slice v.randomHeader 8 32)) 32 s.val
    let k₂ := memcpyAt k₁ 0 writeKey
    ⟨v.randomHeader, k₂, ⟨cr.sha256 (k₁.take 48), readIv, cr.sha256 (k₂.take 48), writeIv⟩⟩
  | none => ⟨v.randomHeader, v.k, ⟨slice v.randomHeader 8 32, readIv, writeKey, writeIv⟩⟩

/-- The tag at offset 56 of a decrypted header. -/
def headerTag (header : Bytes) : ℕ := le32 (header.drop 56)

/-- The three mode tags. -/
def isModeTag (tag : ℕ) : Bool := tag = 0xdddddddd ∨ tag = 0xeeeeeeee ∨ tag = 0xefefefef

/-- How the loop of trials ends: with a mode tag, with a mode tag that TLS-only mode does
not take, or with no tag. -/
inductive TrialResult where
  | accept (a : Option ExtActiveSecret) (v : TrialVars) (T : AesCrypto)
  | expectedPadding (T : AesCrypto)
  | reject (v : TrialVars)

/-- The loop of trials.  A failed trial restores `random_header`. -/
def trialLoop (cr : Crypto) (allowOnlyTls : Bool) (randomHeaderSav : Bytes) :
    List (Option ExtActiveSecret) → TrialVars → TrialResult
  | [], v => .reject v
  | a :: rest, v =>
    let v₁ := trialKeyData cr (a.map (·.secret)) v
    let T := aesCryptoCtr128Init v₁.keyData
    let (header, ctx) := evpCrypt cr T.readAeskey v₁.randomHeader
    let T' : AesCrypto := { T with readAeskey := ctx }
    if isModeTag (headerTag header) then
      if headerTag header ≠ 0xdddddddd ∧ allowOnlyTls then .expectedPadding T'
      else .accept a { v₁ with randomHeader := header } T'
    else trialLoop cr allowOnlyTls randomHeaderSav rest
      { v₁ with randomHeader := randomHeaderSav }

/-- The secrets that are tried; with none active, one trial without a secret. -/
def attempts (active : List ExtActiveSecret) : List (Option ExtActiveSecret) :=
  if active = [] then [none] else active.map some

/-- `D->flags` after the `switch` on the tag. -/
def modeFlags (tag : ℕ) (f : RpcFlags) : RpcFlags :=
  if tag = 0xeeeeeeee then { f with medium := true, extmode2 := true }
  else if tag = 0xdddddddd then { f with medium := true, extmode2 := true, pad := true }
  else { f with compact := true, extmode2 := true }

/-- `*(short *)(random_header + 60)`. -/
def headerTarget (header : Bytes) : ℤ := leShort (header.drop 60)

/-- What a mode tag changes in the connection: the input goes through the cipher from now
on. -/
def enterMode (cfg : ExtConfig) (header : Bytes) (T : AesCrypto) (c : Conn) : Option Conn := do
  let rest ← skipData c.inp 64
  let (res, c') ← cryptoDecryptInput cfg.crypto
    { c with
      crypto := some T
      inU := c.inU ++ rest
      inp := []
      inPacketNum := 0
      rpcFlags := modeFlags (headerTag header) c.rpcFlags }
  if res < 0 then none else some { c' with extraInt4 := headerTarget header }

/-- The branch that a mode tag is accepted in. -/
def acceptHeader (cfg : ExtConfig) (w : World) (a : Option ExtActiveSecret) (header : Bytes)
    (T : AesCrypto) (g : Globals) (c : Conn) : PassResult := do
  let c' ← enterMode cfg header T c
  let secretId := (a.map (·.id)).getD 0
  let (extraInt2, store) :=
    extMetricsAttachSecretToConnection w.attachTime c'.peer c'.extraInt2 secretId g.store
  some (.again, { g with store := store }, { c' with extraInt2 := extraInt2 })

/-- The part of the handshake from the check for 64 bytes on. -/
def headerPass (cfg : ExtConfig) (w : World) (g : Globals) (c : Conn) : PassResult :=
  let len := c.inp.length
  if len < 64 then
    if c.isTls then none else some (.ret (64 - len), g, c)
  else do
    let header ← fetchLookup c.inp 64
    match extSnapshotActiveSecrets w.mallocOk g.store w.snapshotTime.val with
    | none => some (.ret skipAllBytes, g, c)
    | some active =>
      match trialLoop cfg.crypto cfg.domains.allowOnlyTls header (attempts active)
          (TrialVars.start header) with
      | .accept a v T => acceptHeader cfg w a v.randomHeader T g c
      | .expectedPadding T =>
        returnTlsError w cfg.domains.defaultDomainInfo g { c with crypto := some T }
      | .reject _ => some (.ret skipAllBytes, g, { c with crypto := none })

/-! ## The handshake -/

/-- The test for a ClientHello: a handshake record of at least 512 bytes, with a secret
active and TLS-only mode on. -/
def looksLikeClientHello (cfg : ExtConfig) (w : World) (g : Globals) (packetLen : ℕ) : Bool :=
  packetLen % 2 ^ 24 = 0x010316 ∧ 2 ≤ asInt32 packetLen / 2 ^ 24 ∧
    0 < tcpRpcsActiveSecretCount g.store w.countTime.val ∧ cfg.domains.allowOnlyTls

/-- A pass with `D->in_packet_num == -3`. -/
def handshakePass (cfg : ExtConfig) (w : World) (g : Globals) (c : Conn) (packetLen : ℕ) :
    PassResult :=
  if c.isTls then do
    match ← tlsFirstPacket c with
    | .ret res c' => some (.ret res, g, c')
    | .header c' => headerPass cfg w g c'
  else if looksLikeClientHello cfg w g packetLen then clientHelloPass cfg w g c
  else if cfg.domains.allowOnlyTls then
    returnTlsError w cfg.domains.defaultDomainInfo g c
  else headerPass cfg w g c

/-! ## The packets -/

/-- `RPC_PING`. -/
def rpcPing : ℕ := 0x5730a2df

/-- The bytes of `RPC_PONG`. -/
def rpcPongBytes : Bytes := [0xa7, 0xea, 0x30, 0x84]

/-- The length word of a packet: the quick-ack bit, the length, and the number of bytes
the length takes.  `none` is an overlong encoding. -/
def packetLength (f : RpcFlags) (word : ℕ) : Option (Bool × ℕ × ℕ) :=
  if f.medium then some (word.testBit 31, word % 2 ^ 31, 4)
  else
    -- `packet_len &= ~0x80` clears the quick-ack bit
    let rest := if word.testBit 7 then word - 2 ^ 7 else word
    if rest % 2 ^ 8 = 0x7f then
      if rest / 2 ^ 8 < 0x7f then none else some (word.testBit 7, rest / 2 ^ 8 * 4, 4)
    else some (word.testBit 7, rest % 2 ^ 7 * 4, 1)

/-- The check of a packet length. -/
def isBadLength (cfg : ExtConfig) (f : RpcFlags) (packetLen : ℕ) : Bool :=
  packetLen = 0 ∨ 2 ^ 30 ≤ packetLen ∨ (f.pad = false ∧ packetLen % 4 ≠ 0) ∨
    (cfg.maxPacketLen < packetLen ∧ 0 < cfg.maxPacketLen)

/-- The packet as `execute` gets it: in padded mode it is cut to a multiple of four
bytes. -/
def packetMessage (f : RpcFlags) (raw : Bytes) (packetLen : ℕ) : Bytes :=
  let msg := raw.take packetLen
  if f.pad then msg.take (packetLen - packetLen % 4) else msg

/-- `execute`, and `tcp_rpcs_default_execute` for a ping. -/
def executePacket (w : World) (msg : Bytes) (c : Conn) : Conn :=
  if le32 msg = rpcPing then
    if msg.length = 12 then { c with outQueue := c.outQueue ++ [rpcPongBytes ++ msg.drop 4] }
    else c
  else
    let c' := { c with executed := c.executed ++ [(c.rpcFlags, msg)] }
    if w.executeFails then failConnection c' else c'

/-- The number of the packet at hand: `0` for the first one after a handshake without
header. -/
def packetNumber (inPacketNum : ℤ) : Option ℤ :=
  if inPacketNum < 0 then if inPacketNum = -3 then some 0 else none else some inPacketNum

/-- A complete packet is cut off the input and executed. -/
def takePacket (w : World) (g : Globals) (c : Conn) (packetLen packetLenBytes : ℕ) :
    PassResult := do
  let raw ← skipData c.inp packetLenBytes
  let msg := packetMessage c.rpcFlags raw packetLen
  let _packetType ← fetchLookup msg 4
  let num ← packetNumber c.inPacketNum
  let c' := executePacket w msg { c with inp := raw.drop packetLen, inPacketNum := num }
  some (.again, g, { c' with inPacketNum := wrap32 (c'.inPacketNum + 1) })

/-- A pass with `D->in_packet_num != -3`. -/
def packetPass (cfg : ExtConfig) (w : World) (g : Globals) (c : Conn) (word : ℕ) :
    PassResult :=
  match packetLength c.rpcFlags word with
  | none =>
    some (.ret 0, g, failConnection { c with
      rpcFlags := { c.rpcFlags with quickack := word.testBit 7 } })
  | some (quickack, packetLen, packetLenBytes) =>
    let c' := { c with rpcFlags := { c.rpcFlags with quickack := quickack } }
    if isBadLength cfg c.rpcFlags packetLen then some (.ret 0, g, failConnection c')
    else if c.inp.length < packetLen + packetLenBytes then
      some (.ret (packetLen + packetLenBytes - c.inp.length), g, c')
    else takePacket w g c' packetLen packetLenBytes

/-! ## One pass -/

/-- One pass of the `while (1)` of `tcp_rpcs_compact_parse_execute`.  The timer that it
removes is the one behind `tcp_rpcs_ext_alarm`, which does nothing outside the
handshake. -/
def parsePass (cfg : ExtConfig) (w : World) (g : Globals) (c : Conn) : PassResult :=
  if c.flags.error then some (.ret needMoreBytes, g, c)
  else if c.flags.stopparse then some (.ret needMoreBytes, g, c)
  else
    let len := c.inp.length
    if len = 0 then some (.ret needMoreBytes, g, c)
    else
      let minLen := if c.rpcFlags.medium then 4 else 1
      if len < minLen + 8 then some (.ret (minLen + 8 - len : ℤ), g, c)
      else do
        let word ← fetchLookup c.inp 4
        if c.inPacketNum = -3 then handshakePass cfg w g c (le32 word)
        else packetPass cfg w g c (le32 word)

end MtprotoProxy
