/-
# Client connections

A client connection of the proxy: the part of `struct connection_info` and
`struct tcp_rpc_data` that its parser works on, `fail_connection`, the AES-CTR input of
`net/net-tcp-connections.c` with its TLS records, and the hand-over of a connection to a
cover domain (`proxy_connection`, `tcp_proxy_pass_parse_execute`).

AES-CTR, SHA-256 and HMAC are functions nothing is known about (`Crypto`).  A
`raw_message` is the list of its bytes.  A failed assertion is `none`.

The queue of a connection towards its peer is the list of everything that was ever put
into it, so that it also says what has been sent.
-/
import MtprotoProxy.ClientHello
import MtprotoProxy.SecretTraffic

namespace MtprotoProxy

open CLib

/-! ## Cryptography -/

/-- The functions of the cryptographic library.  `ctrKeystream key iv pos` is byte `pos`
of the AES-256-CTR key stream. -/
structure Crypto where
  sha256 : Bytes → Bytes
  sha256Hmac : Bytes → Bytes → Bytes
  ctrKeystream : Bytes → Bytes → ℕ → UInt8

/-- An `EVP_CIPHER_CTX` in counter mode. -/
structure CipherCtx where
  key : Bytes
  iv : Bytes
  pos : ℕ
  deriving DecidableEq

/-- `evp_crypt`. -/
def evpCrypt (cr : Crypto) (T : CipherCtx) (data : Bytes) : Bytes × CipherCtx :=
  (data.mapIdx (fun i b => b ^^^ cr.ctrKeystream T.key T.iv (T.pos + i)),
    { T with pos := T.pos + data.length })

/-- `struct aes_crypto`. -/
structure AesCrypto where
  readAeskey : CipherCtx
  writeAeskey : CipherCtx
  deriving DecidableEq

/-- `struct aes_key_data`. -/
structure AesKeyData where
  readKey : Bytes
  readIv : Bytes
  writeKey : Bytes
  writeIv : Bytes
  deriving DecidableEq

/-- What `aes_crypto_ctr128_init` makes of the key data. -/
def aesCryptoCtr128Init (D : AesKeyData) : AesCrypto :=
  ⟨⟨D.readKey, D.readIv, 0⟩, ⟨D.writeKey, D.writeIv, 0⟩⟩

/-- The keys and IVs of a cipher. -/
def AesCrypto.keys (T : AesCrypto) : AesKeyData :=
  ⟨T.readAeskey.key, T.readAeskey.iv, T.writeAeskey.key, T.writeAeskey.iv⟩

/-! ## The connection -/

/-- `c->type`: `ct_tcp_rpc_ext_server` or `ct_proxy_pass`. -/
inductive ConnType where
  | extServer
  | proxyPass
  deriving DecidableEq

/-- The bits of `c->flags` that other jobs set as well. -/
structure ConnFlags where
  error : Bool
  failed : Bool
  netFailed : Bool
  stopread : Bool
  stopparse : Bool
  deriving DecidableEq

/-- The bits of `D->flags` (`RPC_F_*`) that the parser works on. -/
structure RpcFlags where
  pad : Bool
  medium : Bool
  compact : Bool
  quickack : Bool
  extmode2 : Bool
  deriving DecidableEq

/-- A connection.  `isTls` is the bit `C_IS_TLS`; `flags` are the other bits of
`c->flags`, `rpcFlags` is `D->flags`.  `coverQueue` is the queue towards the cover
domain, which `c->extra` leads to; `executed` lists the packets that were given to
`execute`, with the flags they came with. -/
structure Conn where
  type : ConnType
  flags : ConnFlags
  isTls : Bool
  ourPort : ℕ
  peer : PeerAddr
  skipBytes : ℤ
  crypto : Option AesCrypto
  leftTlsPacketLength : ℤ
  inU : Bytes
  inp : Bytes
  outQueue : List Bytes
  hasExtra : Bool
  coverQueue : List Bytes
  rpcFlags : RpcFlags
  inPacketNum : ℤ
  extraInt2 : ℤ
  extraInt4 : ℤ
  executed : List (RpcFlags × Bytes)

/-- A connection after `tcp_rpcs_ext_init_accepted`. -/
def Conn.accepted (ourPort : ℕ) (peer : PeerAddr) : Conn where
  type := .extServer
  flags := ⟨false, false, false, false, false⟩
  isTls := false
  ourPort := ourPort
  peer := peer
  skipBytes := 0
  crypto := none
  leftTlsPacketLength := 0
  inU := []
  inp := []
  outQueue := []
  hasExtra := false
  coverQueue := []
  rpcFlags := ⟨false, false, false, false, false⟩
  inPacketNum := -3
  extraInt2 := 0
  extraInt4 := 0
  executed := []

/-- `fail_connection`.  The field `status` is `conn_error` exactly when `C_ERROR` is set. -/
def failConnection (c : Conn) : Conn := { c with flags := { c.flags with error := true } }

/-- The variables that all connections share. -/
structure Globals where
  store : ExtStore
  randoms : RandomCache

/-- What the world outside decides about one call: the clock (`now`, and `ext_now_sec` at
its three places), the allocation of the snapshot, the random generators, the socket and
the connection to a cover domain, and whether `execute` fails the connection. -/
structure World where
  now : NowT
  countTime : TimeT
  snapshotTime : TimeT
  attachTime : TimeT
  mallocOk : Bool
  randomness : ServerRandomness
  clientSocketOk : Bool
  allocConnectionOk : Bool
  executeFails : Bool

/-! ## Fetching bytes -/

/-- `assert (rwm_fetch_lookup (raw, buf, n) == n)`: the first `n` bytes. -/
def fetchLookup (raw : Bytes) (n : ℕ) : Option Bytes :=
  if n ≤ raw.length then some (raw.take n) else none

/-- `assert (rwm_skip_data (raw, n) == n)`. -/
def skipData (raw : Bytes) (n : ℕ) : Option Bytes :=
  if n ≤ raw.length then some (raw.drop n) else none

theorem fetchLookup_of_le {raw : Bytes} {n : ℕ} (h : n ≤ raw.length) :
    fetchLookup raw n = some (raw.take n) := if_pos h

theorem skipData_of_le {raw : Bytes} {n : ℕ} (h : n ≤ raw.length) :
    skipData raw n = some (raw.drop n) := if_pos h

/-! ## Decrypting the input -/

/-- `rwm_encrypt_decrypt_to (&c->in_u, &c->in, len, T->read_aeskey, 1)`. -/
def decryptTo (cr : Crypto) (T : AesCrypto) (len : ℕ) (c : Conn) : Conn :=
  let (plain, ctx) := evpCrypt cr T.readAeskey (c.inU.take len)
  { c with
    crypto := some { T with readAeskey := ctx }
    inU := c.inU.drop len
    inp := c.inp ++ plain }

/-- The loop of `cpu_tcp_aes_crypto_ctr128_decrypt_input`; a round takes at least one byte
off `c->in_u`. -/
def decryptLoop (cr : Crypto) : ℕ → Conn → Option (ℤ × Conn)
  | 0, c => some (0, c)
  | fuel + 1, c =>
    match c.crypto with
    | none => none
    | some T =>
      let len := c.inU.length
      if len = 0 then some (0, c)
      else if c.isTls then
        if c.leftTlsPacketLength < 0 then none
        else if c.leftTlsPacketLength = 0 then
          if len < 5 then some (5 - (len : ℤ), c)
          else if c.inU.take 3 ≠ [0x17, 0x03, 0x03] then some (0, failConnection c)
          else
            let left := readLength c.inU 3
            let len' := min left (len - 5)
            decryptLoop cr fuel (decryptTo cr T len'
              { c with inU := c.inU.drop 5, leftTlsPacketLength := (left - len' : ℕ) })
        else
          let len' := min c.leftTlsPacketLength.toNat len
          decryptLoop cr fuel (decryptTo cr T len'
            { c with leftTlsPacketLength := c.leftTlsPacketLength - len' })
      else decryptLoop cr fuel (decryptTo cr T len c)

/-- `cpu_tcp_aes_crypto_ctr128_decrypt_input`. -/
def cryptoDecryptInput (cr : Crypto) (c : Conn) : Option (ℤ × Conn) :=
  match c.crypto with
  | none => none
  | some _ => decryptLoop cr (c.inU.length + 1) c

/-- `d` differs from `c` at most in what decrypting the input touches. -/
def InputFrame (c d : Conn) : Prop :=
  d = { c with
    crypto := d.crypto
    inU := d.inU
    inp := d.inp
    leftTlsPacketLength := d.leftTlsPacketLength
    flags := d.flags }

theorem InputFrame.refl (c : Conn) : InputFrame c c := rfl

theorem InputFrame.trans {c d e : Conn} (h : InputFrame c d) (h' : InputFrame d e) :
    InputFrame c e := by
  unfold InputFrame at h h' ⊢
  rw [h']
  rw [h]

/-- The fields that decrypting the input leaves alone. -/
theorem InputFrame.fields {c d : Conn} (h : InputFrame c d) :
    d.type = c.type ∧ d.isTls = c.isTls ∧ d.inPacketNum = c.inPacketNum ∧
      d.outQueue = c.outQueue ∧ d.coverQueue = c.coverQueue ∧ d.skipBytes = c.skipBytes := by
  unfold InputFrame at h
  rw [h]
  exact ⟨rfl, rfl, rfl, rfl, rfl, rfl⟩

theorem inputFrame_decryptTo (cr : Crypto) (T : AesCrypto) (len : ℕ) (c : Conn) :
    InputFrame c (decryptTo cr T len c) := rfl

@[simp] theorem isSome_crypto_decryptTo (cr : Crypto) (T : AesCrypto) (len : ℕ) (c : Conn) :
    (decryptTo cr T len c).crypto.isSome = true := rfl

@[simp] theorem leftTlsPacketLength_decryptTo (cr : Crypto) (T : AesCrypto) (len : ℕ)
    (c : Conn) : (decryptTo cr T len c).leftTlsPacketLength = c.leftTlsPacketLength := rfl

/-- **What decrypting the input does**: it touches the input only, keeps the keys, and
returns no negative number. -/
theorem decryptLoop_frame (cr : Crypto) :
    ∀ {fuel : ℕ} {c c' : Conn} {res : ℤ}, decryptLoop cr fuel c = some (res, c') →
      0 ≤ res ∧ InputFrame c c' ∧
        c'.crypto.map AesCrypto.keys = c.crypto.map AesCrypto.keys := by
  intro fuel
  induction fuel with
  | zero =>
    intro c c' res h
    cases h
    exact ⟨le_rfl, InputFrame.refl c, rfl⟩
  | succ fuel ih =>
    intro c c' res h
    cases hT : c.crypto with
    | none =>
      rw [decryptLoop, hT] at h
      exact absurd h (by simp)
    | some T =>
      -- one round, on a connection `d` that differs from `c` in the input only
      have round : ∀ {len : ℕ} {d : Conn}, InputFrame c d →
          decryptLoop cr fuel (decryptTo cr T len d) = some (res, c') →
          0 ≤ res ∧ InputFrame c c' ∧ c'.crypto.map AesCrypto.keys = some T.keys := by
        intro len d hd hrun
        obtain ⟨hres, hframe, hkeys⟩ := ih hrun
        exact ⟨hres, (hd.trans (inputFrame_decryptTo cr T len d)).trans hframe, hkeys⟩
      rw [decryptLoop, hT] at h
      dsimp only at h
      split at h
      · cases h
        exact ⟨le_rfl, InputFrame.refl c, by rw [hT]⟩
      split at h
      · split at h
        · exact absurd h (by simp)
        split at h
        · split at h
          · cases h
            exact ⟨by omega, InputFrame.refl c, by rw [hT]⟩
          split at h
          · cases h
            refine ⟨le_rfl, rfl, ?_⟩
            show c.crypto.map _ = _
            rw [hT]
          · exact round (by rfl) h
        · exact round (by rfl) h
      · exact round (InputFrame.refl c) h

/-- **Decrypting the input** fails no assertion when the length that is left of the TLS
record is not negative. -/
theorem decryptLoop_isSome (cr : Crypto) :
    ∀ {fuel : ℕ} {c : Conn}, c.crypto.isSome = true →
      (c.isTls = true → 0 ≤ c.leftTlsPacketLength) → (decryptLoop cr fuel c).isSome = true := by
  intro fuel
  induction fuel with
  | zero => exact fun _ _ => rfl
  | succ fuel ih =>
    intro c hcrypto hleft
    obtain ⟨T, hT⟩ := Option.isSome_iff_exists.mp hcrypto
    rw [decryptLoop, hT]
    dsimp only
    split
    · rfl
    split
    · rename_i htls
      rw [if_neg (not_lt.mpr (hleft htls))]
      split
      · split
        · rfl
        split
        · rfl
        · exact ih (isSome_crypto_decryptTo ..) (fun _ => Int.natCast_nonneg _)
      · refine ih (isSome_crypto_decryptTo ..) (fun _ => ?_)
        have hpos := hleft htls
        simp only [leftTlsPacketLength_decryptTo]
        omega
    · rename_i htls
      exact ih (isSome_crypto_decryptTo ..) (fun h => absurd h htls)

/-- The whole function is its loop. -/
theorem cryptoDecryptInput_eq (cr : Crypto) {c : Conn} (hcrypto : c.crypto.isSome = true) :
    cryptoDecryptInput cr c = decryptLoop cr (c.inU.length + 1) c := by
  obtain ⟨T, hT⟩ := Option.isSome_iff_exists.mp hcrypto
  unfold cryptoDecryptInput
  rw [hT]

/-! ## Cover domains -/

/-- `tcp_proxy_pass_parse_execute`.  `E->extra_int2` of the connection to a cover domain
is never set. -/
def tcpProxyPassParseExecute (g : Globals) (c : Conn) : ℤ × Globals × Conn :=
  if c.hasExtra then
    let store :=
      if 0 < c.inp.length then tcpRpcsNoteConnectionTraffic 0 0 c.inp.length g.store
      else g.store
    (0, { g with store := store },
      { c with inp := [], coverQueue := c.coverQueue ++ [c.inp] })
  else (0, g, failConnection c)

/-- `proxy_connection`. -/
def proxyConnection (w : World) (info : DomainInfo) (g : Globals) (c : Conn) :
    ℤ × Globals × Conn :=
  if info.target = 0 ∧ info.targetIpv6 = List.replicate 16 0 then (0, g, failConnection c)
  else if w.clientSocketOk then
    let c' := { c with crypto := none }
    if w.allocConnectionOk then
      tcpProxyPassParseExecute g { c' with type := .proxyPass, hasExtra := true }
    else (0, g, failConnection c')
  else (0, g, failConnection c)

/-- The connection `c` when it has become one end of a proxied connection: all of its
input is queued to the cover domain. -/
def Conn.handedOver (c : Conn) : Conn :=
  { c with
    crypto := none
    type := .proxyPass
    hasExtra := true
    inp := []
    coverQueue := c.coverQueue ++ [c.inp] }

/-- **`proxy_connection`** hands the connection over, or fails it and keeps its input. -/
theorem proxyConnection_cases (w : World) (info : DomainInfo) (g : Globals) (c : Conn) :
    (∃ g', proxyConnection w info g c = (0, g', c.handedOver)) ∨
      ∃ c', proxyConnection w info g c = (0, g, c') ∧ InputFrame c c' ∧ c'.inp = c.inp ∧
        (c.crypto = none → c'.crypto = none) := by
  unfold proxyConnection
  split
  · exact Or.inr ⟨failConnection c, rfl, rfl, rfl, id⟩
  split
  · split
    · exact Or.inl ⟨_, rfl⟩
    · exact Or.inr ⟨failConnection { c with crypto := none }, rfl, rfl, rfl, fun _ => rfl⟩
  · exact Or.inr ⟨failConnection c, rfl, rfl, rfl, id⟩

end MtprotoProxy
