/-
# TLS records

The output side of an encrypted connection (`cpu_tcp_aes_crypto_ctr128_encrypt_output` of
`net/net-tcp-connections.c`) against its input side
(`cpu_tcp_aes_crypto_ctr128_decrypt_input`): what is pushed to the output in any pieces comes
out of the input at the other end, whatever the wire does to the cutting.

Both ends hold a counter-mode cipher on one key stream.  `TlsSynced` is the invariant of the
receiver: the bytes at hand and the bytes to come are the rest of the current record, as long
as `left_tls_packet_length` says, and then whole records.
-/
import MtprotoProxy.ConnectionRun

namespace MtprotoProxy

open CLib

/-! ## The key stream -/

/-- The cipher when it has gone through `n` more bytes. -/
def CipherCtx.advance (T : CipherCtx) (n : ℕ) : CipherCtx := { T with pos := T.pos + n }

@[simp] theorem CipherCtx.advance_zero (T : CipherCtx) : T.advance 0 = T := rfl

theorem CipherCtx.advance_advance (T : CipherCtx) (m n : ℕ) :
    (T.advance m).advance n = T.advance (m + n) := by
  simp [CipherCtx.advance, Nat.add_assoc]

/-- The bytes that the cipher makes of `data`. -/
def crypted (cr : Crypto) (T : CipherCtx) (data : Bytes) : Bytes := (evpCrypt cr T data).1

theorem evpCrypt_eq (cr : Crypto) (T : CipherCtx) (data : Bytes) :
    evpCrypt cr T data = (crypted cr T data, T.advance data.length) := rfl

@[simp] theorem length_crypted (cr : Crypto) (T : CipherCtx) (data : Bytes) :
    (crypted cr T data).length = data.length := by
  simp [crypted, evpCrypt]

@[simp] theorem crypted_nil (cr : Crypto) (T : CipherCtx) : crypted cr T [] = [] := rfl

theorem crypted_append (cr : Crypto) (T : CipherCtx) (a b : Bytes) :
    crypted cr T (a ++ b) = crypted cr T a ++ crypted cr (T.advance a.length) b := by
  unfold crypted evpCrypt CipherCtx.advance
  simp only [List.mapIdx_append]
  congr 1
  apply List.ext_getElem
  · simp
  · intro i h₁ h₂
    simp only [List.getElem_mapIdx]
    rw [Nat.add_assoc, Nat.add_comm a.length i]

/-- **The cipher undoes itself** at the same place of the key stream. -/
@[simp] theorem crypted_crypted (cr : Crypto) (T : CipherCtx) (data : Bytes) :
    crypted cr T (crypted cr T data) = data := by
  unfold crypted evpCrypt
  apply List.ext_getElem
  · simp
  · intro i h₁ h₂
    simp only [List.getElem_mapIdx]
    rw [UInt8.xor_assoc, UInt8.xor_self, UInt8.xor_zero]

theorem crypted_take (cr : Crypto) (T : CipherCtx) (data : Bytes) (n : ℕ) :
    (crypted cr T data).take n = crypted cr T (data.take n) := by
  by_cases hn : n ≤ data.length
  · have hsplit := crypted_append cr T (data.take n) (data.drop n)
    rw [List.take_append_drop] at hsplit
    have hlen : (crypted cr T (data.take n)).length = n := by
      rw [length_crypted, List.length_take, min_eq_left hn]
    rw [hsplit]
    exact List.take_left' hlen
  · rw [List.take_of_length_le (by rw [length_crypted]; omega),
      List.take_of_length_le (by omega)]

theorem crypted_drop (cr : Crypto) (T : CipherCtx) (data : Bytes) {n : ℕ} (hn : n ≤ data.length) :
    (crypted cr T data).drop n = crypted cr (T.advance n) (data.drop n) := by
  have hsplit := crypted_append cr T (data.take n) (data.drop n)
  rw [List.take_append_drop, List.length_take, min_eq_left hn] at hsplit
  rw [hsplit]
  exact List.drop_left' (by rw [length_crypted, List.length_take, min_eq_left hn])

/-! ## The sender -/

/-- `D->custom_crc_partial`: `crc32_partial` or `crc32c_partial`. -/
inductive CrcPartial where
  | crc32
  | crc32c
  deriving DecidableEq

/-- The output side of a connection: `c->out` waits for the cipher, `c->out_p` is what goes to
the socket. -/
structure OutConn where
  isTls : Bool
  leftTlsPacketLength : ℤ
  rpcFlags : RpcFlags
  outPacketNum : ℤ
  customCrcPartial : CrcPartial
  crypto : Option AesCrypto
  out : Bytes
  outP : Bytes

/-- `MAX_PACKET_LENGTH`. -/
def maxTlsPacketLength : ℕ := 1425

/-- The header of an application record. -/
def tlsRecordHeader (len : ℕ) : Bytes :=
  [0x17, 0x03, 0x03, UInt8.ofNat (len / 256), UInt8.ofNat (len % 256)]

/-- `rwm_encrypt_decrypt_to (&c->out, &c->out_p, len, T->write_aeskey, 1)`. -/
def encryptTo (cr : Crypto) (T : AesCrypto) (len : ℕ) (o : OutConn) : OutConn :=
  let (data, ctx) := evpCrypt cr T.writeAeskey (o.out.take len)
  { o with
    crypto := some { T with writeAeskey := ctx }
    out := o.out.drop len
    outP := o.outP ++ data }

/-- The loop of `cpu_tcp_aes_crypto_ctr128_encrypt_output`; a round takes at least one byte off
`c->out`. -/
def encryptLoop (cr : Crypto) : ℕ → OutConn → Option OutConn
  | 0, o => some o
  | fuel + 1, o =>
    match o.crypto with
    | none => none
    | some T =>
      let len := o.out.length
      if len = 0 then some o
      else if o.isTls then
        if o.leftTlsPacketLength < 0 then none
        else
          let len' := if maxTlsPacketLength < len then maxTlsPacketLength else len
          encryptLoop cr fuel (encryptTo cr T len' { o with outP := o.outP ++ tlsRecordHeader len' })
      else encryptLoop cr fuel (encryptTo cr T len o)

/-- `cpu_tcp_aes_crypto_ctr128_encrypt_output`. -/
def cryptoEncryptOutput (cr : Crypto) (o : OutConn) : Option OutConn :=
  match o.crypto with
  | none => none
  | some _ => encryptLoop cr (o.out.length + 1) o

/-- What happens at the output: bytes are pushed, or what is there is encrypted. -/
inductive OutEvent where
  | push (data : Bytes)
  | encrypt

/-- One event at the output. -/
def OutConn.step (cr : Crypto) (o : OutConn) : OutEvent → Option OutConn
  | .push data => some { o with out := o.out ++ data }
  | .encrypt => cryptoEncryptOutput cr o

/-- All bytes that are pushed. -/
def pushed : List OutEvent → Bytes
  | [] => []
  | .push data :: es => data ++ pushed es
  | .encrypt :: es => pushed es

/-! ## The wire -/

/-- The records with these contents, on the wire. -/
def encodeRecords (cr : Crypto) : CipherCtx → List Bytes → Bytes
  | _, [] => []
  | T, r :: rs => tlsRecordHeader r.length ++ crypted cr T r ++ encodeRecords cr (T.advance r.length) rs

theorem encodeRecords_append (cr : Crypto) :
    ∀ (rs rs' : List Bytes) (T : CipherCtx), encodeRecords cr T (rs ++ rs')
      = encodeRecords cr T rs ++ encodeRecords cr (T.advance rs.flatten.length) rs' := by
  intro rs
  induction rs with
  | nil => intro rs' T; simp [encodeRecords]
  | cons r rs ih =>
    intro rs' T
    rw [List.cons_append, encodeRecords, encodeRecords, ih, CipherCtx.advance_advance,
      List.flatten_cons, List.length_append, List.append_assoc, List.append_assoc]
    simp only [List.append_assoc]

/-- The length that is written in a header can be read. -/
theorem readLength_header {len : ℕ} (h : len < 2 ^ 16) (rest : Bytes) :
    readLength (tlsRecordHeader len ++ rest) 3 = len := by
  have hhi : (UInt8.ofNat (len / 256)).toNat = len / 256 := by
    rw [UInt8.toNat_ofNat']
    omega
  have hlo : (UInt8.ofNat (len % 256)).toNat = len % 256 := by
    rw [UInt8.toNat_ofNat']
    omega
  show (UInt8.ofNat (len / 256)).toNat * 256 + (UInt8.ofNat (len % 256)).toNat = len
  omega

/-- How many bytes of the current record are still to come, when `n` bytes of the wire have
been received. -/
def recordLeft : List Bytes → ℕ → ℕ
  | [], _ => 0
  | r :: rs, n =>
    if n < 5 then 0 else if n < 5 + r.length then 5 + r.length - n
    else recordLeft rs (n - (5 + r.length))

/-! ## What the sender puts on the wire -/

/-- The records of the sender: no record is empty, and none is longer than `MAX_PACKET_LENGTH`. -/
def SentRecords (rs : List Bytes) : Prop := ∀ r ∈ rs, r ≠ [] ∧ r.length ≤ maxTlsPacketLength

/-- **Encrypting the output** of a TLS connection cuts all of it into records. -/
theorem encryptLoop_tls (cr : Crypto) :
    ∀ {fuel : ℕ} {o : OutConn} {T : AesCrypto}, o.out.length < fuel → o.crypto = some T →
      o.isTls = true → 0 ≤ o.leftTlsPacketLength →
      ∃ rs, SentRecords rs ∧ rs.flatten = o.out ∧ encryptLoop cr fuel o = some { o with
        crypto := some { T with writeAeskey := T.writeAeskey.advance o.out.length }
        out := []
        outP := o.outP ++ encodeRecords cr T.writeAeskey rs } := by
  intro fuel
  induction fuel with
  | zero => intro o T hfuel; omega
  | succ fuel ih =>
    intro o T hfuel hT htls hleft
    rw [encryptLoop, hT]
    dsimp only
    by_cases hnil : o.out.length = 0
    · rw [if_pos hnil]
      have hout : o.out = [] := List.length_eq_zero_iff.mp hnil
      refine ⟨[], by simp [SentRecords], hout.symm, ?_⟩
      rw [hnil, CipherCtx.advance_zero, encodeRecords, List.append_nil, ← hT, ← hout]
    rw [if_neg hnil, if_pos htls, if_neg (not_lt.mpr hleft)]
    -- one record of `len` bytes, the rest by induction
    set len := if maxTlsPacketLength < o.out.length then maxTlsPacketLength else o.out.length
      with hlen
    have hpos : 0 < len := by rw [hlen]; unfold maxTlsPacketLength; split <;> omega
    have hle : len ≤ o.out.length := by rw [hlen]; split <;> omega
    have hmax : len ≤ maxTlsPacketLength := by rw [hlen]; split <;> omega
    have htake : (o.out.take len).length = len := by rw [List.length_take, min_eq_left hle]
    obtain ⟨rs, hsent, hflat, hrun⟩ := ih
      (o := encryptTo cr T len { o with outP := o.outP ++ tlsRecordHeader len })
      (T := { T with writeAeskey := T.writeAeskey.advance len })
      (by simp only [encryptTo, List.length_drop]; omega)
      (by simp only [encryptTo, evpCrypt_eq, htake]) htls hleft
    refine ⟨o.out.take len :: rs, ?_, ?_, ?_⟩
    · intro r hr
      rcases List.mem_cons.mp hr with rfl | hr
      · refine ⟨fun hnone => ?_, htake.trans_le hmax⟩
        rw [hnone] at htake
        exact absurd htake (by simp; omega)
      · exact hsent r hr
    · rw [List.flatten_cons, hflat]
      exact List.take_append_drop len o.out
    · rw [hT] at hrun
      rw [hrun]
      simp only [encryptTo, evpCrypt_eq, encodeRecords, htake, CipherCtx.advance_advance,
        List.length_drop, List.append_assoc]
      rw [show len + (o.out.length - len) = o.out.length by omega]

/-- What the output side has done since it held the cipher `T`: the records `rs` are on the
wire, and what was pushed and is not in them waits. -/
structure TlsSent (cr : Crypto) (T : AesCrypto) (done : Bytes) (rs : List Bytes) (bytes : Bytes)
    (o : OutConn) : Prop where
  tls : o.isTls = true
  left : 0 ≤ o.leftTlsPacketLength
  sent : SentRecords rs
  crypto : o.crypto = some { T with writeAeskey := T.writeAeskey.advance rs.flatten.length }
  wire : o.outP = done ++ encodeRecords cr T.writeAeskey rs
  waiting : rs.flatten ++ o.out = bytes

theorem TlsSent.start {cr : Crypto} {T : AesCrypto} {o : OutConn} (hT : o.crypto = some T)
    (htls : o.isTls = true) (hleft : 0 ≤ o.leftTlsPacketLength) (hout : o.out = []) :
    TlsSent cr T o.outP [] [] o where
  tls := htls
  left := hleft
  sent := by simp [SentRecords]
  crypto := hT
  wire := by simp [encodeRecords]
  waiting := by simp [hout]

/-- **A run at the output**: everything that was pushed is in the records, or waits. -/
theorem TlsSent.run {cr : Crypto} {T : AesCrypto} {done : Bytes} :
    ∀ {es : List OutEvent} {rs : List Bytes} {bytes : Bytes} {o : OutConn},
      TlsSent cr T done rs bytes o →
      ∃ rs' o', Runs.run (OutConn.step cr) o es = some o' ∧
        TlsSent cr T done rs' (bytes ++ pushed es) o' := by
  intro es
  induction es with
  | nil =>
    intro rs bytes o h
    rw [pushed, List.append_nil]
    exact ⟨rs, o, rfl, h⟩
  | cons e es ih =>
    intro rs bytes o h
    cases e with
    | push data =>
      have hnext : TlsSent cr T done rs (bytes ++ data) { o with out := o.out ++ data } :=
        ⟨h.tls, h.left, h.sent, h.crypto, h.wire, by rw [← h.waiting, List.append_assoc]⟩
      obtain ⟨rs', o', hrun, hend⟩ := ih hnext
      refine ⟨rs', o', Runs.run_cons.mpr ⟨_, rfl, hrun⟩, ?_⟩
      rwa [pushed, ← List.append_assoc]
    | encrypt =>
      obtain ⟨new, hsent, hflat, hstep⟩ := encryptLoop_tls cr (Nat.lt_succ_self o.out.length)
        h.crypto h.tls h.left
      have hcall : OutConn.step cr o .encrypt = encryptLoop cr (o.out.length + 1) o := by
        rw [OutConn.step, cryptoEncryptOutput, h.crypto]
      have hnext : TlsSent cr T done (rs ++ new) bytes { o with
          crypto := some { T with
            writeAeskey := (T.writeAeskey.advance rs.flatten.length).advance o.out.length }
          out := []
          outP := o.outP ++ encodeRecords cr (T.writeAeskey.advance rs.flatten.length) new } := by
        refine ⟨h.tls, h.left, ?_, ?_, ?_, ?_⟩
        · intro r hr
          exact (List.mem_append.mp hr).elim (h.sent r) (hsent r)
        · rw [List.flatten_append, hflat, List.length_append, CipherCtx.advance_advance]
        · rw [h.wire, encodeRecords_append, List.append_assoc]
        · rw [List.flatten_append, hflat, List.append_nil, h.waiting]
      obtain ⟨rs', o', hrun, hend⟩ := ih hnext
      exact ⟨rs', o', Runs.run_cons.mpr ⟨_, hcall.trans hstep, hrun⟩, hend⟩

/-- **A run that ends with the cipher**: everything that was pushed is in the records. -/
theorem sent_tls (cr : Crypto) {T : AesCrypto} {o : OutConn} (hT : o.crypto = some T)
    (htls : o.isTls = true) (hleft : 0 ≤ o.leftTlsPacketLength) (hout : o.out = [])
    (es : List OutEvent) :
    ∃ rs o', Runs.run (OutConn.step cr) o (es ++ [.encrypt]) = some o' ∧ o'.out = [] ∧
      o'.outP = o.outP ++ encodeRecords cr T.writeAeskey rs ∧ SentRecords rs ∧
      rs.flatten = pushed es := by
  have hbegin : TlsSent cr T o.outP [] [] o := .start hT htls hleft hout
  obtain ⟨rs, o₁, hrun, h⟩ : ∃ rs o₁, Runs.run (OutConn.step cr) o es = some o₁ ∧
      TlsSent cr T o.outP rs ([] ++ pushed es) o₁ := hbegin.run
  rw [List.nil_append] at h
  obtain ⟨new, hnew, hflat, hstep⟩ := encryptLoop_tls cr (Nat.lt_succ_self o₁.out.length)
    h.crypto h.tls h.left
  have hcall : OutConn.step cr o₁ .encrypt = encryptLoop cr (o₁.out.length + 1) o₁ := by
    rw [OutConn.step, cryptoEncryptOutput, h.crypto]
  refine ⟨rs ++ new, _, Runs.run_append.mpr ⟨o₁, hrun, Runs.run_cons.mpr
    ⟨_, hcall.trans hstep, rfl⟩⟩, rfl, ?_, ?_, ?_⟩
  · dsimp only
    rw [h.wire, encodeRecords_append, List.append_assoc]
  · intro r hr
    exact (List.mem_append.mp hr).elim (h.sent r) (hnew r)
  · rw [List.flatten_append, hflat, h.waiting]

/-! ## The receiver -/

/-- Bytes at hand and bytes to come, seen from a cipher: `body`, and then the records `rs`. -/
def Ahead (cr : Crypto) (T : CipherCtx) (bytes body : Bytes) (rs : List Bytes) : Prop :=
  bytes = crypted cr T body ++ encodeRecords cr (T.advance body.length) rs

/-- Taking `len` bytes of the body. -/
theorem Ahead.take {cr : Crypto} {T : CipherCtx} {got future body : Bytes} {rs : List Bytes}
    (h : Ahead cr T (got ++ future) body rs) {len : ℕ} (hbody : len ≤ body.length)
    (hlen : len ≤ got.length) :
    crypted cr T (got.take len) = body.take len ∧
      Ahead cr (T.advance len) (got.drop len ++ future) (body.drop len) rs := by
  unfold Ahead at h
  have htake : got.take len = (crypted cr T body).take len := by
    have hcut := congrArg (List.take len) h
    rwa [List.take_append_of_le_length hlen,
      List.take_append_of_le_length (by rw [length_crypted]; exact hbody)] at hcut
  have hdrop : got.drop len ++ future
      = (crypted cr T body).drop len ++ encodeRecords cr (T.advance body.length) rs := by
    have hcut := congrArg (List.drop len) h
    rwa [List.drop_append_of_le_length hlen,
      List.drop_append_of_le_length (by rw [length_crypted]; exact hbody)] at hcut
  constructor
  · rw [htake, crypted_take, crypted_crypted]
  · unfold Ahead
    rw [hdrop, crypted_drop cr T body hbody, CipherCtx.advance_advance, List.length_drop,
      show len + (body.length - len) = body.length by omega]

/-- The header of the next record. -/
theorem Ahead.header {cr : Crypto} {T : CipherCtx} {got future : Bytes} {rs : List Bytes}
    (h : Ahead cr T (got ++ future) [] rs) (hlen : 5 ≤ got.length)
    (hsmall : ∀ r ∈ rs, r.length < 2 ^ 16) :
    ∃ r rest, rs = r :: rest ∧ got.take 3 = [0x17, 0x03, 0x03] ∧
      readLength got 3 = r.length ∧ Ahead cr T (got.drop 5 ++ future) r rest := by
  unfold Ahead at h
  rw [crypted_nil, List.nil_append, List.length_nil, CipherCtx.advance_zero] at h
  cases rs with
  | nil =>
    have hnil : got = [] := (List.append_eq_nil_iff.mp h).1
    rw [hnil] at hlen
    exact absurd hlen (by simp)
  | cons r rest =>
    rw [encodeRecords, List.append_assoc] at h
    have hhead : got.take 5 = tlsRecordHeader r.length := by
      have hcut := congrArg (List.take 5) h
      rw [List.take_append_of_le_length hlen,
        List.take_append_of_le_length (by simp [tlsRecordHeader])] at hcut
      exact hcut
    have hrest : got.drop 5 ++ future
        = crypted cr T r ++ encodeRecords cr (T.advance r.length) rest := by
      have hcut := congrArg (List.drop 5) h
      rw [List.drop_append_of_le_length hlen] at hcut
      exact hcut
    have hsplit : got = tlsRecordHeader r.length ++ got.drop 5 := by
      rw [← hhead, List.take_append_drop]
    refine ⟨r, rest, rfl, ?_, ?_, hrest⟩
    · rw [hsplit]
      rfl
    · rw [hsplit]
      exact readLength_header (hsmall r List.mem_cons_self) _

/-- The receiver has taken in `n` bytes of the wire of the records `all`; of the bytes that it
has not decrypted, `body` belongs to the current record, and the records `rs` follow. -/
structure TlsSynced (cr : Crypto) (all : List Bytes) (n : ℕ) (c : Conn) (future body : Bytes)
    (rs : List Bytes) : Prop where
  tls : c.isTls = true
  ahead : ∃ T, c.crypto = some T ∧ Ahead cr T.readAeskey (c.inU ++ future) body rs
  left : c.leftTlsPacketLength = body.length
  small : ∀ r ∈ rs, r.length < 2 ^ 16
  le : c.inU.length ≤ n
  place : ∀ m, recordLeft all (n - c.inU.length + m)
    = if m ≤ body.length then body.length - m else recordLeft rs (m - body.length)

/-- The receiver has nothing more to do with what it has. -/
def TlsSettled (c : Conn) (body : Bytes) : Prop :=
  c.inU = [] ∨ (body = [] ∧ c.inU.length < 5)

/-- What one call leaves of a connection, beyond the input. -/
def OnlyInput (c c' : Conn) : Prop :=
  c' = { c with
    crypto := c'.crypto
    inU := c'.inU
    inp := c'.inp
    leftTlsPacketLength := c'.leftTlsPacketLength }

theorem OnlyInput.refl (c : Conn) : OnlyInput c c := rfl

theorem OnlyInput.trans {c d e : Conn} (h : OnlyInput c d) (h' : OnlyInput d e) :
    OnlyInput c e := by
  unfold OnlyInput at h h' ⊢
  rw [h']
  rw [h]

theorem onlyInput_decryptTo (cr : Crypto) (T : AesCrypto) (len : ℕ) (left : ℤ) (c : Conn) :
    OnlyInput c (decryptTo cr T len { c with leftTlsPacketLength := left }) := rfl

theorem onlyInput_inU (c : Conn) (bytes : Bytes) : OnlyInput c { c with inU := bytes } := rfl

variable {all : List Bytes} {n : ℕ}

/-- **A round** that takes `len` bytes of the current record. -/
theorem TlsSynced.decryptTo {cr : Crypto} {c : Conn} {T : AesCrypto}
    {future body : Bytes} {rs : List Bytes} (h : TlsSynced cr all n c future body rs)
    (hT : c.crypto = some T) {len : ℕ} (hbody : len ≤ body.length) (hlen : len ≤ c.inU.length)
    {left : ℤ} (hleft : left = (body.length - len : ℕ)) :
    TlsSynced cr all n (decryptTo cr T len { c with leftTlsPacketLength := left }) future
        (body.drop len) rs ∧
      (MtprotoProxy.decryptTo cr T len { c with leftTlsPacketLength := left }).inp
        = c.inp ++ body.take len := by
  obtain ⟨T', hT', hahead⟩ := h.ahead
  obtain rfl := Option.some.inj (hT.symm.trans hT')
  obtain ⟨hplain, hahead'⟩ := hahead.take hbody hlen
  have htake : (c.inU.take len).length = len := by rw [List.length_take, min_eq_left hlen]
  constructor
  · refine ⟨h.tls, ⟨_, rfl, ?_⟩, ?_, h.small, ?_, fun m => ?_⟩
    · simp only [MtprotoProxy.decryptTo, evpCrypt_eq, htake]
      exact hahead'
    · simp only [MtprotoProxy.decryptTo, List.length_drop]
      exact hleft
    · have hle := h.le
      simp only [MtprotoProxy.decryptTo, List.length_drop]
      omega
    · have hplace := h.place (len + m)
      have hle := h.le
      simp only [MtprotoProxy.decryptTo, List.length_drop]
      rw [show n - (c.inU.length - len) + m = n - c.inU.length + (len + m) by omega, hplace]
      by_cases hm : len + m ≤ body.length
      · rw [if_pos hm, if_pos (by omega)]
        omega
      · rw [if_neg hm, if_neg (by omega)]
        congr 1
        omega
  · simp only [MtprotoProxy.decryptTo, evpCrypt_eq]
    rw [hplain]

/-- **The header of a record** is taken off. -/
theorem TlsSynced.header {cr : Crypto} {c : Conn} {future : Bytes}
    {rs : List Bytes} (h : TlsSynced cr all n c future [] rs) (hlen : 5 ≤ c.inU.length) :
    ∃ r rest, rs = r :: rest ∧ c.inU.take 3 = [0x17, 0x03, 0x03] ∧
      readLength c.inU 3 = r.length ∧
      TlsSynced cr all n { c with inU := c.inU.drop 5, leftTlsPacketLength := r.length } future r
        rest := by
  obtain ⟨T, hT, hahead⟩ := h.ahead
  obtain ⟨r, rest, rfl, hmagic, hread, hnext⟩ := hahead.header hlen h.small
  refine ⟨r, rest, rfl, hmagic, hread, h.tls, ⟨T, hT, hnext⟩, rfl,
    fun x hx => h.small x (List.mem_cons_of_mem _ hx), ?_, fun m => ?_⟩
  · have hle := h.le
    simp only [List.length_drop]
    omega
  · have hplace := h.place (5 + m)
    have hle := h.le
    simp only [List.length_drop, List.length_nil] at hplace ⊢
    rw [show n - (c.inU.length - 5) + m = n - c.inU.length + (5 + m) by omega, hplace,
      if_neg (by omega), Nat.sub_zero, recordLeft, if_neg (by omega)]
    by_cases hm : m ≤ r.length
    · rw [if_pos hm]
      by_cases hlt : 5 + m < 5 + r.length
      · rw [if_pos hlt]
        omega
      · -- the record ends here
        rw [if_neg hlt, show 5 + m - (5 + r.length) = 0 by omega, show r.length - m = 0 by omega]
        cases rest <;> simp [recordLeft]
    · rw [if_neg hm, if_neg (by omega), show 5 + m - (5 + r.length) = m - r.length by omega]

/-- A receiver between two records, with the records `rs` ahead. -/
theorem TlsSynced.start {cr : Crypto} {c : Conn} {T : AesCrypto} {rs : List Bytes}
    (hT : c.crypto = some T) (htls : c.isTls = true) (hleft : c.leftTlsPacketLength = 0)
    (hinU : c.inU = []) (hsent : SentRecords rs) :
    TlsSynced cr rs 0 c (encodeRecords cr T.readAeskey rs) [] rs := by
  refine ⟨htls, ⟨T, hT, ?_⟩, hleft, ?_, by simp [hinU], fun m => ?_⟩
  · unfold Ahead
    rw [hinU]
    rfl
  · intro r hr
    have hmax := (hsent r hr).2
    unfold maxTlsPacketLength at hmax
    omega
  · rw [hinU, List.length_nil, Nat.zero_sub, Nat.zero_add, Nat.sub_zero]
    split
    · rw [show m = 0 by omega]
      cases rs <;> simp [recordLeft]
    · rfl

/-- **Decrypting the input** of a synced receiver gives the next bytes of the stream, and
leaves it synced: it stops with nothing at hand, or with a part of a header. -/
theorem decryptLoop_tls (cr : Crypto) {future : Bytes} :
    ∀ {fuel : ℕ} {c : Conn} {body : Bytes} {rs : List Bytes}, c.inU.length < fuel →
      TlsSynced cr all n c future body rs →
      ∃ res c' plain body' rs', decryptLoop cr fuel c = some (res, c') ∧ 0 ≤ res ∧
        c'.inp = c.inp ++ plain ∧ body ++ rs.flatten = plain ++ (body' ++ rs'.flatten) ∧
        TlsSynced cr all n c' future body' rs' ∧ TlsSettled c' body' ∧ OnlyInput c c' := by
  intro fuel
  induction fuel with
  | zero => intro c body rs hfuel; omega
  | succ fuel ih =>
    intro c body rs hfuel h
    obtain ⟨T, hT, -⟩ := h.ahead
    rw [decryptLoop, hT]
    dsimp only
    by_cases hnil : c.inU.length = 0
    · rw [if_pos hnil]
      exact ⟨0, c, [], body, rs, rfl, le_rfl, (List.append_nil _).symm, rfl, h,
        Or.inl (List.length_eq_zero_iff.mp hnil), OnlyInput.refl c⟩
    rw [if_neg hnil, if_pos h.tls, if_neg (by rw [h.left]; omega)]
    -- a round that takes `len` bytes of the body, on a connection `d` past the header
    have round : ∀ {d : Conn} {body₁ : Bytes} {rs₁ : List Bytes} {len : ℕ} {left : ℤ},
        TlsSynced cr all n d future body₁ rs₁ → d.crypto = some T → OnlyInput c d →
        d.inp = c.inp → len ≤ body₁.length → len ≤ d.inU.length →
        left = (body₁.length - len : ℕ) → d.inU.length - len < fuel →
        body ++ rs.flatten = body₁ ++ rs₁.flatten →
        ∃ res c' plain body' rs',
          decryptLoop cr fuel (decryptTo cr T len { d with leftTlsPacketLength := left })
            = some (res, c') ∧ 0 ≤ res ∧
          c'.inp = c.inp ++ plain ∧ body ++ rs.flatten = plain ++ (body' ++ rs'.flatten) ∧
          TlsSynced cr all n c' future body' rs' ∧ TlsSettled c' body' ∧ OnlyInput c c' := by
      intro d body₁ rs₁ len left hd hdT honly hinp hbody hlen hleft hmeasure hstream
      obtain ⟨hnext, hinp'⟩ := hd.decryptTo hdT hbody hlen hleft
      obtain ⟨res, c', plain, body', rs', hrun, hres, hout, hsplit, hend, hsettled, honly'⟩ :=
        ih (by simp only [decryptTo, List.length_drop]; exact hmeasure) hnext
      refine ⟨res, c', body₁.take len ++ plain, body', rs', hrun, hres, ?_, ?_, hend, hsettled, ?_⟩
      · rw [hout, hinp', hinp, List.append_assoc]
      · calc body ++ rs.flatten
            = body₁.take len ++ (body₁.drop len ++ rs₁.flatten) := by
              rw [← List.append_assoc, List.take_append_drop, hstream]
          _ = body₁.take len ++ plain ++ (body' ++ rs'.flatten) := by
              rw [hsplit, List.append_assoc]
      · exact honly.trans ((onlyInput_decryptTo cr T len left d).trans honly')
    by_cases hzero : c.leftTlsPacketLength = 0
    · rw [if_pos hzero]
      have hbody : body = [] := by
        rw [h.left] at hzero
        exact List.length_eq_zero_iff.mp (by omega)
      subst hbody
      by_cases hshort : c.inU.length < 5
      · rw [if_pos hshort]
        exact ⟨_, c, [], [], rs, rfl, by omega, (List.append_nil _).symm, rfl, h,
          Or.inr ⟨rfl, hshort⟩, OnlyInput.refl c⟩
      rw [if_neg hshort]
      obtain ⟨r, rest, rfl, hmagic, hread, hnext⟩ := h.header (not_lt.mp hshort)
      rw [if_neg (not_not.mpr hmagic), hread]
      refine round hnext hT rfl rfl (min_le_left _ _) ?_ rfl ?_ (by simp)
      · rw [List.length_drop]
        exact min_le_right _ _
      · rw [List.length_drop]
        omega
    · rw [if_neg hzero]
      have hleft := h.left
      refine round h hT (OnlyInput.refl c) rfl (by omega) (by omega) (by omega) ?_ rfl
      omega

/-- **One read.** -/
theorem readerTake_tls {cr : Crypto} {c : Conn}
    {chunk future body : Bytes} {rs : List Bytes}
    (h : TlsSynced cr all n c (chunk ++ future) body rs) :
    ∃ c' plain body' rs', readerTake cr chunk c = some c' ∧ c'.inp = c.inp ++ plain ∧
      body ++ rs.flatten = plain ++ (body' ++ rs'.flatten) ∧
      TlsSynced cr all (n + chunk.length) c' future body' rs' ∧ TlsSettled c' body' ∧
      OnlyInput c c' := by
  obtain ⟨T, hT, hahead⟩ := h.ahead
  have hle := h.le
  have hnext : TlsSynced cr all (n + chunk.length) { c with inU := c.inU ++ chunk } future body rs := by
    refine ⟨h.tls, ⟨T, hT, ?_⟩, h.left, h.small, ?_, fun m => ?_⟩
    · rwa [List.append_assoc]
    · simp only [List.length_append]
      omega
    · rw [List.length_append, show n + chunk.length - (c.inU.length + chunk.length)
        = n - c.inU.length by omega]
      exact h.place m
  obtain ⟨res, c', plain, body', rs', hrun, hres, hinp, hsplit, hend, hsettled, honly⟩ :=
    decryptLoop_tls cr (Nat.lt_succ_self _) hnext
  refine ⟨c', plain, body', rs', ?_, hinp, hsplit, hend, hsettled,
    (onlyInput_inU c _).trans honly⟩
  have hcall : cryptoDecryptInput cr { c with inU := c.inU ++ chunk } = some (res, c') := by
    rw [cryptoDecryptInput_eq cr (by simp [hT])]
    exact hrun
  unfold readerTake
  rw [hT]
  rw [hT] at hcall
  simp only [hcall, some_bind, if_neg (not_lt.mpr hres)]

/-! ## Runs of the receiver -/

/-- The reads of a connection, one after the other: what comes is put into `c->in_u` and
decrypted. -/
def receive (cr : Crypto) : List Bytes → Conn → Option Conn
  | [], c => some c
  | chunk :: chunks, c => (readerTake cr chunk c).bind (receive cr chunks)

/-- **Any cutting.** -/
theorem receive_tls (cr : Crypto) {all : List Bytes} {future : Bytes} :
    ∀ {chunks : List Bytes} {n : ℕ} {c : Conn} {body : Bytes} {rs : List Bytes},
      TlsSynced cr all n c (chunks.flatten ++ future) body rs → TlsSettled c body →
      ∃ c' plain body' rs', receive cr chunks c = some c' ∧ c'.inp = c.inp ++ plain ∧
        body ++ rs.flatten = plain ++ (body' ++ rs'.flatten) ∧
        TlsSynced cr all (n + chunks.flatten.length) c' future body' rs' ∧
        TlsSettled c' body' ∧ OnlyInput c c' := by
  intro chunks
  induction chunks with
  | nil =>
    intro n c body rs h hsettled
    exact ⟨c, [], body, rs, rfl, (List.append_nil _).symm, rfl, h, hsettled, OnlyInput.refl c⟩
  | cons chunk chunks ih =>
    intro n c body rs h _
    rw [List.flatten_cons, List.append_assoc] at h
    obtain ⟨c₁, plain₁, body₁, rs₁, hread, hinp₁, hsplit₁, h₁, hsettled₁, honly₁⟩ :=
      readerTake_tls h
    obtain ⟨c', plain, body', rs', hrest, hinp, hsplit, hend, hsettled, honly⟩ := ih h₁ hsettled₁
    refine ⟨c', plain₁ ++ plain, body', rs', ?_, ?_, ?_, ?_, hsettled, honly₁.trans honly⟩
    · rw [receive, hread]
      exact hrest
    · rw [hinp, hinp₁, List.append_assoc]
    · rw [hsplit₁, hsplit, List.append_assoc]
    · rwa [List.flatten_cons, List.length_append, ← Nat.add_assoc]

/-- `left_tls_packet_length` of a settled receiver. -/
theorem TlsSynced.left_eq {cr : Crypto} {c : Conn}
    {future body : Bytes} {rs : List Bytes} (h : TlsSynced cr all n c future body rs)
    (hsettled : TlsSettled c body) : c.leftTlsPacketLength = (recordLeft all n : ℕ) := by
  have hle := h.le
  rw [h.left]
  rcases hsettled with hnil | ⟨hbody, hshort⟩
  · have hplace := h.place 0
    rw [hnil] at hplace
    simp only [List.length_nil, Nat.sub_zero, Nat.add_zero, zero_le, if_true] at hplace
    rw [hplace]
  · -- inside a header no byte of a record is outstanding
    have hplace := h.place c.inU.length
    rw [show n - c.inU.length + c.inU.length = n by omega, hbody, List.length_nil, Nat.sub_zero]
      at hplace
    rw [hplace, hbody]
    split
    · simp
    · cases rs with
      | nil => rfl
      | cons r rest => rw [recordLeft, if_pos hshort]; rfl

/-- A settled receiver to whom nothing more comes has everything. -/
theorem TlsSynced.complete {cr : Crypto} {c : Conn} {body : Bytes}
    {rs : List Bytes} (h : TlsSynced cr all n c [] body rs) (hsettled : TlsSettled c body) :
    body = [] ∧ rs = [] ∧ c.inU = [] ∧ c.leftTlsPacketLength = 0 := by
  obtain ⟨T, -, hahead⟩ := h.ahead
  unfold Ahead at hahead
  rw [List.append_nil] at hahead
  have hlen := congrArg List.length hahead
  rw [List.length_append, length_crypted] at hlen
  have hbody : body = [] := by
    rcases hsettled with hnil | ⟨hbody, -⟩
    · rw [hnil, List.length_nil] at hlen
      exact List.length_eq_zero_iff.mp (by omega)
    · exact hbody
  have hrs : rs = [] := by
    cases rs with
    | nil => rfl
    | cons r rest =>
      have hfive : 5 ≤ (encodeRecords cr (T.readAeskey.advance body.length) (r :: rest)).length := by
        simp only [encodeRecords, List.length_append, tlsRecordHeader, List.length_cons,
          List.length_nil]
        omega
      rcases hsettled with hnil | ⟨-, hshort⟩
      · rw [hnil, List.length_nil] at hlen
        omega
      · omega
  have hinU : c.inU = [] := by
    rw [hbody, hrs] at hahead
    exact hahead
  exact ⟨hbody, hrs, hinU, by rw [h.left, hbody]; rfl⟩

/-! ## The round trip -/

/-- The output side `o` of one end and the connection `c` at the other end, in fake TLS and
between two records: the write key of the one is the read key of the other, at the same place
of the key stream. -/
structure TlsPair (T : AesCrypto) (o : OutConn) (c : Conn) : Prop where
  sender : o.crypto = some T
  senderTls : o.isTls = true
  senderLeft : 0 ≤ o.leftTlsPacketLength
  out : o.out = []
  receiver : ∃ S, c.crypto = some S ∧ S.readAeskey = T.writeAeskey
  receiverTls : c.isTls = true
  receiverLeft : c.leftTlsPacketLength = 0
  inU : c.inU = []

/-- **The TLS record layer.**  Whatever is pushed to the output in any pieces is cut into
records, and wherever the wire cuts these into reads: the receiver has a front part of what
was pushed, and in `left_tls_packet_length` the number of bytes that are missing of the record
it is in; when all has arrived it has all that was pushed, and nothing is left over. -/
theorem tls_round_trip (cr : Crypto) {T : AesCrypto} {o : OutConn} {c : Conn}
    (h : TlsPair T o c) (es : List OutEvent) :
    ∃ rs o', Runs.run (OutConn.step cr) o (es ++ [.encrypt]) = some o' ∧ o'.out = [] ∧
      o'.outP = o.outP ++ encodeRecords cr T.writeAeskey rs ∧ SentRecords rs ∧
      rs.flatten = pushed es ∧
      ∀ (chunks : List Bytes) (future : Bytes),
        chunks.flatten ++ future = encodeRecords cr T.writeAeskey rs →
        ∃ c' plain, receive cr chunks c = some c' ∧ c'.inp = c.inp ++ plain ∧
          plain <+: pushed es ∧ c'.leftTlsPacketLength = recordLeft rs chunks.flatten.length ∧
          OnlyInput c c' ∧
          (future = [] → plain = pushed es ∧ c'.inU = [] ∧ c'.leftTlsPacketLength = 0) := by
  obtain ⟨rs, o', hrun, hout, houtP, hsent, hstream⟩ :=
    sent_tls cr h.sender h.senderTls h.senderLeft h.out es
  refine ⟨rs, o', hrun, hout, houtP, hsent, hstream, ?_⟩
  intro chunks future hwire
  obtain ⟨S, hS, hkeys⟩ := h.receiver
  have hstart : TlsSynced cr rs 0 c (chunks.flatten ++ future) [] rs := by
    rw [hwire, ← hkeys]
    exact .start hS h.receiverTls h.receiverLeft h.inU hsent
  obtain ⟨c', plain, body', rs', hreceive, hinp, hsplit, hend, hsettled, honly⟩ :=
    receive_tls cr hstart (Or.inl h.inU)
  rw [List.nil_append, hstream] at hsplit
  rw [Nat.zero_add] at hend
  refine ⟨c', plain, hreceive, hinp, ⟨_, hsplit.symm⟩, hend.left_eq hsettled, honly, ?_⟩
  rintro rfl
  obtain ⟨rfl, rfl, hinU, hleft⟩ := hend.complete hsettled
  rw [List.flatten_nil, List.append_nil, List.append_nil] at hsplit
  exact ⟨hsplit.symm, hinU, hleft⟩

/-- A key stream that counts. -/
def Crypto.counting : Crypto := ⟨fun _ => [], fun _ _ => [], fun _ _ pos => UInt8.ofNat pos⟩

/-- One cipher for both directions. -/
def AesCrypto.counting : AesCrypto := aesCryptoCtr128Init ⟨[], [], [], []⟩

/-- An output side at the start of a record. -/
def OutConn.sample : OutConn :=
  ⟨true, 0, ⟨true, true, false, false, true⟩, 0, .crc32, some AesCrypto.counting, [], []⟩

/-- An input side at the start of a record. -/
def Conn.betweenRecords : Conn :=
  { Conn.accepted 443 ⟨0, List.replicate 16 0, none⟩ with
    isTls := true
    crypto := some AesCrypto.counting }

theorem tlsPair_sample : TlsPair AesCrypto.counting OutConn.sample Conn.betweenRecords where
  sender := rfl
  senderTls := rfl
  senderLeft := le_rfl
  out := rfl
  receiver := ⟨AesCrypto.counting, rfl, rfl⟩
  receiverTls := rfl
  receiverLeft := rfl
  inU := rfl

/-- Two pieces are pushed, and read one byte at a time. -/
theorem tls_round_trip_sample :
    ∃ (rs : List Bytes) (o' : OutConn), Runs.run (OutConn.step Crypto.counting) OutConn.sample
        [.push [1, 2], .encrypt, .push [3], .encrypt] = some o' ∧
      ∃ c', receive Crypto.counting (o'.outP.map (fun b => [b])) Conn.betweenRecords = some c' ∧
        c'.inp = [1, 2, 3] ∧ rs.flatten = [1, 2, 3] := by
  obtain ⟨rs, o', hrun, -, hwire, -, hflat, hread⟩ :=
    tls_round_trip Crypto.counting tlsPair_sample [.push [1, 2], .encrypt, .push [3]]
  have hbytes : (o'.outP.map (fun b => [b])).flatten ++ []
      = encodeRecords Crypto.counting AesCrypto.counting.writeAeskey rs := by
    rw [List.append_nil, ← List.flatMap_def, List.flatMap_singleton', hwire]
    rfl
  obtain ⟨c', plain, hreceive, hinp, -, -, -, hall⟩ := hread _ [] hbytes
  obtain ⟨hplain, -, -⟩ := hall rfl
  refine ⟨rs, o', hrun, c', hreceive, ?_, hflat⟩
  rw [hinp, hplain]
  rfl

end MtprotoProxy
