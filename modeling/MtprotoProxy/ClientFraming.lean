/-
# The framing of client packets

`tcp_rpc_write_packet_compact` of `net/net-tcp-rpc-common.c` against the packet loop of
`tcp_rpcs_compact_parse_execute`, in the three modes that a header can open.  Between the two
stands the cipher of the connection, with or without TLS records.

A frame is a length and a body.  The reader looks ahead: it waits for eight bytes beyond the
shortest length word before it reads one, so a frame that is shorter would hold it up.
`Flows` says which packets are on their way, `Waiting` what the reader is like between two
calls: at the start of a frame, or waiting for a number of bytes that the frame has.
-/
import MtprotoProxy.PacketLoop
import MtprotoProxy.TlsRecords

namespace MtprotoProxy

open CLib

/-! ## Writing packets -/

/-- The checksums of `common/crc32.c` and `common/crc32c.c`. -/
structure Checksums where
  crc32 : Bytes → UInt32
  crc32c : Bytes → UInt32

/-- `rwm_custom_crc32`. -/
def rwmCustomCrc32 (k : Checksums) : CrcPartial → Bytes → UInt32
  | .crc32, raw => k.crc32 raw
  | .crc32c, raw => k.crc32c raw

/-- The four bytes of an `int`. -/
def intBytes (x : ℤ) : Bytes := leBytes 4 (x % 2 ^ 32).toNat

/-- `tcp_rpc_write_packet`. -/
def tcpRpcWritePacket (k : Checksums) (raw : Bytes) (o : OutConn) : OutConn :=
  if o.rpcFlags.compact ∨ o.rpcFlags.medium then o
  else
    let framed := intBytes (raw.length + 12) ++ intBytes o.outPacketNum ++ raw
    let crc32 := rwmCustomCrc32 k o.customCrcPartial framed
    { o with
      outPacketNum := wrap32 (o.outPacketNum + 1)
      out := o.out ++ (framed ++ leBytes 4 crc32.toNat) }

/-- The two random numbers of one call. -/
structure PadRandom where
  x : ℕ
  y : ℕ

/-- The padding that they give. -/
def padBytes (r : PadRandom) : Bytes := (leBytes 4 r.x).take (r.y &&& 3)

/-- The length in front of a packet, of one byte or four. -/
def lengthPrefix (medium : Bool) (len : ℕ) : Bytes :=
  if medium then leBytes 4 len
  else if len ≤ 0x7e * 4 then leBytes 1 (len >>> 2)
  else leBytes 4 ((len <<< 6) ||| 0x7f)

/-- `tcp_rpc_write_packet_compact`; a failed assertion is `none`. -/
def tcpRpcWritePacketCompact (k : Checksums) (r : PadRandom) (raw : Bytes) (o : OutConn) :
    Option OutConn :=
  if raw.length = 5 then
    if byteAt raw 0 = 0xdd then some { o with out := o.out ++ raw.drop 1 } else none
  else if o.isTls ∧ o.leftTlsPacketLength = -1 then some { o with out := o.out ++ raw }
  else if ¬ (o.rpcFlags.compact ∨ o.rpcFlags.medium) then some (tcpRpcWritePacket k raw o)
  else
    let body := if o.rpcFlags.pad then raw ++ padBytes r else raw
    -- `len & 0xfc000000`
    if 2 ^ 26 ≤ body.length then none
    else if o.rpcFlags.pad = false ∧ body.length % 4 ≠ 0 then none
    else some { o with out := o.out ++ (lengthPrefix o.rpcFlags.medium body.length ++ body) }

/-- What happens at the output side: a packet is written, or the output is encrypted. -/
inductive WriteEvent where
  | packet (r : PadRandom) (payload : Bytes)
  | encrypt

/-- One event at the output side. -/
def OutConn.writeStep (cr : Crypto) (k : Checksums) (o : OutConn) : WriteEvent → Option OutConn
  | .packet r payload => tcpRpcWritePacketCompact k r payload o
  | .encrypt => cryptoEncryptOutput cr o

/-- The packets that are written, with the random numbers of their padding. -/
def packets : List WriteEvent → List (PadRandom × Bytes)
  | [] => []
  | .packet r payload :: es => (r, payload) :: packets es
  | .encrypt :: es => packets es

/-! ## The modes -/

/-- The modes that a header can open. -/
inductive Mode where
  | compact
  | medium
  | padded
  deriving DecidableEq

/-- The flags of a mode. -/
def Mode.Has (f : RpcFlags) : Mode → Prop
  | .compact => f.compact = true ∧ f.medium = false ∧ f.pad = false
  | .medium => f.medium = true ∧ f.pad = false
  | .padded => f.medium = true ∧ f.pad = true

/-- The length word of the mode has always four bytes. -/
def Mode.isMedium : Mode → Bool
  | .compact => false
  | _ => true

/-- The body of a frame. -/
def Mode.body (m : Mode) (r : PadRandom) (payload : Bytes) : Bytes :=
  if m = .padded then payload ++ padBytes r else payload

/-- The frame of a packet. -/
def Mode.frame (m : Mode) (r : PadRandom) (payload : Bytes) : Bytes :=
  lengthPrefix m.isMedium (m.body r payload).length ++ m.body r payload

/-- A packet that the reader takes: its length is a multiple of four, at least eight and below
`2^25`, and it fits `max_packet_len` with its padding. -/
structure Mode.Fits (cfg : ExtConfig) (m : Mode) (payload : Bytes) : Prop where
  four : payload.length % 4 = 0
  eight : 8 ≤ payload.length
  small : payload.length < 2 ^ 25
  max : 0 < cfg.maxPacketLen →
    (payload.length : ℤ) + (if m = .padded then 3 else 0) ≤ cfg.maxPacketLen

theorem length_padBytes (r : PadRandom) : (padBytes r).length ≤ 3 := by
  have hand : r.y &&& 3 ≤ 3 := Nat.and_le_right
  unfold padBytes
  rw [List.length_take]
  omega

theorem length_body {m : Mode} {r : PadRandom} {payload : Bytes} :
    payload.length ≤ (m.body r payload).length ∧
      (m.body r payload).length ≤ payload.length + (if m = .padded then 3 else 0) ∧
      (m ≠ .padded → m.body r payload = payload) := by
  unfold Mode.body
  have hpad := length_padBytes r
  split
  · rw [List.length_append]
    exact ⟨by omega, by omega, fun h => absurd ‹_› h⟩
  · exact ⟨le_rfl, by omega, fun _ => rfl⟩

/-- The flags in terms of the mode. -/
theorem Mode.Has.flags {f : RpcFlags} {m : Mode} (h : m.Has f) :
    f.medium = m.isMedium ∧ (f.pad = true ↔ m = .padded) ∧ (f.compact = true ∨ f.medium = true) := by
  cases m with
  | compact => exact ⟨h.2.1, by simp [h.2.2], Or.inl h.1⟩
  | medium => exact ⟨h.1, by simp [h.2], Or.inr h.1⟩
  | padded => exact ⟨h.1, by simp [h.2], Or.inr h.1⟩

variable {cfg : ExtConfig} {m : Mode}

/-- **Writing a packet** appends its frame to the output. -/
theorem writePacketCompact_eq (k : Checksums) (r : PadRandom)
    {payload : Bytes} {o : OutConn} (hfits : m.Fits cfg payload) (hmode : m.Has o.rpcFlags)
    (hleft : o.isTls = true → 0 ≤ o.leftTlsPacketLength) :
    tcpRpcWritePacketCompact k r payload o
      = some { o with out := o.out ++ m.frame r payload } := by
  obtain ⟨hmedium, hpad, hframed⟩ := hmode.flags
  obtain ⟨hlo, hhi, hbody⟩ := @length_body m r payload
  have hfour := hfits.four
  have hsmall := hfits.small
  have hsame : (if o.rpcFlags.pad then payload ++ padBytes r else payload) = m.body r payload := by
    unfold Mode.body
    by_cases hm : m = .padded
    · rw [if_pos (hpad.mpr hm), if_pos hm]
    · rw [if_neg (fun h => hm (hpad.mp h)), if_neg hm]
  unfold tcpRpcWritePacketCompact
  rw [if_neg (by omega), if_neg (fun h => by have := hleft h.1; omega),
    if_neg (not_not.mpr hframed), hsame]
  dsimp only
  rw [if_neg (by split at hhi <;> omega), if_neg]
  · rw [hmedium, Mode.frame]
  · rintro ⟨hp, hlen⟩
    have hm : m ≠ .padded := fun h => by rw [hpad.mpr h] at hp; exact absurd hp (by decide)
    rw [hbody hm] at hlen
    exact hlen hfour

/-! ## Reading a length -/

/-- The first four bytes of a frame give back its length. -/
theorem packetLength_prefix {f : RpcFlags} {len : ℕ} (hfour : f.medium = false → len % 4 = 0)
    (hsmall : len < 2 ^ 26) {rest : Bytes} :
    packetLength f (le32 (lengthPrefix f.medium len ++ rest))
      = some (false, len, (lengthPrefix f.medium len).length) := by
  unfold packetLength lengthPrefix
  cases hm : f.medium with
  | true =>
    simp only [if_true, length_leBytes]
    rw [le32_leBytes (by omega), Nat.testBit_lt_two_pow (by omega), Nat.mod_eq_of_lt (by omega)]
  | false =>
    have h4 := hfour hm
    simp only [Bool.false_eq_true, if_false]
    by_cases hone : len ≤ 0x7e * 4
    · rw [if_pos hone]
      -- the low byte of the word is the number of four-byte words
      set word := le32 (leBytes 1 (len >>> 2) ++ rest) with hword
      have hlow : word % 2 ^ 8 = len / 4 := by
        have hb : (UInt8.ofNat (len / 4)).toNat = len / 4 := by
          rw [UInt8.toNat_ofNat']
          omega
        rw [hword, Nat.shiftRight_eq_div_pow]
        show ((UInt8.ofNat (len / 4)).toNat + 256 * _) % 2 ^ 8 = len / 4
        rw [hb]
        omega
      have hbit : word.testBit 7 = false := by
        rw [Nat.testBit_eq_decide_div_mod_eq]
        simp only [decide_eq_false_iff_not]
        omega
      rw [hbit]
      simp only [Bool.false_eq_true, if_false, length_leBytes]
      rw [if_neg (by omega)]
      have hlen : word % 2 ^ 7 * 4 = len := by omega
      rw [hlen]
    · rw [if_neg hone]
      have hor : (len <<< 6) ||| 0x7f = len * 64 + 0x7f := by
        have hq : len <<< 6 = (len / 4) <<< 8 := by
          rw [Nat.shiftLeft_eq, Nat.shiftLeft_eq]
          omega
        rw [hq, ← Nat.shiftLeft_add_eq_or_of_lt (by norm_num : 0x7f < 2 ^ 8), Nat.shiftLeft_eq]
        omega
      rw [hor, le32_leBytes (by omega)]
      have hbit : (len * 64 + 0x7f).testBit 7 = false := by
        rw [Nat.testBit_eq_decide_div_mod_eq]
        simp only [decide_eq_false_iff_not]
        omega
      rw [hbit]
      simp only [Bool.false_eq_true, if_false, length_leBytes]
      rw [if_pos (by omega), if_neg (by omega)]
      have hlen : (len * 64 + 0x7f) / 2 ^ 8 * 4 = len := by omega
      rw [hlen]

/-! ## What comes through the cipher -/

/-- The bytes `future` are still on the wire to `c`, and with what is at hand they stand for the
bytes `stream` of the sender. -/
def Feed (cr : Crypto) (c : Conn) (future stream : Bytes) : Prop :=
  (c.isTls = false ∧ c.inU = [] ∧
    ∃ T, c.crypto = some T ∧ future = crypted cr T.readAeskey stream) ∨
  ∃ all n body rs, TlsSynced cr all n c future body rs ∧ TlsSettled c body ∧
    stream = body ++ rs.flatten

theorem Feed.crypto {cr : Crypto} {c : Conn} {future stream : Bytes}
    (h : Feed cr c future stream) : c.crypto.isSome = true := by
  rcases h with ⟨-, -, T, hT, -⟩ | ⟨all, n, body, rs, hsync, -⟩
  · rw [hT]
    rfl
  · obtain ⟨T, hT, -⟩ := hsync.ahead
    rw [hT]
    rfl

/-- Only the cipher and the bytes before it matter. -/
theorem Feed.congr {cr : Crypto} {c c' : Conn} {future stream : Bytes}
    (h : Feed cr c future stream) (htls : c'.isTls = c.isTls) (hinU : c'.inU = c.inU)
    (hcrypto : c'.crypto = c.crypto) (hleft : c'.leftTlsPacketLength = c.leftTlsPacketLength) :
    Feed cr c' future stream := by
  rcases h with ⟨hplain, hnil, T, hT, hwire⟩ | ⟨all, n, body, rs, hsync, hsettled, hstream⟩
  · exact Or.inl ⟨htls.trans hplain, hinU.trans hnil, T, hcrypto.trans hT, hwire⟩
  · obtain ⟨T, hT, hahead⟩ := hsync.ahead
    refine Or.inr ⟨all, n, body, rs, ⟨htls.trans hsync.tls, ⟨T, hcrypto.trans hT, ?_⟩,
      hleft.trans hsync.left, hsync.small, ?_, fun m => ?_⟩, ?_, hstream⟩
    · rw [hinU]
      exact hahead
    · rw [hinU]
      exact hsync.le
    · rw [hinU]
      exact hsync.place m
    · unfold TlsSettled
      rw [hinU]
      exact hsettled

/-- When nothing is on the wire, nothing is missing. -/
theorem Feed.complete {cr : Crypto} {c : Conn} {stream : Bytes} (h : Feed cr c [] stream) :
    stream = [] := by
  rcases h with ⟨-, -, T, -, hwire⟩ | ⟨all, n, body, rs, hsync, hsettled, hstream⟩
  · have hlen := congrArg List.length hwire
    rw [length_crypted] at hlen
    exact List.length_eq_zero_iff.mp hlen.symm
  · obtain ⟨rfl, rfl, -, -⟩ := hsync.complete hsettled
    exact hstream

/-- Without input there is nothing to decrypt. -/
theorem decryptLoop_nil (cr : Crypto) {fuel : ℕ} {c : Conn} {T : AesCrypto}
    (hT : c.crypto = some T) (hinU : c.inU = []) : decryptLoop cr fuel c = some (0, c) := by
  cases fuel with
  | zero => rfl
  | succ fuel =>
    rw [decryptLoop, hT]
    exact if_pos (by rw [hinU]; rfl)

/-- Decrypting without TLS: all of the input at once. -/
theorem readerTake_plain (cr : Crypto) {c : Conn} {T : AesCrypto} (hT : c.crypto = some T)
    (htls : c.isTls = false) (hinU : c.inU = []) (chunk : Bytes) :
    ∃ c', readerTake cr chunk c = some c' ∧ c'.inp = c.inp ++ crypted cr T.readAeskey chunk ∧
      c'.inU = [] ∧ c'.crypto = some { T with readAeskey := T.readAeskey.advance chunk.length } ∧
      OnlyInput c c' := by
  set d : Conn := { c with inU := c.inU ++ chunk } with hd
  have hdU : d.inU = chunk := by rw [hd, hinU, List.nil_append]
  have hrun : ∃ c', decryptLoop cr (d.inU.length + 1) d = some (0, c') ∧
      c'.inp = c.inp ++ crypted cr T.readAeskey chunk ∧ c'.inU = [] ∧
      c'.crypto = some { T with readAeskey := T.readAeskey.advance chunk.length } ∧
      OnlyInput c c' := by
    by_cases hnil : chunk = []
    · subst hnil
      rw [decryptLoop_nil cr (c := d) hT hdU]
      refine ⟨d, rfl, ?_, hdU, hT, onlyInput_inU c _⟩
      simp [hd]
    · have hloop : decryptLoop cr (d.inU.length + 1) d
          = decryptLoop cr d.inU.length (decryptTo cr T d.inU.length d) := by
        rw [decryptLoop, show d.crypto = some T from hT]
        dsimp only
        rw [if_neg (by rw [hdU]; exact fun h => hnil (List.length_eq_zero_iff.mp h)),
          if_neg (by rw [show d.isTls = false from htls]; decide)]
      -- the second round finds nothing
      have hrest : (decryptTo cr T d.inU.length d).inU = [] := List.drop_length
      rw [hloop, decryptLoop_nil cr rfl hrest]
      refine ⟨_, rfl, ?_, hrest, ?_, rfl⟩
      · simp only [decryptTo, evpCrypt_eq, List.take_length, hdU]
        rfl
      · simp only [decryptTo, evpCrypt_eq, List.take_length, hdU]
  obtain ⟨c', hcall, hrest⟩ := hrun
  refine ⟨c', ?_, hrest⟩
  have hinput : cryptoDecryptInput cr { c with inU := c.inU ++ chunk } = some (0, c') := by
    rw [cryptoDecryptInput_eq cr (by simp [hT])]
    exact hcall
  unfold readerTake
  rw [hT] at hinput ⊢
  simp only [hinput, some_bind]
  rfl

/-- **One read**: a front part of the stream arrives in `c->in`. -/
theorem Feed.read {cr : Crypto} {c : Conn} {chunk future stream : Bytes}
    (h : Feed cr c (chunk ++ future) stream) :
    ∃ c' plain rest, readerTake cr chunk c = some c' ∧ c'.inp = c.inp ++ plain ∧
      stream = plain ++ rest ∧ Feed cr c' future rest ∧ OnlyInput c c' := by
  rcases h with ⟨htls, hinU, T, hT, hwire⟩ | ⟨all, n, body, rs, hsync, -, rfl⟩
  · obtain ⟨c', hread, hinp, hinU', hcrypto, honly⟩ := 
      readerTake_plain cr hT htls hinU chunk
    have hchunk : chunk = crypted cr T.readAeskey (stream.take chunk.length) := by
      rw [← crypted_take, ← hwire, List.take_left]
    have hlen : chunk.length ≤ stream.length := by
      have hall := congrArg List.length hwire
      rw [List.length_append, length_crypted] at hall
      omega
    refine ⟨c', stream.take chunk.length, stream.drop chunk.length, hread, ?_,
      (List.take_append_drop _ _).symm, Or.inl ⟨?_, hinU', _, hcrypto, ?_⟩, honly⟩
    · have hplain : crypted cr T.readAeskey chunk = stream.take chunk.length := by
        conv_lhs => rw [hchunk]
        exact crypted_crypted cr _ _
      rw [hinp, hplain]
    · unfold OnlyInput at honly
      rw [honly]
      exact htls
    · rw [← crypted_drop cr T.readAeskey stream hlen, ← hwire, List.drop_left]
  · obtain ⟨c', plain, body', rs', hread, hinp, hsplit, hend, hsettled, honly⟩ :=
      readerTake_tls hsync
    exact ⟨c', plain, body' ++ rs'.flatten, hread, hinp, hsplit,
      Or.inr ⟨all, _, body', rs', hend, hsettled, rfl⟩, honly⟩

/-! ## One packet -/

/-- The packets on the wire, with the random numbers of their padding. -/
def framesOf (m : Mode) (ps : List (PadRandom × Bytes)) : Bytes :=
  (ps.map (fun p => m.frame p.1 p.2)).flatten

/-- The flags that a packet without the quick-ack bit comes with. -/
def plainFlags (c : Conn) : RpcFlags := { c.rpcFlags with quickack := false }

/-- The answer to a ping. -/
def pongOf (msg : Bytes) : Bytes := rpcPongBytes ++ msg.drop 4

/-- `c'` is `c` after the packets `msgs`: pings are answered if they have twelve bytes, the
other packets are given to `execute`, without the quick-ack flag. -/
structure Served (c c' : Conn) (msgs : List Bytes) : Prop where
  flags : plainFlags c' = plainFlags c
  executed : c'.executed = c.executed ++
    (msgs.filter (fun p => le32 p ≠ rpcPing)).map (fun p => (plainFlags c, p))
  outQueue : c'.outQueue = c.outQueue ++
    (msgs.filter (fun p => le32 p = rpcPing ∧ p.length = 12)).map pongOf

theorem Served.nothing {c c' : Conn} (hflags : plainFlags c' = plainFlags c)
    (hexecuted : c'.executed = c.executed) (hout : c'.outQueue = c.outQueue) : Served c c' [] where
  flags := hflags
  executed := by simp [hexecuted]
  outQueue := by simp [hout]

theorem Served.trans {c₁ c₂ c₃ : Conn} {msgs msgs' : List Bytes} (h : Served c₁ c₂ msgs)
    (h' : Served c₂ c₃ msgs') : Served c₁ c₃ (msgs ++ msgs') where
  flags := h'.flags.trans h.flags
  executed := by
    rw [h'.executed, h.executed, h.flags, List.filter_append, List.map_append, List.append_assoc]
  outQueue := by
    rw [h'.outQueue, h.outQueue, List.filter_append, List.map_append, List.append_assoc]

/-- Executing a packet: what changes, when `execute` does not fail the connection. -/
theorem executePacket_eq {w : World} (hw : w.executeFails = false) (msg : Bytes) (c : Conn) :
    executePacket w msg c = { c with
      executed := c.executed ++ (if le32 msg ≠ rpcPing then [(c.rpcFlags, msg)] else [])
      outQueue := c.outQueue ++
        (if le32 msg = rpcPing ∧ msg.length = 12 then [pongOf msg] else []) } := by
  unfold executePacket
  by_cases hping : le32 msg = rpcPing
  · rw [if_pos hping, if_neg (not_not.mpr hping)]
    by_cases hlen : msg.length = 12
    · rw [if_pos hlen, if_pos ⟨hping, hlen⟩, List.append_nil]
      rfl
    · rw [if_neg hlen, if_neg (fun h => hlen h.2), List.append_nil, List.append_nil]
  · have hno : ¬ (le32 msg = rpcPing ∧ msg.length = 12) := fun h => hping h.1
    rw [if_neg hping, if_pos hping, if_neg hno, List.append_nil, hw]
    rfl

/-- The frame of a packet is as long as the look-ahead of the reader, at least. -/
theorem length_frame {r : PadRandom} {payload : Bytes}
    (hfits : m.Fits cfg payload) :
    (if m.isMedium then 4 else 1) + 8 ≤ (m.frame r payload).length ∧
      (m.frame r payload).length < 2 ^ 26 + 4 ∧
      (m.frame r payload).length = (lengthPrefix m.isMedium (m.body r payload).length).length
        + (m.body r payload).length := by
  obtain ⟨hlo, hhi, -⟩ := @length_body m r payload
  have height := hfits.eight
  have hsmall := hfits.small
  have hprefix : (if m.isMedium then 4 else 1)
      ≤ (lengthPrefix m.isMedium (m.body r payload).length).length ∧
      (lengthPrefix m.isMedium (m.body r payload).length).length ≤ 4 := by
    unfold lengthPrefix
    split
    · simp
    · split <;> simp
  unfold Mode.frame
  rw [List.length_append]
  refine ⟨by omega, ?_, rfl⟩
  have : (if m = Mode.padded then 3 else 0) ≤ 3 := by split <;> omega
  omega

/-- The message of a frame is the payload: padding is cut off. -/
theorem packetMessage_body {f : RpcFlags} {m : Mode} {r : PadRandom} {payload more : Bytes}
    (hpad : f.pad = true ↔ m = .padded) (hfour : payload.length % 4 = 0) :
    packetMessage f (m.body r payload ++ more) (m.body r payload).length = payload := by
  unfold packetMessage
  dsimp only
  rw [List.take_left]
  obtain ⟨hlo, hhi, hbody⟩ := @length_body m r payload
  by_cases hm : m = .padded
  · rw [if_pos (hpad.mpr hm)]
    have hcut : (m.body r payload).length - (m.body r payload).length % 4 = payload.length := by
      rw [if_pos hm] at hhi
      omega
    rw [hcut, Mode.body, if_pos hm, List.take_left]
  · rw [if_neg (fun h => hm (hpad.mp h))]
    exact hbody hm

/-- **A pass at a frame**: it waits for the whole frame, or it executes the packet. -/
theorem packetPass_frame {cfg : ExtConfig} {w : World} (hw : w.executeFails = false)
    {m : Mode} {r : PadRandom} {payload rest more : Bytes} {g : Globals} {c : Conn}
    (hfits : m.Fits cfg payload) (hmode : m.Has c.rpcFlags) (hnum : 0 ≤ c.inPacketNum)
    (hinp : c.inp ++ rest = m.frame r payload ++ more) (hlen : 4 ≤ c.inp.length) :
    (c.inp.length < (m.frame r payload).length ∧
      packetPass cfg w g c (le32 c.inp)
        = some (.ret ((m.frame r payload).length - c.inp.length : ℤ), g,
            { c with rpcFlags := plainFlags c })) ∨
    ∃ c', packetPass cfg w g c (le32 c.inp) = some (.again, g, c') ∧
      c.inp = m.frame r payload ++ c'.inp ∧
      c' = { c with
        rpcFlags := plainFlags c
        inp := c'.inp
        inPacketNum := wrap32 (c.inPacketNum + 1)
        executed := c.executed ++ (if le32 payload ≠ rpcPing then [(plainFlags c, payload)] else [])
        outQueue := c.outQueue ++
          (if le32 payload = rpcPing ∧ payload.length = 12 then [pongOf payload] else []) } := by
  obtain ⟨hmedium, hpad, -⟩ := hmode.flags
  obtain ⟨hlo, hhi, hbody⟩ := @length_body m r payload
  obtain ⟨-, -, hframe⟩ := length_frame (r := r) hfits
  have hfour := hfits.four
  have height := hfits.eight
  have hsmall := hfits.small
  have hmax := hfits.max
  have hthree : (if m = Mode.padded then 3 else 0) ≤ 3 := by split <;> omega
  set len := (m.body r payload).length with hlendef
  -- the length word is read off the front of the frame
  have hword : packetLength c.rpcFlags (le32 c.inp)
      = some (false, len, (lengthPrefix m.isMedium len).length) := by
    have hle : le32 c.inp = le32 (lengthPrefix c.rpcFlags.medium len ++ (m.body r payload ++ more)) := by
      have hfront : (c.inp ++ rest).take 4 = c.inp.take 4 := List.take_append_of_le_length hlen
      unfold le32
      rw [← hfront, hinp, Mode.frame, hmedium, List.append_assoc]
    rw [hle, ← hmedium]
    refine packetLength_prefix (fun hcompact => ?_) (by omega)
    have hm : m ≠ .padded := by
      rintro rfl
      rw [hmedium] at hcompact
      exact absurd hcompact (by decide)
    rw [hlendef, hbody hm]
    exact hfour
  have hgood : isBadLength cfg c.rpcFlags len = false := by
    simp only [isBadLength, Bool.decide_or, Bool.or_eq_false_iff, decide_eq_false_iff_not,
      Bool.decide_and, Bool.and_eq_false_iff]
    refine ⟨by omega, by omega, ?_, ?_⟩
    · by_cases hm : m = .padded
      · exact Or.inl (by rw [hpad.mpr hm]; decide)
      · apply Or.inr
        rw [hlendef, hbody hm]
        exact not_not.mpr hfour
    · by_cases hpos : 0 < cfg.maxPacketLen
      · refine Or.inl (not_lt.mpr ((?_ : (len : ℤ) ≤ _).trans (hmax hpos)))
        have hcast : (len : ℤ) ≤ ((payload.length + (if m = Mode.padded then 3 else 0) : ℕ) : ℤ) := by
          exact_mod_cast hhi
        refine hcast.trans (le_of_eq ?_)
        push_cast
        split <;> rfl
      · exact Or.inr hpos
  unfold packetPass
  rw [hword]
  dsimp only
  rw [hgood, if_neg (by decide)]
  by_cases hshort : c.inp.length < len + (lengthPrefix m.isMedium len).length
  · left
    refine ⟨by omega, ?_⟩
    rw [if_pos hshort, hframe]
    congr 3
    push_cast
    ring
  · right
    rw [if_neg hshort]
    -- the whole frame is there
    obtain ⟨tail, htail⟩ : ∃ tail, c.inp = m.frame r payload ++ tail := by
      have hcut := congrArg (List.take (m.frame r payload).length) hinp
      rw [List.take_append_of_le_length (by omega), List.take_left] at hcut
      refine ⟨c.inp.drop (m.frame r payload).length, ?_⟩
      conv_lhs => rw [← List.take_append_drop (m.frame r payload).length c.inp, hcut]
    have hraw : c.inp.drop (lengthPrefix m.isMedium len).length = m.body r payload ++ tail := by
      rw [htail, Mode.frame, List.append_assoc, List.drop_left]
    have hmsg : packetMessage c.rpcFlags (m.body r payload ++ tail) len = payload :=
      packetMessage_body hpad hfour
    have hnumber : packetNumber c.inPacketNum = some c.inPacketNum := by
      unfold packetNumber
      exact if_neg (not_lt.mpr hnum)
    have hmsg' : packetMessage (plainFlags c) (m.body r payload ++ tail) len = payload := hmsg
    refine ⟨{ c with
      rpcFlags := plainFlags c
      inp := tail
      inPacketNum := wrap32 (c.inPacketNum + 1)
      executed := c.executed ++ (if le32 payload ≠ rpcPing then [(plainFlags c, payload)] else [])
      outQueue := c.outQueue ++
        (if le32 payload = rpcPing ∧ payload.length = 12 then [pongOf payload] else []) },
      ?_, htail, rfl⟩
    have hrest : (m.body r payload ++ tail).drop len = tail := by rw [hlendef, List.drop_left]
    unfold takePacket
    rw [skipData_of_le (by dsimp only; omega)]
    simp only [some_bind, hraw, hrest]
    rw [show packetMessage { c.rpcFlags with quickack := false } (m.body r payload ++ tail) len
      = payload from hmsg', fetchLookup_of_le (by omega), hnumber]
    simp only [executePacket_eq hw]
    rfl

/-! ## The reader between two calls -/

/-- The packets `ps` are on their way to `c`: `c->in`, and what the cipher makes of `future`,
are their frames. -/
structure Flows (cfg : ExtConfig) (m : Mode) (ps : List (PadRandom × Bytes)) (future : Bytes)
    (c : Conn) : Prop where
  type : c.type = .extServer
  flags : c.flags = ⟨false, false, false, false, false⟩
  mode : m.Has c.rpcFlags
  num : ps ≠ [] → 0 ≤ c.inPacketNum ∧ c.inPacketNum + ps.length ≤ 2 ^ 31
  fits : ∀ p ∈ ps, m.Fits cfg p.2
  feed : ∃ rest, Feed cfg.crypto c future rest ∧ c.inp ++ rest = framesOf m ps

/-- The reader waits: nothing is at hand, or fewer bytes than `skip_bytes`, and the frame of the
next packet has as many. -/
def Waiting (m : Mode) (ps : List (PadRandom × Bytes)) (c : Conn) : Prop :=
  (c.skipBytes = 0 ∧ c.inp = []) ∨
    ∃ p qs, ps = p :: qs ∧ (c.inp.length : ℤ) < c.skipBytes ∧
      c.skipBytes ≤ (m.frame p.1 p.2).length

theorem framesOf_cons (m : Mode) (p : PadRandom × Bytes) (ps : List (PadRandom × Bytes)) :
    framesOf m (p :: ps) = m.frame p.1 p.2 ++ framesOf m ps := rfl

/-- What is at hand is a part of a frame. -/
theorem Flows.cons {ps : List (PadRandom × Bytes)}
    {future : Bytes} {c : Conn} (h : Flows cfg m ps future c) (hinp : c.inp ≠ []) :
    ∃ p qs, ps = p :: qs := by
  cases ps with
  | nil =>
    obtain ⟨rest, -, hall⟩ := h.feed
    exact absurd (List.append_eq_nil_iff.mp hall).1 hinp
  | cons p qs => exact ⟨p, qs, rfl⟩

/-- `skip_bytes` does not matter to what is on its way. -/
theorem Flows.skip {ps : List (PadRandom × Bytes)} {future : Bytes}
    {c : Conn} (h : Flows cfg m ps future c) (k : ℤ) :
    Flows cfg m ps future { c with skipBytes := k } := by
  obtain ⟨rest, hfeed, hall⟩ := h.feed
  exact ⟨h.type, h.flags, h.mode, h.num, h.fits, rest, hfeed.congr rfl rfl rfl rfl, hall⟩

/-- The reader's loop goes on when there is input. -/
theorem readerLoop_ext {g : Globals} {c : Conn} (htype : c.type = .extServer)
    (hflags : c.flags = ⟨false, false, false, false, false⟩) (hskip : c.skipBytes = 0) :
    readerLoop g c = (g, c, decide (c.inp ≠ [])) := by
  have hloops : readerLoops c = decide (c.inp ≠ []) := by
    simp [readerLoops, hflags, hskip]
  unfold readerLoop
  rw [hloops]
  by_cases hinp : c.inp = []
  · simp [hinp]
  · simp [hinp, htype]

/-- **A read**: the reader waits on, or calls the parser. -/
theorem step_read_flows {ps : List (PadRandom × Bytes)}
    {chunk future : Bytes} {s : ConnState} (hidle : s.parsing = false)
    (h : Flows cfg m ps (chunk ++ future) s.conn) (hwait : Waiting m ps s.conn) :
    ∃ s', s.step cfg (.read chunk) = some s' ∧ Flows cfg m ps future s'.conn ∧
      Served s.conn s'.conn [] ∧
      ((s'.parsing = false ∧ Waiting m ps s'.conn) ∨
        (s'.parsing = true ∧ s'.conn.skipBytes = 0)) := by
  obtain ⟨rest, hfeed, hall⟩ := h.feed
  obtain ⟨c₁, plain, rest', htake, hinp, hsplit, hfeed', honly⟩ := hfeed.read
  -- the connection with the bytes that have come
  have hflows : Flows cfg m ps future c₁ := by
    unfold OnlyInput at honly
    refine ⟨?_, ?_, ?_, ?_, h.fits, rest', hfeed', ?_⟩
    · rw [honly]
      exact h.type
    · rw [honly]
      exact h.flags
    · rw [honly]
      exact h.mode
    · rw [honly]
      exact h.num
    · rw [hinp, List.append_assoc, ← hsplit]
      exact hall
  have hserved : ∀ k, Served s.conn { c₁ with skipBytes := k } [] := by
    intro k
    unfold OnlyInput at honly
    apply Served.nothing
    · rw [honly]
      rfl
    · rw [honly]
    · rw [honly]
  have hskip : c₁.skipBytes = s.conn.skipBytes := by
    unfold OnlyInput at honly
    rw [honly]
  have hflags := hflows.flags
  have hcall : ∀ {c₂ : Conn} {goesOn : Bool}, readerSkip c₁ = (c₂, goesOn) →
      s.step cfg (.read chunk) = some (if goesOn
        then ⟨(readerLoop s.globals c₂).1, (readerLoop s.globals c₂).2.1,
          (readerLoop s.globals c₂).2.2, s.received ++ chunk⟩
        else ⟨s.globals, c₂, false, s.received ++ chunk⟩) := by
    intro c₂ goesOn hgo
    have hreader : cpuTcpServerReader cfg.crypto chunk s.globals s.conn
        = some (if goesOn then readerLoop s.globals c₂ else (s.globals, c₂, false)) := by
      unfold cpuTcpServerReader
      rw [htake]
      simp only [some_bind, hflags, hgo]
      cases goesOn <;> rfl
    simp only [ConnState.step, hidle, hreader, Bool.false_eq_true, if_false, some_bind]
    cases goesOn <;> rfl
  have hsame : ∀ k, k = c₁.skipBytes → { c₁ with skipBytes := k } = c₁ := by
    rintro k rfl
    rfl
  by_cases hgo : c₁.skipBytes ≤ c₁.inp.length ∧ 0 ≤ c₁.skipBytes
  · -- enough bytes are there
    have hreader : readerSkip c₁ = ({ c₁ with skipBytes := 0 }, true) := by
      unfold readerSkip
      rw [if_neg (not_lt.mpr hgo.2)]
      by_cases hpos : 0 < c₁.skipBytes
      · rw [if_pos hpos, if_pos hgo.1]
      · rw [if_neg hpos, hsame 0 (by omega)]
    have hloop := readerLoop_ext (g := s.globals) (c := { c₁ with skipBytes := 0 }) hflows.type
      hflags rfl
    refine ⟨_, hcall hreader, ?_⟩
    rw [if_pos rfl, hloop]
    refine ⟨hflows.skip 0, hserved 0, ?_⟩
    by_cases hnil : c₁.inp = []
    · exact Or.inl ⟨by simp [hnil], Or.inl ⟨rfl, hnil⟩⟩
    · exact Or.inr ⟨by simp [hnil], rfl⟩
  · rcases hwait with ⟨hzero, -⟩ | ⟨p, qs, rfl, hlt, hle⟩
    · exact absurd (show c₁.skipBytes ≤ c₁.inp.length ∧ 0 ≤ c₁.skipBytes by omega) hgo
    have hreader : readerSkip c₁ = (c₁, false) := by
      unfold readerSkip
      rw [if_neg (by omega), if_pos (by omega), if_neg (by omega)]
    refine ⟨_, hcall hreader, ?_⟩
    rw [if_neg (by decide)]
    refine ⟨hflows, ?_, Or.inl ⟨rfl, Or.inr ⟨p, qs, rfl, ?_, ?_⟩⟩⟩
    · have hkeep := hserved c₁.skipBytes
      exact hkeep
    · dsimp only
      omega
    · dsimp only
      omega

/-- What the reader makes of a number of bytes that the parser waits for. -/
theorem readerReturn_wait {g : Globals} {c : Conn} {n : ℕ} (hcrypto : c.crypto.isSome = true)
    (hpos : c.inp.length < n) (hsmall : n < 2 ^ 27) :
    readerReturn (n - c.inp.length : ℤ) g c = (g, { c with skipBytes := n }, false) := by
  unfold readerReturn needMoreBytes
  rw [if_neg (by omega), if_neg (by omega), hcrypto, if_pos rfl]
  dsimp only
  rw [if_neg (by omega), show (n - c.inp.length : ℤ) + c.inp.length = n by ring]

/-- **A pass**: the reader waits again, or one packet is served. -/
theorem step_pass_flows {cfg : ExtConfig} {w : World} (hw : w.executeFails = false) {m : Mode}
    {ps : List (PadRandom × Bytes)} {future : Bytes} {s : ConnState} (hparsing : s.parsing = true)
    (h : Flows cfg m ps future s.conn) (hskip : s.conn.skipBytes = 0) :
    ∃ s', s.step cfg (.pass w) = some s' ∧
      ((s'.parsing = false ∧ Flows cfg m ps future s'.conn ∧ Waiting m ps s'.conn ∧
          Served s.conn s'.conn []) ∨
        ∃ p qs, ps = p :: qs ∧ s'.parsing = true ∧ s'.conn.skipBytes = 0 ∧
          Flows cfg m qs future s'.conn ∧ Served s.conn s'.conn [p.2] ∧
          s'.conn.inp.length < s.conn.inp.length) := by
  have herror : s.conn.flags.error = false := by rw [h.flags]
  have hstop : s.conn.flags.stopparse = false := by rw [h.flags]
  obtain ⟨rest, hfeed, hall⟩ := h.feed
  have hcrypto := hfeed.crypto
  -- a pass that returns a number of bytes to wait for
  have wait : ∀ {c : Conn} {n : ℕ} {p : PadRandom × Bytes} {qs : List (PadRandom × Bytes)},
      parsePass cfg w s.globals s.conn = some (.ret (n - s.conn.inp.length : ℤ), s.globals, c) →
      (∃ f, c = { s.conn with rpcFlags := f } ∧ m.Has f ∧ plainFlags c = plainFlags s.conn) →
      ps = p :: qs → s.conn.inp.length < n → n ≤ (m.frame p.1 p.2).length → n < 2 ^ 27 →
      ∃ s', s.step cfg (.pass w) = some s' ∧ s'.parsing = false ∧
        Flows cfg m ps future s'.conn ∧ Waiting m ps s'.conn ∧ Served s.conn s'.conn [] := by
    rintro c n p qs hpass ⟨f, rfl, hmode, hplain⟩ rfl hlt hle hsmall
    refine ⟨⟨s.globals, { s.conn with rpcFlags := f, skipBytes := n }, false, s.received⟩,
      ?_, rfl, ?_, Or.inr ⟨p, qs, rfl, ?_, ?_⟩, ?_⟩
    · have hreturn := readerReturn_wait (g := s.globals) (c := { s.conn with rpcFlags := f })
        (n := n) hcrypto hlt hsmall
      simp only [ConnState.step, hparsing, if_true, hpass, some_bind]
      rw [show readerReturn (n - s.conn.inp.length : ℤ) s.globals { s.conn with rpcFlags := f }
        = _ from hreturn]
    · exact ⟨h.type, h.flags, hmode, h.num, h.fits, rest, hfeed.congr rfl rfl rfl rfl, hall⟩
    · dsimp only
      omega
    · dsimp only
      omega
    · exact Served.nothing hplain rfl rfl
  by_cases hnil : s.conn.inp = []
  · -- nothing is left
    have hpass : parsePass cfg w s.globals s.conn
        = some (.ret needMoreBytes, s.globals, s.conn) := by
      unfold parsePass
      rw [herror, hstop, hnil]
      rfl
    refine ⟨⟨s.globals, s.conn, false, s.received⟩, ?_, Or.inl ⟨rfl, h, Or.inl ⟨hskip, hnil⟩,
      Served.nothing rfl rfl rfl⟩⟩
    simp only [ConnState.step, hparsing, if_true, hpass, some_bind]
    rfl
  obtain ⟨p, qs, rfl⟩ := h.cons hnil
  obtain ⟨hnum, hcount⟩ := h.num (List.cons_ne_nil p qs)
  have hfits := h.fits p List.mem_cons_self
  obtain ⟨hlook, hsmall, -⟩ := length_frame (r := p.1) hfits
  have hmedium := h.mode.flags.1
  by_cases hshort : s.conn.inp.length < (if s.conn.rpcFlags.medium then 4 else 1) + 8
  · -- the look-ahead is not there
    have hpass : parsePass cfg w s.globals s.conn
        = some (.ret (((if s.conn.rpcFlags.medium then 4 else 1) + 8 : ℕ) - s.conn.inp.length : ℤ),
          s.globals, s.conn) := by
      unfold parsePass
      rw [herror, hstop]
      dsimp only
      rw [if_neg (by decide), if_neg (by decide),
        if_neg (fun h0 => hnil (List.length_eq_zero_iff.mp h0)), if_pos hshort]
      push_cast
      rfl
    obtain ⟨s', hstep, hend⟩ := wait hpass ⟨s.conn.rpcFlags, rfl, h.mode, rfl⟩ rfl hshort
      (by rw [hmedium]; exact hlook) (by split <;> omega)
    exact ⟨s', hstep, Or.inl hend⟩
  have hreads : passReads s.conn = true := by
    simp only [passReads, Bool.decide_and, Bool.and_eq_true, decide_eq_true_eq]
    exact ⟨herror, hstop, hnil, not_lt.mp hshort⟩
  have hpass : parsePass cfg w s.globals s.conn
      = packetPass cfg w s.globals s.conn (le32 s.conn.inp) := by
    rw [parsePass_of_reads hreads, if_neg (by omega)]
  rcases packetPass_frame hw (g := s.globals) hfits h.mode hnum (framesOf_cons m p qs ▸ hall)
    (by split at hshort <;> omega) with ⟨hlt, hret⟩ | ⟨c', hagain, hinp, hc'⟩
  · have hmode : m.Has (plainFlags s.conn) := by
      have := h.mode
      cases m <;> exact this
    obtain ⟨s', hstep, hend⟩ := wait (hpass.trans hret) ⟨plainFlags s.conn, rfl, hmode, rfl⟩ rfl
      hlt le_rfl (by omega)
    exact ⟨s', hstep, Or.inl hend⟩
  · refine ⟨⟨s.globals, c', true, s.received⟩, ?_, Or.inr ⟨p, qs, rfl, rfl, ?_, ?_, ?_, ?_⟩⟩
    · simp only [ConnState.step, hparsing, if_true, hpass.trans hagain, some_bind]
    · rw [hc']
      exact hskip
    · have hmode : m.Has (plainFlags s.conn) := by
        have := h.mode
        cases m <;> exact this
      have hrest : c'.inp ++ rest = framesOf m qs := by
        rw [hinp, framesOf_cons, List.append_assoc] at hall
        exact List.append_cancel_left hall
      refine ⟨?_, ?_, ?_, fun hne => ?_, fun q hq => h.fits q (List.mem_cons_of_mem p hq),
        rest, ?_, hrest⟩
      · rw [hc']
        exact h.type
      · rw [hc']
        exact h.flags
      · rw [hc']
        exact hmode
      · rw [List.length_cons] at hcount
        have hone : 0 < qs.length := List.length_pos_iff.mpr hne
        have hnext : c'.inPacketNum = s.conn.inPacketNum + 1 := by
          rw [hc']
          exact wrap32_of_isInt32 ⟨by omega, by omega⟩
        rw [hnext]
        omega
      · apply hfeed.congr <;> rw [hc']
    · refine ⟨?_, ?_, ?_⟩
      · rw [hc']
        rfl
      · rw [hc']
        by_cases hping : le32 p.2 = rpcPing <;> simp [hping]
      · rw [hc']
        by_cases hping : le32 p.2 = rpcPing ∧ p.2.length = 12 <;> simp [hping]
    · rw [hinp, List.length_append]
      dsimp only
      omega

/-! ## Runs of the reader -/

/-- The passes of one call of the parser, until it returns. -/
def passes (cfg : ExtConfig) (w : World) : ℕ → ConnState → Option ConnState
  | 0, s => some s
  | fuel + 1, s =>
    if s.parsing then (s.step cfg (.pass w)).bind (passes cfg w fuel) else some s

/-- Reads, one after the other, each with all passes that it leads to. -/
def serve (cfg : ExtConfig) : List (World × Bytes) → ConnState → Option ConnState
  | [], s => some s
  | (w, chunk) :: reads, s => do
    let s₁ ← s.step cfg (.read chunk)
    let s₂ ← passes cfg w (s₁.conn.inp.length + 2) s₁
    serve cfg reads s₂

/-- **The passes after a read** serve the packets that are there, and come to an end. -/
theorem passes_flows {cfg : ExtConfig} {w : World} (hw : w.executeFails = false) {m : Mode}
    {future : Bytes} :
    ∀ {fuel : ℕ} {s : ConnState} {ps : List (PadRandom × Bytes)}, s.conn.inp.length + 1 < fuel →
      s.parsing = true → s.conn.skipBytes = 0 → Flows cfg m ps future s.conn →
      ∃ s' qs rs, passes cfg w fuel s = some s' ∧ ps = qs ++ rs ∧ s'.parsing = false ∧
        Flows cfg m rs future s'.conn ∧ Waiting m rs s'.conn ∧
        Served s.conn s'.conn (qs.map (·.2)) := by
  intro fuel
  induction fuel with
  | zero => intro s ps hfuel; omega
  | succ fuel ih =>
    intro s ps hfuel hparsing hskip h
    rw [passes, if_pos hparsing]
    obtain ⟨s₁, hstep, hcases⟩ := step_pass_flows hw hparsing h hskip
    rw [hstep, Option.bind_some]
    rcases hcases with ⟨hidle, hflows, hwait, hserved⟩ |
      ⟨p, qs, rfl, hagain, hskip₁, hflows, hserved, hless⟩
    · -- the parser has returned
      refine ⟨s₁, [], ps, ?_, rfl, hidle, hflows, hwait, hserved⟩
      cases fuel with
      | zero => rfl
      | succ fuel =>
        rw [passes, if_neg]
        rw [hidle]
        decide
    · obtain ⟨s', qs', rs, hrun, hsplit, hidle, hflows', hwait, hserved'⟩ :=
        ih (by omega) hagain hskip₁ hflows
      refine ⟨s', p :: qs', rs, hrun, ?_, hidle, hflows', hwait, ?_⟩
      · rw [hsplit, List.cons_append]
      · rw [List.map_cons]
        exact hserved.trans hserved'

/-- **Reads in any cutting** serve the packets that have come. -/
theorem serve_flows {future : Bytes} :
    ∀ {reads : List (World × Bytes)} {s : ConnState} {ps : List (PadRandom × Bytes)},
      (∀ r ∈ reads, r.1.executeFails = false) → s.parsing = false →
      Flows cfg m ps ((reads.map (·.2)).flatten ++ future) s.conn → Waiting m ps s.conn →
      ∃ s' qs rs, serve cfg reads s = some s' ∧ ps = qs ++ rs ∧ s'.parsing = false ∧
        Flows cfg m rs future s'.conn ∧ Waiting m rs s'.conn ∧
        Served s.conn s'.conn (qs.map (·.2)) := by
  intro reads
  induction reads with
  | nil =>
    intro s ps _ hidle h hwait
    exact ⟨s, [], ps, rfl, rfl, hidle, h, hwait, Served.nothing rfl rfl rfl⟩
  | cons r reads ih =>
    intro s ps hw hidle h hwait
    obtain ⟨w, chunk⟩ := r
    rw [List.map_cons, List.flatten_cons, List.append_assoc] at h
    have hrest : ∀ r ∈ reads, r.1.executeFails = false :=
      fun r hr => hw r (List.mem_cons_of_mem _ hr)
    obtain ⟨s₁, hread, hflows₁, hserved₁, hcases⟩ := step_read_flows hidle h hwait
    -- the passes that the read leads to
    obtain ⟨s₂, qs₁, rs₁, hpasses, rfl, hidle₂, hflows₂, hwait₂, hserved₂⟩ :
        ∃ s₂ qs rs, passes cfg w (s₁.conn.inp.length + 2) s₁ = some s₂ ∧ ps = qs ++ rs ∧
          s₂.parsing = false ∧
          Flows cfg m rs ((reads.map (·.2)).flatten ++ future) s₂.conn ∧
          Waiting m rs s₂.conn ∧ Served s₁.conn s₂.conn (qs.map (·.2)) := by
      rcases hcases with ⟨hidle₁, hwait₁⟩ | ⟨hparsing₁, hskip₁⟩
      · refine ⟨s₁, [], ps, ?_, rfl, hidle₁, hflows₁, hwait₁, Served.nothing rfl rfl rfl⟩
        rw [passes, if_neg]
        rw [hidle₁]
        decide
      · exact passes_flows (hw _ List.mem_cons_self) (by omega) hparsing₁ hskip₁ hflows₁
    obtain ⟨s', qs, rs, hserve, rfl, hidle', hflows', hwait', hserved'⟩ :=
      ih hrest hidle₂ hflows₂ hwait₂
    refine ⟨s', qs₁ ++ qs, rs, ?_, ?_, hidle', hflows', hwait', ?_⟩
    · simp only [serve, hread, hpasses, some_bind]
      exact hserve
    · rw [List.append_assoc]
    · have hall := (hserved₁.trans hserved₂).trans hserved'
      rwa [List.nil_append, ← List.map_append] at hall

/-- When everything has come, everything is served. -/
theorem Flows.complete {ps : List (PadRandom × Bytes)} {c : Conn}
    (h : Flows cfg m ps [] c) (hwait : Waiting m ps c) : ps = [] ∧ c.inp = [] := by
  obtain ⟨rest, hfeed, hall⟩ := h.feed
  rw [hfeed.complete, List.append_nil] at hall
  rcases hwait with ⟨-, hnil⟩ | ⟨p, qs, rfl, hlt, hle⟩
  · refine ⟨?_, hnil⟩
    cases ps with
    | nil => rfl
    | cons p qs =>
      -- the frame of a packet is not empty
      obtain ⟨hlook, -, -⟩ := length_frame (r := p.1) (h.fits p List.mem_cons_self)
      have hlen := congrArg List.length hall
      rw [hnil, framesOf_cons, List.length_append, List.length_nil] at hlen
      omega
  · -- a whole frame is at hand, but the reader waits for less
    have hlen := congrArg List.length hall
    rw [framesOf_cons, List.length_append] at hlen
    omega

/-! ## Runs of the writer -/

/-- An event at the output, as `TlsRecords` sees it. -/
def Mode.outEvent (m : Mode) : WriteEvent → OutEvent
  | .packet r payload => .push (m.frame r payload)
  | .encrypt => .encrypt

theorem pushed_outEvents (m : Mode) (es : List WriteEvent) :
    pushed (es.map m.outEvent) = framesOf m (packets es) := by
  induction es with
  | nil => rfl
  | cons e es ih =>
    cases e with
    | packet r payload => exact congrArg (m.frame r payload ++ ·) ih
    | encrypt => exact ih

/-- Encrypting leaves the mode and the place in the record alone. -/
theorem encryptLoop_frame (cr : Crypto) :
    ∀ {fuel : ℕ} {o o' : OutConn}, encryptLoop cr fuel o = some o' →
      o'.rpcFlags = o.rpcFlags ∧ o'.isTls = o.isTls ∧
        o'.leftTlsPacketLength = o.leftTlsPacketLength := by
  intro fuel
  induction fuel with
  | zero =>
    intro o o' h
    cases h
    exact ⟨rfl, rfl, rfl⟩
  | succ fuel ih =>
    intro o o' h
    cases hT : o.crypto with
    | none =>
      rw [encryptLoop, hT] at h
      exact absurd h (by simp)
    | some T =>
      rw [encryptLoop, hT] at h
      dsimp only at h
      split at h
      · cases h
        exact ⟨rfl, rfl, rfl⟩
      split at h
      · split at h
        · exact absurd h (by simp)
        · obtain ⟨hflags, htls, hleft⟩ := ih h
          exact ⟨hflags, htls, hleft⟩
      · obtain ⟨hflags, htls, hleft⟩ := ih h
        exact ⟨hflags, htls, hleft⟩

/-- **Writing packets** is pushing their frames. -/
theorem run_writeStep (k : Checksums) :
    ∀ {es : List WriteEvent} {o : OutConn}, (∀ p ∈ packets es, m.Fits cfg p.2) →
      m.Has o.rpcFlags → (o.isTls = true → 0 ≤ o.leftTlsPacketLength) →
      Runs.run (OutConn.writeStep cfg.crypto k) o es
        = Runs.run (OutConn.step cfg.crypto) o (es.map m.outEvent) := by
  intro es
  induction es with
  | nil => intro o _ _ _; rfl
  | cons e es ih =>
    intro o hfits hmode hleft
    cases e with
    | packet r payload =>
      have hone := writePacketCompact_eq k r (hfits (r, payload) List.mem_cons_self) hmode hleft
      have hrest := ih (o := { o with out := o.out ++ m.frame r payload })
        (fun p hp => hfits p (List.mem_cons_of_mem _ hp)) hmode hleft
      simp only [List.map_cons, Runs.run, OutConn.writeStep, hone, Mode.outEvent, OutConn.step]
      exact hrest
    | encrypt =>
      simp only [List.map_cons, Runs.run, OutConn.writeStep, Mode.outEvent, OutConn.step]
      cases hcall : cryptoEncryptOutput cfg.crypto o with
      | none => rfl
      | some o' =>
        have hframe : o'.rpcFlags = o.rpcFlags ∧ o'.isTls = o.isTls ∧
            o'.leftTlsPacketLength = o.leftTlsPacketLength := by
          unfold cryptoEncryptOutput at hcall
          cases hT : o.crypto with
          | none =>
            rw [hT] at hcall
            exact absurd hcall (by simp)
          | some T =>
            rw [hT] at hcall
            exact encryptLoop_frame cfg.crypto hcall
        obtain ⟨hflags, htls, hsame⟩ := hframe
        exact ih hfits (hflags ▸ hmode) (by rw [htls, hsame]; exact hleft)

/-- What the output side without TLS has done since it held the cipher `T`: `sent` is on the
wire, and the rest of what was pushed waits. -/
structure PlainSent (cr : Crypto) (T : AesCrypto) (done sent bytes : Bytes) (o : OutConn) :
    Prop where
  tls : o.isTls = false
  crypto : o.crypto = some { T with writeAeskey := T.writeAeskey.advance sent.length }
  wire : o.outP = done ++ crypted cr T.writeAeskey sent
  waiting : sent ++ o.out = bytes

/-- **Encrypting the output** without TLS: all of it at once. -/
theorem PlainSent.encrypt {cr : Crypto} {T : AesCrypto} {done sent bytes : Bytes} {o : OutConn}
    (h : PlainSent cr T done sent bytes o) :
    ∃ o', cryptoEncryptOutput cr o = some o' ∧ o'.out = [] ∧ PlainSent cr T done bytes bytes o' := by
  have hcall : cryptoEncryptOutput cr o = encryptLoop cr (o.out.length + 1) o := by
    rw [cryptoEncryptOutput, h.crypto]
  rw [hcall, encryptLoop, h.crypto]
  dsimp only
  by_cases hnil : o.out = []
  · rw [if_pos (by rw [hnil]; rfl)]
    have hsent : sent = bytes := by rw [← h.waiting, hnil, List.append_nil]
    exact ⟨o, rfl, hnil, hsent ▸ ⟨h.tls, h.crypto, h.wire, by rw [hnil, List.append_nil]⟩⟩
  · rw [if_neg (fun h0 => hnil (List.length_eq_zero_iff.mp h0)),
      if_neg (by rw [h.tls]; decide)]
    -- the second round finds nothing
    set o₁ := encryptTo cr { T with writeAeskey := T.writeAeskey.advance sent.length }
      o.out.length o with ho₁
    have hout : o₁.out = [] := by
      rw [ho₁]
      exact List.drop_length
    have hcrypto : o₁.crypto = some { T with writeAeskey := T.writeAeskey.advance bytes.length } := by
      rw [ho₁, ← h.waiting]
      simp only [encryptTo, List.take_length, evpCrypt_eq, CipherCtx.advance_advance,
        List.length_append]
    refine ⟨o₁, ?_, hout, h.tls, hcrypto, ?_, ?_⟩
    · obtain ⟨n, hn⟩ : ∃ n, o.out.length = n + 1 :=
        Nat.exists_eq_succ_of_ne_zero (fun h0 => hnil (List.length_eq_zero_iff.mp h0))
      conv_lhs => rw [hn]
      rw [encryptLoop, hcrypto]
      exact if_pos (by rw [hout]; rfl)
    · have hwire : o₁.outP = o.outP ++ crypted cr (T.writeAeskey.advance sent.length) o.out := by
        rw [ho₁]
        simp only [encryptTo, List.take_length, evpCrypt_eq]
      rw [hwire, h.wire, List.append_assoc, ← crypted_append, h.waiting]
    · rw [hout, List.append_nil]

/-- **A run at the output** without TLS. -/
theorem PlainSent.run {cr : Crypto} {T : AesCrypto} {done : Bytes} :
    ∀ {es : List OutEvent} {sent bytes : Bytes} {o : OutConn},
      PlainSent cr T done sent bytes o →
      ∃ sent' o', Runs.run (OutConn.step cr) o es = some o' ∧
        PlainSent cr T done sent' (bytes ++ pushed es) o' := by
  intro es
  induction es with
  | nil =>
    intro sent bytes o h
    rw [pushed, List.append_nil]
    exact ⟨sent, o, rfl, h⟩
  | cons e es ih =>
    intro sent bytes o h
    cases e with
    | push data =>
      have hnext : PlainSent cr T done sent (bytes ++ data) { o with out := o.out ++ data } :=
        ⟨h.tls, h.crypto, h.wire, by rw [← h.waiting, List.append_assoc]⟩
      obtain ⟨sent', o', hrun, hend⟩ := ih hnext
      refine ⟨sent', o', Runs.run_cons.mpr ⟨_, rfl, hrun⟩, ?_⟩
      rwa [pushed, ← List.append_assoc]
    | encrypt =>
      obtain ⟨o₁, hcall, -, hnext⟩ := h.encrypt
      obtain ⟨sent', o', hrun, hend⟩ := ih hnext
      exact ⟨sent', o', Runs.run_cons.mpr ⟨o₁, hcall, hrun⟩, hend⟩

/-- **Everything that is encrypted**: the frames of the packets are on the wire, and a receiver
with the same key stream has them ahead. -/
theorem writeRun_feed (k : Checksums) {T S : AesCrypto}
    {es : List WriteEvent} {o : OutConn} {c : Conn} (hfits : ∀ p ∈ packets es, m.Fits cfg p.2)
    (hmode : m.Has o.rpcFlags) (hT : o.crypto = some T)
    (hleft : o.isTls = true → 0 ≤ o.leftTlsPacketLength) (hout : o.out = [])
    (hS : c.crypto = some S) (hkeys : S.readAeskey = T.writeAeskey) (htls : c.isTls = o.isTls)
    (hleft' : c.isTls = true → c.leftTlsPacketLength = 0) (hinU : c.inU = []) :
    ∃ o' wire, Runs.run (OutConn.writeStep cfg.crypto k) o (es ++ [.encrypt]) = some o' ∧
      o'.out = [] ∧ o'.outP = o.outP ++ wire ∧
      Feed cfg.crypto c wire (framesOf m (packets es)) := by
  have hpackets : packets (es ++ [.encrypt]) = packets es := by
    induction es with
    | nil => rfl
    | cons e es ih =>
      cases e with
      | packet r payload =>
        exact congrArg ((r, payload) :: ·) (ih fun p hp => hfits p (List.mem_cons_of_mem _ hp))
      | encrypt => exact ih hfits
  have hruns : Runs.run (OutConn.writeStep cfg.crypto k) o (es ++ [.encrypt])
      = Runs.run (OutConn.step cfg.crypto) o (es.map m.outEvent ++ [.encrypt]) := by
    rw [run_writeStep k (hpackets ▸ hfits) hmode hleft, List.map_append]
    rfl
  rw [hruns, ← pushed_outEvents]
  by_cases ho : o.isTls = true
  · obtain ⟨rs, o', hrun, hnil, hwire, hsent, hflat⟩ :=
      sent_tls cfg.crypto hT ho (hleft ho) hout (es.map m.outEvent)
    refine ⟨o', _, hrun, hnil, hwire, Or.inr ⟨rs, 0, [], rs, ?_, Or.inl hinU, ?_⟩⟩
    · rw [← hkeys]
      exact .start hS (htls.trans ho) (hleft' (htls.trans ho)) hinU hsent
    · rw [List.nil_append, hflat]
  · have hplain : o.isTls = false := Bool.eq_false_iff.mpr ho
    have hbegin : PlainSent cfg.crypto T o.outP [] [] o :=
      ⟨hplain, hT, by simp, by simp [hout]⟩
    obtain ⟨sent, o₁, hrun, h₁⟩ : ∃ sent o₁,
        Runs.run (OutConn.step cfg.crypto) o (es.map m.outEvent) = some o₁ ∧
        PlainSent cfg.crypto T o.outP sent ([] ++ pushed (es.map m.outEvent)) o₁ := hbegin.run
    rw [List.nil_append] at h₁
    obtain ⟨o', hcall, hnil, h'⟩ := h₁.encrypt
    refine ⟨o', _, Runs.run_append.mpr ⟨o₁, hrun, Runs.run_cons.mpr ⟨o', hcall, rfl⟩⟩, hnil,
      h'.wire, Or.inl ⟨htls.trans hplain, hinU, S, hS, ?_⟩⟩
    rw [hkeys]

/-! ## The round trip -/

/-- The output side `o` of one end and the connection `c` at the other end, after the handshake
and between two packets: both are in the mode `m`, and the write key of the one is the read key
of the other, at the same place of the key stream. -/
structure FramingPair (m : Mode) (T : AesCrypto) (o : OutConn) (c : Conn) : Prop where
  sender : o.crypto = some T
  senderMode : m.Has o.rpcFlags
  senderLeft : o.isTls = true → 0 ≤ o.leftTlsPacketLength
  out : o.out = []
  receiver : ∃ S, c.crypto = some S ∧ S.readAeskey = T.writeAeskey
  tls : c.isTls = o.isTls
  receiverMode : m.Has c.rpcFlags
  receiverLeft : c.isTls = true → c.leftTlsPacketLength = 0
  type : c.type = .extServer
  flags : c.flags = ⟨false, false, false, false, false⟩
  inU : c.inU = []
  inp : c.inp = []
  skip : c.skipBytes = 0

/-- **The framing of client packets.**  Whatever packets are written, with any padding, and
wherever the output is encrypted and the wire cut into reads: the reader gives exactly these
packets to `execute`, in order and once each, with the quick-ack flag clear, except the pings,
which `tcp_rpcs_default_execute` gets.  Nothing is left over. -/
theorem client_framing_round_trip (cfg : ExtConfig) (k : Checksums) {m : Mode} {T : AesCrypto}
    {o : OutConn} {s : ConnState} (h : FramingPair m T o s.conn) (hidle : s.parsing = false)
    (es : List WriteEvent) (hfits : ∀ p ∈ packets es, m.Fits cfg p.2)
    (hnum : 0 ≤ s.conn.inPacketNum ∧ s.conn.inPacketNum + (packets es).length ≤ 2 ^ 31) :
    ∃ o' wire, Runs.run (OutConn.writeStep cfg.crypto k) o (es ++ [.encrypt]) = some o' ∧
      o'.out = [] ∧ o'.outP = o.outP ++ wire ∧
      ∀ reads : List (World × Bytes), (∀ r ∈ reads, r.1.executeFails = false) →
        (reads.map (·.2)).flatten = wire →
        ∃ s', serve cfg reads s = some s' ∧ s'.parsing = false ∧
          Served s.conn s'.conn ((packets es).map (·.2)) ∧ s'.conn.inp = [] ∧
          s'.conn.flags = s.conn.flags := by
  obtain ⟨S, hS, hkeys⟩ := h.receiver
  obtain ⟨o', wire, hrun, hout, hwire, hfeed⟩ := writeRun_feed k (c := s.conn) hfits h.senderMode
    h.sender h.senderLeft h.out hS hkeys h.tls h.receiverLeft h.inU
  refine ⟨o', wire, hrun, hout, hwire, fun reads hreads hcut => ?_⟩
  have hflows : Flows cfg m (packets es) ((reads.map (·.2)).flatten ++ []) s.conn := by
    refine ⟨h.type, h.flags, h.receiverMode, fun _ => hnum, hfits, framesOf m (packets es),
      ?_, ?_⟩
    · rw [List.append_nil, hcut]
      exact hfeed
    · rw [h.inp, List.nil_append]
  obtain ⟨s', qs, rs, hserve, hsplit, hidle', hflows', hwait, hserved⟩ :=
    serve_flows hreads hidle hflows (Or.inl ⟨h.skip, h.inp⟩)
  obtain ⟨rfl, hinp⟩ := hflows'.complete hwait
  rw [List.append_nil] at hsplit
  refine ⟨s', hserve, hidle', ?_, hinp, hflows'.flags.trans h.flags.symm⟩
  rw [hsplit]
  exact hserved

/-- Checksums that are all zero. -/
def Checksums.zero : Checksums := ⟨fun _ => 0, fun _ => 0⟩

/-- Packets of at most `1000` bytes, and a key stream that counts. -/
def ExtConfig.counting : ExtConfig := { ExtConfig.plain false with
  crypto := Crypto.counting
  maxPacketLen := 1000 }

/-- The output side of `Conn.betweenPackets`. -/
def OutConn.compact : OutConn :=
  ⟨false, 0, ⟨false, false, true, false, true⟩, 0, .crc32, some AesCrypto.counting, [], []⟩

/-- A connection in compact mode, after the handshake. -/
def Conn.betweenPackets : Conn :=
  { Conn.accepted 443 ⟨0, List.replicate 16 0, none⟩ with
    crypto := some AesCrypto.counting
    rpcFlags := ⟨false, false, true, false, true⟩
    inPacketNum := 0 }

/-- Its state. -/
def ConnState.betweenPackets : ConnState := ⟨Globals.oneSecret 1, Conn.betweenPackets, false, []⟩

theorem framingPair_compact :
    FramingPair .compact AesCrypto.counting OutConn.compact Conn.betweenPackets where
  sender := rfl
  senderMode := ⟨rfl, rfl, rfl⟩
  senderLeft := fun _ => le_rfl
  out := rfl
  receiver := ⟨AesCrypto.counting, rfl, rfl⟩
  tls := rfl
  receiverMode := ⟨rfl, rfl, rfl⟩
  receiverLeft := fun _ => rfl
  type := rfl
  flags := rfl
  inU := rfl
  inp := rfl
  skip := rfl

/-- A ping. -/
def pingPacket : Bytes := [0xdf, 0xa2, 0x30, 0x57, 1, 2, 3, 4, 5, 6, 7, 8]

/-- Two packets, the second of them a ping, read one byte at a time. -/
theorem client_framing_round_trip_sample :
    ∃ o', Runs.run (OutConn.writeStep Crypto.counting Checksums.zero) OutConn.compact
        [.packet ⟨0, 0⟩ [1, 2, 3, 4, 5, 6, 7, 8], .encrypt, .packet ⟨0, 0⟩ pingPacket, .encrypt]
          = some o' ∧
      ∃ s', serve ExtConfig.counting (o'.outP.map (fun b => (World.calm, [b])))
          ConnState.betweenPackets = some s' ∧
        s'.conn.executed = [(⟨false, false, true, false, true⟩, [1, 2, 3, 4, 5, 6, 7, 8])] ∧
        s'.conn.outQueue = [[0xa7, 0xea, 0x30, 0x84, 1, 2, 3, 4, 5, 6, 7, 8]] := by
  have hfits : ∀ p ∈ packets [.packet ⟨0, 0⟩ [1, 2, 3, 4, 5, 6, 7, 8], .encrypt,
      .packet ⟨0, 0⟩ pingPacket], Mode.compact.Fits ExtConfig.counting p.2 := by
    intro p hp
    simp only [packets, List.mem_cons, List.not_mem_nil, or_false] at hp
    rcases hp with rfl | rfl <;>
      exact ⟨by decide, by decide, by decide, fun _ => by decide⟩
  obtain ⟨o', wire, hrun, -, hwire, hread⟩ := client_framing_round_trip ExtConfig.counting
    Checksums.zero framingPair_compact (s := ConnState.betweenPackets) rfl _ hfits
    ⟨by decide, by decide⟩
  rw [show OutConn.compact.outP = [] from rfl, List.nil_append] at hwire
  obtain ⟨s', hserve, -, hserved, -, -⟩ := hread (o'.outP.map (fun b => (World.calm, [b])))
    (by
      intro r hr
      obtain ⟨b, -, rfl⟩ := List.mem_map.mp hr
      rfl)
    (by
      rw [List.map_map, hwire]
      exact (List.flatMap_def ..).symm.trans (List.flatMap_singleton' wire))
  exact ⟨o', hrun, s', hserve, hserved.executed, hserved.outQueue⟩

/-- A ping is a packet like any other, but `execute` does not get it. -/
theorem ping_not_executed :
    Mode.compact.Fits ExtConfig.counting pingPacket ∧
      ∃ o', Runs.run (OutConn.writeStep Crypto.counting Checksums.zero) OutConn.compact
          [.packet ⟨0, 0⟩ pingPacket, .encrypt] = some o' ∧
        (serve ExtConfig.counting [(World.calm, o'.outP)] ConnState.betweenPackets).map
            (fun s => s.conn.executed.map (·.2)) = some [] ∧
        (([] : List Bytes) ≠ (packets [.packet ⟨0, 0⟩ pingPacket, .encrypt]).map (·.2)) := by
  refine ⟨⟨by decide, by decide, by decide, fun _ => by decide⟩, ?_⟩
  have hrun : (Runs.run (OutConn.writeStep Crypto.counting Checksums.zero) OutConn.compact
      [.packet ⟨0, 0⟩ pingPacket, .encrypt]).map (fun o' =>
        ((serve ExtConfig.counting [(World.calm, o'.outP)] ConnState.betweenPackets).map
          (fun s => s.conn.executed.map (·.2)))) = some (some []) := by decide +kernel
  obtain ⟨o', ho, hserve⟩ := Option.map_eq_some_iff.mp hrun
  exact ⟨o', ho, hserve, by decide⟩

end MtprotoProxy
