/-
# The job of a client connection

The reader of `net/net-tcp-connections.c` around the parser, the ten-second alarm of
`tcp_rpcs_ext_alarm`, and the connection as a machine that takes one step at a time.

The job of a connection is locked while it runs, so bytes that arrive and alarms wait until
the reader has returned; `parsing` says that the reader is inside `parse_execute`.  Other
threads may set flags of the connection and change the shared variables between any two
steps.  A step is `none` when the event cannot happen now, or when an assertion fails.
-/
import MtprotoProxy.Runs
import MtprotoProxy.CompactParse

namespace MtprotoProxy

open CLib

/-- A connection with the variables it shares, whether its reader is inside
`parse_execute`, and all bytes it has received. -/
structure ConnState where
  globals : Globals
  conn : Conn
  parsing : Bool
  received : Bytes

/-- The state after a connection is accepted. -/
def ConnState.accepted (g : Globals) (ourPort : ℕ) (peer : PeerAddr) : ConnState :=
  ⟨g, Conn.accepted ourPort peer, false, []⟩

/-- What happens to a connection: bytes arrive, the parser makes a pass, the alarm goes
off, or other threads act. -/
inductive ConnEvent where
  | read (bytes : Bytes)
  | pass (w : World)
  | alarm (w : World)
  | others (flags : ConnFlags) (g : Globals)

/-! ## The reader -/

/-- The condition of the reader's loop, with the check for an empty input. -/
def readerLoops (c : Conn) : Bool :=
  c.skipBytes = 0 ∧ c.flags.error = false ∧ c.flags.failed = false ∧
    c.flags.netFailed = false ∧ c.flags.stopread = false ∧ c.inp ≠ []

/-- The end of a round of the reader's loop: `parse_execute` is called again, or the
reader returns. -/
def readerLoop (g : Globals) (c : Conn) : Globals × Conn × Bool :=
  if readerLoops c then
    match c.type with
    | .extServer => (g, c, true)
    | .proxyPass =>
      let (_, g', c') := tcpProxyPassParseExecute g c
      (g', c', false)
  else (g, c, false)

/-- The bytes from `c->in_queue` go to `c->in`, or through `c->in_u` when there is a
cipher. -/
def readerTake (cr : Crypto) (bytes : Bytes) (c : Conn) : Option Conn :=
  match c.crypto with
  | none => some { c with inp := c.inp ++ bytes }
  | some _ => do
    let (res, c') ← cryptoDecryptInput cr { c with inU := c.inU ++ bytes }
    if res < 0 then none else some c'

/-- The handling of `skip_bytes`: the connection, and whether the reader goes on. -/
def readerSkip (c : Conn) : Conn × Bool :=
  if c.skipBytes < 0 then
    let r := min c.inp.length (-c.skipBytes).toNat
    let c' := { c with inp := c.inp.drop r, skipBytes := c.skipBytes + r }
    (c', c'.skipBytes = 0)
  else if 0 < c.skipBytes then
    if c.skipBytes ≤ c.inp.length then ({ c with skipBytes := 0 }, true) else (c, false)
  else (c, true)

/-- `cpu_tcp_server_reader`, up to the first call of `parse_execute`. -/
def cpuTcpServerReader (cr : Crypto) (bytes : Bytes) (g : Globals) (c : Conn) :
    Option (Globals × Conn × Bool) := do
  let c₁ ← readerTake cr bytes c
  if c₁.flags.failed ∨ c₁.flags.error ∨ c₁.flags.netFailed ∨ c₁.flags.stopread then
    some (g, c₁, false)
  else
    let (c₂, goesOn) := readerSkip c₁
    if goesOn then some (readerLoop g c₂) else some (g, c₂, false)

/-- What the reader makes of the value that `parse_execute` returned. -/
def readerReturn (res : ℤ) (g : Globals) (c : Conn) : Globals × Conn × Bool :=
  if res = 0 then readerLoop g c
  else if res = needMoreBytes then (g, c, false)
  else
    let bytes := if c.crypto.isSome then c.inp.length else c.inU.length
    (g, { c with skipBytes := if res < 0 then res - bytes else res + bytes }, false)

/-- `tcp_rpcs_ext_alarm`, which is not called on a failed connection. -/
def tcpRpcsExtAlarm (cfg : ExtConfig) (w : World) (g : Globals) (c : Conn) : Globals × Conn :=
  if c.flags.error then (g, c)
  else
    match c.type, cfg.domains.defaultDomainInfo with
    | .extServer, some info =>
      if c.inPacketNum = -3 then (proxyConnection w info g c).2 else (g, c)
    | _, _ => (g, c)

/-! ## The machine -/

/-- One step. -/
def ConnState.step (cfg : ExtConfig) (s : ConnState) : ConnEvent → Option ConnState
  | .read bytes =>
    if s.parsing then none
    else do
      let (g, c, parsing) ← cpuTcpServerReader cfg.crypto bytes s.globals s.conn
      some ⟨g, c, parsing, s.received ++ bytes⟩
  | .pass w =>
    if s.parsing then do
      match ← parsePass cfg w s.globals s.conn with
      | (.again, g, c) => some ⟨g, c, true, s.received⟩
      | (.ret res, g, c) =>
        let (g', c', parsing) := readerReturn res g c
        some ⟨g', c', parsing, s.received⟩
    else none
  | .alarm w =>
    if s.parsing then none
    else
      let (g, c) := tcpRpcsExtAlarm cfg w s.globals s.conn
      some { s with globals := g, conn := c }
  | .others f g =>
    let flags : ConnFlags :=
      ⟨s.conn.flags.error || f.error, s.conn.flags.failed || f.failed,
        s.conn.flags.netFailed || f.netFailed, f.stopread, f.stopparse⟩
    some { s with globals := g, conn := { s.conn with flags := flags } }

/-! ## What the reader does to a connection -/

/-- `d` differs from `c` at most in what the reader touches. -/
def ReaderFrame (c d : Conn) : Prop :=
  d = { c with
    crypto := d.crypto
    inU := d.inU
    inp := d.inp
    leftTlsPacketLength := d.leftTlsPacketLength
    flags := d.flags
    skipBytes := d.skipBytes
    coverQueue := d.coverQueue }

theorem ReaderFrame.refl (c : Conn) : ReaderFrame c c := rfl

theorem ReaderFrame.trans {c d e : Conn} (h : ReaderFrame c d) (h' : ReaderFrame d e) :
    ReaderFrame c e := by
  unfold ReaderFrame at h h' ⊢
  rw [h']
  rw [h]

theorem InputFrame.readerFrame {c d : Conn} (h : InputFrame c d) : ReaderFrame c d := by
  unfold InputFrame at h
  unfold ReaderFrame
  rw [h]

/-- The fields that the reader leaves alone. -/
theorem ReaderFrame.fields {c d : Conn} (h : ReaderFrame c d) :
    d.type = c.type ∧ d.isTls = c.isTls ∧ d.inPacketNum = c.inPacketNum ∧
      d.outQueue = c.outQueue ∧ d.rpcFlags = c.rpcFlags := by
  unfold ReaderFrame at h
  rw [h]
  exact ⟨rfl, rfl, rfl, rfl, rfl⟩

/-- Going round the reader's loop. -/
theorem readerLoop_frame (g : Globals) (c : Conn) :
    ReaderFrame c (readerLoop g c).2.1 ∧ (c.type = .extServer → (readerLoop g c).2.1 = c) := by
  unfold readerLoop
  split
  · cases hc : c.type with
    | extServer => exact ⟨ReaderFrame.refl c, fun _ => rfl⟩
    | proxyPass =>
      refine ⟨?_, fun h => absurd h (by simp)⟩
      unfold tcpProxyPassParseExecute
      dsimp only
      split <;> rfl
  · exact ⟨ReaderFrame.refl c, fun _ => rfl⟩

/-- The reader's loop ends at once on a connection without input. -/
theorem readerLoop_of_nil {g : Globals} {c : Conn} (h : c.inp = []) :
    readerLoop g c = (g, c, false) := by
  unfold readerLoop
  rw [if_neg]
  simp [readerLoops, h]

/-- What the value that `parse_execute` returned does to a connection. -/
theorem readerReturn_frame (res : ℤ) (g : Globals) (c : Conn) :
    ReaderFrame c (readerReturn res g c).2.1 := by
  unfold readerReturn
  split
  · exact (readerLoop_frame g c).1
  split
  · exact ReaderFrame.refl c
  · rfl

/-- A value that skips nothing only sets the number of bytes to wait for. -/
theorem readerReturn_nonneg {res : ℤ} (g : Globals) {c : Conn} (htype : c.type = .extServer)
    (hres : 0 ≤ res) (hskip : 0 ≤ c.skipBytes) :
    ∃ k, 0 ≤ k ∧ (readerReturn res g c).2.1 = { c with skipBytes := k } := by
  unfold readerReturn
  split
  · exact ⟨c.skipBytes, hskip, (readerLoop_frame g c).2 htype⟩
  split
  · exact ⟨c.skipBytes, hskip, rfl⟩
  · refine ⟨_, ?_, rfl⟩
    rw [if_neg (not_lt.mpr hres)]
    omega

/-- Taking new bytes. -/
theorem readerTake_frame {cr : Crypto} {bytes : Bytes} {c c' : Conn}
    (h : readerTake cr bytes c = some c') :
    InputFrame c c' ∧ (c.crypto = none → c' = { c with inp := c.inp ++ bytes }) := by
  unfold readerTake at h
  cases hT : c.crypto with
  | none =>
    rw [hT] at h
    cases h
    refine ⟨?_, fun _ => rfl⟩
    unfold InputFrame
    rw [← hT]
  | some T =>
    rw [hT] at h
    obtain ⟨⟨res, d⟩, hrun, h⟩ := Option.bind_eq_some_iff.mp h
    dsimp only at h
    split at h
    · exact absurd h (by simp)
    · cases h
      rw [cryptoDecryptInput_eq cr (by simp)] at hrun
      exact ⟨(decryptLoop_frame cr hrun).2.1, fun hnone => absurd hnone (by simp)⟩

/-- Skipping bytes: nothing is lost unless `skip_bytes` is negative. -/
theorem readerSkip_frame (c : Conn) :
    ReaderFrame c (readerSkip c).1 ∧
      (0 ≤ c.skipBytes →
        (readerSkip c).1 = { c with skipBytes := (readerSkip c).1.skipBytes } ∧
          0 ≤ (readerSkip c).1.skipBytes) := by
  unfold readerSkip
  by_cases hneg : c.skipBytes < 0
  · rw [if_pos hneg]
    exact ⟨rfl, fun h => absurd hneg (not_lt.mpr h)⟩
  · rw [if_neg hneg]
    split
    · split
      · exact ⟨rfl, fun _ => ⟨rfl, le_rfl⟩⟩
      · exact ⟨rfl, fun h => ⟨rfl, h⟩⟩
    · exact ⟨rfl, fun h => ⟨rfl, h⟩⟩

/-- **The reader** keeps a connection without cipher complete: new bytes are appended,
and none is lost unless some are to be skipped. -/
theorem cpuTcpServerReader_frame {cr : Crypto} {bytes : Bytes} {g g' : Globals} {c c' : Conn}
    {b : Bool} (h : cpuTcpServerReader cr bytes g c = some (g', c', b)) :
    ReaderFrame c c' ∧
      (c.type = .extServer → c.crypto = none → 0 ≤ c.skipBytes →
        c'.crypto = none ∧ c'.inp = c.inp ++ bytes ∧ 0 ≤ c'.skipBytes ∧
          c'.coverQueue = c.coverQueue) := by
  obtain ⟨c₁, htake, h⟩ := Option.bind_eq_some_iff.mp h
  obtain ⟨hframe₁, hplain⟩ := readerTake_frame htake
  obtain ⟨hframe₂, hkeep⟩ := readerSkip_frame c₁
  obtain ⟨hframe₃, hext⟩ := readerLoop_frame g (readerSkip c₁).1
  split at h
  · cases h
    refine ⟨hframe₁.readerFrame, fun _ hnone hskip => ?_⟩
    rw [hplain hnone]
    exact ⟨hnone, rfl, hskip, rfl⟩
  · dsimp only at h
    have hc' : c' = (readerSkip c₁).1 ∨ c' = (readerLoop g (readerSkip c₁).1).2.1 := by
      split at h
      · exact Or.inr (congrArg (fun r => r.2.1) (Option.some.inj h)).symm
      · exact Or.inl (congrArg (fun r => r.2.1) (Option.some.inj h)).symm
    constructor
    · rcases hc' with rfl | rfl
      · exact hframe₁.readerFrame.trans hframe₂
      · exact (hframe₁.readerFrame.trans hframe₂).trans hframe₃
    · intro htype hnone hskip
      have hc₁ := hplain hnone
      have htype₁ : (readerSkip c₁).1.type = .extServer := by
        rw [hframe₂.fields.1, hc₁]
        exact htype
      have hsame : c' = (readerSkip c₁).1 := by
        rcases hc' with rfl | rfl
        · rfl
        · exact hext htype₁
      have hskip₁ : 0 ≤ c₁.skipBytes := by
        rw [hc₁]
        exact hskip
      obtain ⟨hall, hpos⟩ := hkeep hskip₁
      rw [hsame, hall, hc₁]
      exact ⟨hnone, rfl, hc₁ ▸ hpos, rfl⟩

/-! ## The steps of the machine -/

/-- **Reading.** -/
theorem step_read_cases {cfg : ExtConfig} {s s' : ConnState} {bytes : Bytes}
    (h : s.step cfg (.read bytes) = some s') :
    s'.received = s.received ++ bytes ∧ ReaderFrame s.conn s'.conn ∧
      (s.conn.type = .extServer → s.conn.crypto = none → 0 ≤ s.conn.skipBytes →
        s'.conn.crypto = none ∧ s'.conn.inp = s.conn.inp ++ bytes ∧ 0 ≤ s'.conn.skipBytes ∧
          s'.conn.coverQueue = s.conn.coverQueue) := by
  simp only [ConnState.step] at h
  split at h
  · exact absurd h (by simp)
  · obtain ⟨⟨g, c, b⟩, hread, h⟩ := Option.bind_eq_some_iff.mp h
    cases h
    exact ⟨rfl, cpuTcpServerReader_frame hread⟩

/-- **A step of the parser** is a pass that goes round again, or one that returns to the
reader. -/
theorem step_pass_cases {cfg : ExtConfig} {s s' : ConnState} {w : World}
    (h : s.step cfg (.pass w) = some s') :
    s.parsing = true ∧ s'.received = s.received ∧ ∃ p g c,
      parsePass cfg w s.globals s.conn = some (p, g, c) ∧
      ((p = .again ∧ s'.conn = c) ∨ ∃ res, p = .ret res ∧ s'.conn = (readerReturn res g c).2.1) := by
  simp only [ConnState.step] at h
  split at h
  · rename_i hparsing
    refine ⟨hparsing, ?_⟩
    obtain ⟨⟨p, g, c⟩, hpass, h⟩ := Option.bind_eq_some_iff.mp h
    cases p with
    | again =>
      cases h
      exact ⟨rfl, .again, g, c, hpass, Or.inl ⟨rfl, rfl⟩⟩
    | ret res =>
      cases h
      exact ⟨rfl, .ret res, g, c, hpass, Or.inr ⟨res, rfl, rfl⟩⟩
  · exact absurd h (by simp)

/-- **The alarm** hands over a connection in the handshake, when there is a default
domain; otherwise it leaves the input alone. -/
theorem step_alarm_cases {cfg : ExtConfig} {s s' : ConnState} {w : World}
    (h : s.step cfg (.alarm w) = some s') :
    s'.received = s.received ∧
      ((s.conn.type = .extServer ∧ s.conn.inPacketNum = -3 ∧
          cfg.domains.allowOnlyTls = true ∧ s'.conn = s.conn.handedOver) ∨
        (InputFrame s.conn s'.conn ∧ s'.conn.inp = s.conn.inp ∧
          (s.conn.crypto = none → s'.conn.crypto = none))) := by
  have hsame : InputFrame s.conn s.conn ∧ s.conn.inp = s.conn.inp ∧
      (s.conn.crypto = none → s.conn.crypto = none) := ⟨InputFrame.refl _, rfl, id⟩
  simp only [ConnState.step] at h
  split at h
  · exact absurd h (by simp)
  cases h
  refine ⟨rfl, ?_⟩
  dsimp only
  unfold tcpRpcsExtAlarm
  split
  · exact Or.inr hsame
  split
  · rename_i info htype hinfo
    split
    · rename_i hnum
      rcases proxyConnection_cases w info s.globals s.conn with ⟨g', hp⟩ | ⟨c', hp, hframe⟩
      · rw [hp]
        refine Or.inl ⟨htype, hnum, ?_, rfl⟩
        rw [cfg.domains.coupled, hinfo]
        rfl
      · rw [hp]
        exact Or.inr hframe
    · exact Or.inr hsame
  · exact Or.inr hsame

/-- **Other threads** leave everything but the flags alone. -/
theorem step_others_cases {cfg : ExtConfig} {s s' : ConnState} {f : ConnFlags} {g : Globals}
    (h : s.step cfg (.others f g) = some s') :
    s'.received = s.received ∧ s'.conn = { s.conn with flags := s'.conn.flags } := by
  cases h
  exact ⟨rfl, rfl⟩

end MtprotoProxy
