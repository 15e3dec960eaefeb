/-
# The packets of a connection

After the handshake the parser cuts packets off the input.  `nextPacket` says which packet
the next pass cuts off, and `PacketOk` what has to hold of it: in padded mode it has at
least four bytes, and the packet number has not wrapped around.  A pass fails no assertion
exactly then (`parsePass_isSome_iff`), in every state of every run (`packetLoopSafe_iff`).
-/
import MtprotoProxy.OpenProxy

namespace MtprotoProxy

open CLib

/-- The length of the packet that the next pass cuts off the input: its length word is
well-formed, and all of its bytes are there. -/
def nextPacket (cfg : ExtConfig) (c : Conn) : Option ℕ :=
  if passReads c then
    match packetLength c.rpcFlags (le32 c.inp) with
    | none => none
    | some (_, packetLen, packetLenBytes) =>
      if isBadLength cfg c.rpcFlags packetLen then none
      else if c.inp.length < packetLen + packetLenBytes then none
      else some packetLen
  else none

/-- The next packet, if there is one, leaves four bytes for its type, and its number is not
negative. -/
def PacketOk (cfg : ExtConfig) (c : Conn) : Prop :=
  ∀ n, nextPacket cfg c = some n → (c.rpcFlags.pad = true → 4 ≤ n) ∧ 0 ≤ c.inPacketNum

/-- The passes of the packet loop fail no assertion. -/
def PacketLoopSafe (cfg : ExtConfig) (s : ConnState) (e : ConnEvent) : Prop :=
  ∀ w, e = .pass w → s.parsing = true → s.conn.inPacketNum ≠ -3 →
    (parsePass cfg w s.globals s.conn).isSome = true

/-- The passes of the packet loop find good packets. -/
def PacketLoopOk (cfg : ExtConfig) (s : ConnState) (e : ConnEvent) : Prop :=
  ∀ w, e = .pass w → s.parsing = true → s.conn.inPacketNum ≠ -3 → PacketOk cfg s.conn

/-! ## One packet -/

/-- The message of a complete packet: all of it, or in padded mode what a multiple of four
bytes leaves. -/
theorem length_packetMessage {f : RpcFlags} {raw : Bytes} {n : ℕ} (h : n ≤ raw.length) :
    (packetMessage f raw n).length = if f.pad then n - n % 4 else n := by
  unfold packetMessage
  split
  · rw [List.length_take, List.length_take]
    omega
  · rw [List.length_take]
    omega

/-- **The type of a packet** can be fetched unless the packet is padded and shorter than
four bytes. -/
theorem fetch_packetType_iff {cfg : ExtConfig} {f : RpcFlags} {raw : Bytes} {n : ℕ}
    (hlen : n ≤ raw.length) (hgood : isBadLength cfg f n = false) :
    (fetchLookup (packetMessage f raw n) 4).isSome = true ↔ (f.pad = true → 4 ≤ n) := by
  simp only [isBadLength, Bool.decide_or, Bool.or_eq_false_iff, decide_eq_false_iff_not,
    Bool.decide_and, Bool.and_eq_false_iff] at hgood
  obtain ⟨hpos, -, hfour, -⟩ := hgood
  unfold fetchLookup
  rw [length_packetMessage hlen]
  cases hpad : f.pad with
  | true =>
    simp only [if_true, forall_const]
    split <;> simp <;> omega
  | false =>
    have h4 : 4 ≤ n := by
      rw [hpad] at hfour
      simp at hfour
      omega
    simp [h4]

/-- After a handshake the number must not be negative. -/
theorem packetNumber_of_ne {n : ℤ} (h : n ≠ -3) :
    packetNumber n = if n < 0 then none else some n := by
  unfold packetNumber
  rw [if_neg h]

/-- **Taking a packet** fails no assertion exactly when its type can be fetched and its
number is not negative. -/
theorem takePacket_isSome_iff {cfg : ExtConfig} {w : World} {g : Globals} {c : Conn} {n k : ℕ}
    (hnum : c.inPacketNum ≠ -3) (hlen : n + k ≤ c.inp.length)
    (hgood : isBadLength cfg c.rpcFlags n = false) :
    (takePacket w g c n k).isSome = true ↔
      (c.rpcFlags.pad = true → 4 ≤ n) ∧ 0 ≤ c.inPacketNum := by
  have hraw : n ≤ (c.inp.drop k).length := by
    rw [List.length_drop]
    omega
  have hnumber : (packetNumber c.inPacketNum).isSome = true ↔ 0 ≤ c.inPacketNum := by
    rw [packetNumber_of_ne hnum]
    split
    · rename_i hneg
      simpa using hneg
    · rename_i hpos
      simpa using hpos
  rw [← fetch_packetType_iff hraw hgood, ← hnumber]
  unfold takePacket
  rw [skipData_of_le (by omega)]
  simp only [some_bind]
  cases fetchLookup (packetMessage c.rpcFlags (c.inp.drop k) n) 4 with
  | none => simp
  | some packetType =>
    cases packetNumber c.inPacketNum with
    | none => simp
    | some num => simp

/-- **A pass over packets** fails no assertion exactly when the next packet is good. -/
theorem parsePass_isSome_iff {cfg : ExtConfig} {c : Conn} (w : World) (g : Globals)
    (hnum : c.inPacketNum ≠ -3) :
    (parsePass cfg w g c).isSome = true ↔ PacketOk cfg c := by
  cases hreads : passReads c with
  | false =>
    obtain ⟨res, -, hwait⟩ := parsePass_of_not_reads hreads cfg w g
    rw [hwait]
    simp [PacketOk, nextPacket, hreads]
  | true =>
    rw [parsePass_of_reads hreads, if_neg hnum]
    unfold PacketOk nextPacket packetPass
    rw [hreads, if_pos rfl]
    cases packetLength c.rpcFlags (le32 c.inp) with
    | none => simp
    | some r =>
      obtain ⟨quickack, packetLen, packetLenBytes⟩ := r
      dsimp only
      cases hbad : isBadLength cfg c.rpcFlags packetLen with
      | true => simp
      | false =>
        rw [if_neg Bool.false_ne_true, if_neg Bool.false_ne_true]
        by_cases hshort : c.inp.length < packetLen + packetLenBytes
        · rw [if_pos hshort, if_pos hshort]
          simp
        · rw [if_neg hshort, if_neg hshort]
          simp only [Option.some.injEq, forall_eq']
          exact takePacket_isSome_iff (c := { c with
            rpcFlags := { c.rpcFlags with quickack := quickack } }) hnum (not_lt.mp hshort) hbad

/-! ## The packet number -/

theorem inPacketNum_executePacket (w : World) (msg : Bytes) (c : Conn) :
    (executePacket w msg c).inPacketNum = c.inPacketNum := by
  unfold executePacket
  split
  · split <;> rfl
  · dsimp only
    split <;> rfl

/-- Outside the handshake, a pass keeps the packet number or counts one packet. -/
theorem inPacketNum_packetPass {cfg : ExtConfig} {w : World} {g g' : Globals} {c c' : Conn}
    {word : ℕ} {p : Pass} (hnum : c.inPacketNum ≠ -3)
    (h : packetPass cfg w g c word = some (p, g', c')) :
    c'.inPacketNum = c.inPacketNum ∨
      (0 ≤ c.inPacketNum ∧ c'.inPacketNum = wrap32 (c.inPacketNum + 1)) := by
  unfold packetPass at h
  split at h
  · cases h
    exact Or.inl rfl
  dsimp only at h
  split at h
  · cases h
    exact Or.inl rfl
  split at h
  · cases h
    exact Or.inl rfl
  · right
    obtain ⟨raw, -, h⟩ := Option.bind_eq_some_iff.mp h
    obtain ⟨packetType, -, h⟩ := Option.bind_eq_some_iff.mp h
    obtain ⟨num, hnumber, h⟩ := Option.bind_eq_some_iff.mp h
    cases h
    dsimp only
    rw [inPacketNum_executePacket]
    rw [packetNumber_of_ne hnum] at hnumber
    split at hnumber
    · exact absurd hnumber (by simp)
    · rename_i hpos
      rw [← Option.some.inj hnumber]
      exact ⟨not_lt.mp hpos, rfl⟩

/-- **One step** keeps the packet number, ends the handshake, or counts one packet. -/
theorem inPacketNum_step {cfg : ExtConfig} {s s' : ConnState} {e : ConnEvent}
    (h : s.step cfg e = some s') :
    s'.conn.inPacketNum = s.conn.inPacketNum ∨
      (s.conn.inPacketNum = -3 ∧ s'.conn.inPacketNum = 0) ∨
      (0 ≤ s.conn.inPacketNum ∧ s'.conn.inPacketNum = wrap32 (s.conn.inPacketNum + 1)) := by
  cases e with
  | read bytes => exact Or.inl (step_read_cases h).2.1.fields.2.2.1
  | alarm w =>
    rcases (step_alarm_cases h).2 with ⟨-, -, -, hover⟩ | ⟨hframe, -⟩
    · rw [hover]
      exact Or.inl rfl
    · exact Or.inl hframe.fields.2.2.1
  | others f g =>
    rw [(step_others_cases h).2]
    exact Or.inl rfl
  | pass w =>
    obtain ⟨-, -, p, g, c, hpass, hend⟩ := step_pass_cases h
    have hsame : s'.conn.inPacketNum = c.inPacketNum := by
      rcases hend with ⟨-, hc⟩ | ⟨res, -, hc⟩
      · rw [hc]
      · rw [hc, (readerReturn_frame res g c).fields.2.2.1]
    rw [hsame]
    by_cases hnum : s.conn.inPacketNum = -3
    · cases parsePass_move hnum hpass with
      | wait _ => exact Or.inl rfl
      | fail hframe _ => exact Or.inl hframe.fields.2.2.1
      | answer => exact Or.inl rfl
      | @handOver g₁ c₁ hframe _ =>
        exact Or.inl (hframe.fields.2.2.1 : c₁.inPacketNum = _)
      | skip hframe _ => exact Or.inl hframe.fields.2.2.1
      | enter hconn hheader =>
        exact Or.inr (Or.inl
          ⟨hnum, (fields_of_again (headerConn_spec hconn).2 hheader).1⟩)
    · cases hreads : passReads s.conn with
      | false =>
        obtain ⟨res, -, hwait⟩ := parsePass_of_not_reads hreads cfg w s.globals
        rw [hwait] at hpass
        cases hpass
        exact Or.inl rfl
      | true =>
        rw [parsePass_of_reads hreads, if_neg hnum] at hpass
        rcases inPacketNum_packetPass hnum hpass with hkeep | hcount
        · exact Or.inl hkeep
        · exact Or.inr (Or.inr hcount)

/-! ## Runs -/

/-- **No crash in the packet loop, up to the exception.**  Along every run of a connection,
with any bytes in any pieces: the passes after the handshake fail no assertion, if and only
if every packet they cut off is good. -/
theorem packetLoopSafe_iff (cfg : ExtConfig) (g : Globals) (ourPort : ℕ) (peer : PeerAddr)
    (es : List ConnEvent) :
    Runs.Along (ConnState.step cfg) (PacketLoopSafe cfg) (ConnState.accepted g ourPort peer) es
      ↔ Runs.Along (ConnState.step cfg) (PacketLoopOk cfg)
          (ConnState.accepted g ourPort peer) es := by
  refine Runs.along_congr (P := fun _ => True) (fun _ _ _ _ _ => trivial) ?_ trivial
  intro s e _
  constructor
  · exact fun h w hw hparsing hnum =>
      (parsePass_isSome_iff w s.globals hnum).mp (h w hw hparsing hnum)
  · exact fun h w hw hparsing hnum =>
      (parsePass_isSome_iff w s.globals hnum).mpr (h w hw hparsing hnum)

/-- In padded mode a packet of one byte fails the assertion on its type. -/
theorem not_packetLoopSafe_short :
    ¬ Runs.Along (ConnState.step (ExtConfig.plain false))
      (PacketLoopSafe (ExtConfig.plain false))
      (ConnState.accepted (Globals.oneSecret 1) 443 PeerAddr.unknown)
      [.read (plainHeader 0xdd ++ [1, 0, 0, 0] ++ List.replicate 8 0), .pass World.calm,
        .pass World.calm] := by
  intro h
  have hcrash : (Runs.run (ConnState.step (ExtConfig.plain false))
      (ConnState.accepted (Globals.oneSecret 1) 443 PeerAddr.unknown)
      [.read (plainHeader 0xdd ++ [1, 0, 0, 0] ++ List.replicate 8 0), .pass World.calm]).map
        (fun s => (s.parsing, s.conn.inPacketNum,
          (parsePass (ExtConfig.plain false) World.calm s.globals s.conn).isSome))
      = some (true, 0, false) := by decide +kernel
  obtain ⟨s, hrun, hs⟩ := Option.map_eq_some_iff.mp hcrash
  obtain ⟨hparsing, hnum, hnone⟩ : s.parsing = true ∧ s.conn.inPacketNum = 0 ∧
      (parsePass (ExtConfig.plain false) World.calm s.globals s.conn).isSome = false := by
    simpa using hs
  have hsplit : Runs.Along (ConnState.step (ExtConfig.plain false))
      (PacketLoopSafe (ExtConfig.plain false))
      (ConnState.accepted (Globals.oneSecret 1) 443 PeerAddr.unknown)
      ([.read (plainHeader 0xdd ++ [1, 0, 0, 0] ++ List.replicate 8 0), .pass World.calm] ++
        [.pass World.calm]) := h
  have hlast := (Runs.along_append.mp hsplit).2 s hrun
  have hsafe := hlast.1 World.calm rfl hparsing (by rw [hnum]; norm_num)
  rw [hnone] at hsafe
  exact absurd hsafe (by decide)

end MtprotoProxy
