/-
# The hand-over to a cover domain

A connection in the handshake may be handed to `proxy_connection`: by one of the exits of
the parser, or by the alarm.  `CoverInv` says what holds until then: outside fake TLS
nothing has been sent to the client, and all that came from it is still in the input;
inside fake TLS the ServerHello has been sent.  So the hand-over is transparent exactly when
it happens outside fake TLS (`transparent_iff`).
-/
import MtprotoProxy.PacketLoop

namespace MtprotoProxy

open CLib

/-- A step that hands over a connection in the handshake queues to the cover domain exactly
the bytes that were received, and nothing has been sent to the client. -/
def TransparentHandOver (cfg : ExtConfig) (s : ConnState) (e : ConnEvent) : Prop :=
  ∀ s', s.step cfg e = some s' → s.conn.inPacketNum = -3 → s.conn.type = .extServer →
    s'.conn.type = .proxyPass →
    s'.conn.coverQueue.flatten = s'.received ∧ s'.conn.outQueue = []

/-- A step that hands over a connection in the handshake does so before `C_IS_TLS` is
set. -/
def PlainHandOver (cfg : ExtConfig) (s : ConnState) (e : ConnEvent) : Prop :=
  ∀ s', s.step cfg e = some s' → s.conn.inPacketNum = -3 → s.conn.type = .extServer →
    s'.conn.type = .proxyPass → s.conn.isTls = false

/-! ## The hand-over -/

variable {s s' : ConnState} {e : ConnEvent}

/-- **The step that hands over** moves all of the input into the queue to the cover
domain; outside TLS this is the input before the step. -/
theorem handOver_cases {cfg : ExtConfig} (h : s.step cfg e = some s')
    (hnum : s.conn.inPacketNum = -3)
    (htype : s.conn.type = .extServer) (hover : s'.conn.type = .proxyPass) :
    ∃ c, InputFrame s.conn c ∧
      (s.conn.isTls = false → c.inp = s.conn.inp ∧ cfg.domains.allowOnlyTls = true) ∧
      s'.conn = c.handedOver ∧ s'.received = s.received := by
  have hkeep : ∀ {d : Conn}, d.type = s.conn.type → s'.conn.type = d.type → False := by
    intro d hd hs'
    rw [hs', hd, htype] at hover
    exact absurd hover (by decide)
  cases e with
  | read bytes => exact (hkeep rfl (step_read_cases h).2.1.fields.1).elim
  | alarm w =>
    obtain ⟨hrecv, hcases⟩ := step_alarm_cases h
    rcases hcases with ⟨-, -, honly, hs'⟩ | ⟨hframe, -⟩
    · exact ⟨s.conn, InputFrame.refl _, fun _ => ⟨rfl, honly⟩, hs', hrecv⟩
    · exact (hkeep rfl hframe.fields.1).elim
  | others f g =>
    have hs' := (step_others_cases h).2
    exact (hkeep (d := s.conn) rfl (by rw [hs'])).elim
  | pass w =>
    obtain ⟨-, hrecv, p, g, c, hpass, hend⟩ := step_pass_cases h
    have hsame : s'.conn.type = c.type := by
      rcases hend with ⟨-, hc⟩ | ⟨res, -, hc⟩
      · rw [hc]
      · rw [hc, (readerReturn_frame res g c).fields.1]
    cases parsePass_move hnum hpass with
    | wait _ => exact (hkeep rfl hsame).elim
    | fail hframe _ => exact (hkeep hframe.fields.1 hsame).elim
    | answer => exact (hkeep rfl hsame).elim
    | @handOver g₁ c₁ hframe hinp =>
      refine ⟨c₁, hframe, hinp, ?_, hrecv⟩
      rcases hend with ⟨hp, -⟩ | ⟨res, hp, hc⟩
      · exact absurd hp (by simp)
      · cases hp
        rw [hc, readerReturn, if_pos rfl, readerLoop_of_nil rfl]
    | skip hframe _ => exact (hkeep hframe.fields.1 hsame).elim
    | enter hconn hheader =>
      obtain ⟨hframe, hready⟩ := headerConn_spec hconn
      exact (hkeep ((fields_of_again hready hheader).2.trans hframe.fields.1) hsame).elim

/-! ## The invariant -/

/-- What holds of a connection until it is handed over. -/
structure CoverInv (cfg : ExtConfig) (s : ConnState) : Prop where
  num : IsInt32 s.conn.inPacketNum
  plain : s.conn.type = .extServer → s.conn.inPacketNum = -3 → s.conn.isTls = false →
    cfg.domains.allowOnlyTls = true →
    s.conn.crypto = none ∧ s.conn.outQueue = [] ∧ s.conn.coverQueue = [] ∧
      s.conn.inp = s.received ∧ 0 ≤ s.conn.skipBytes
  answered : s.conn.inPacketNum = -3 → s.conn.isTls = true → s.conn.outQueue ≠ []

theorem coverInv_accepted (cfg : ExtConfig) (g : Globals) (ourPort : ℕ) (peer : PeerAddr) :
    CoverInv cfg (ConnState.accepted g ourPort peer) where
  num := by constructor <;> norm_num [ConnState.accepted, Conn.accepted]
  plain := fun _ _ _ _ => ⟨rfl, rfl, rfl, rfl, le_rfl⟩
  answered := fun _ htls => absurd htls (by simp [ConnState.accepted, Conn.accepted])

/-- The packet number stays an `int`, and never gets back into the handshake. -/
theorem handshake_of_step {cfg : ExtConfig} (hint : IsInt32 s.conn.inPacketNum)
    (h : s.step cfg e = some s') :
    IsInt32 s'.conn.inPacketNum ∧
      (s'.conn.inPacketNum = -3 → s.conn.inPacketNum = -3) := by
  obtain ⟨hlo, hhi⟩ := hint
  rcases inPacketNum_step h with hkeep | ⟨-, hzero⟩ | ⟨hpos, hcount⟩
  · rw [hkeep]
    exact ⟨⟨hlo, hhi⟩, id⟩
  · rw [hzero]
    exact ⟨⟨by norm_num, by norm_num⟩, fun h0 => absurd h0 (by norm_num)⟩
  · rw [hcount]
    refine ⟨isInt32_wrap32 _, fun hback => ?_⟩
    by_cases hfit : s.conn.inPacketNum + 1 < 2 ^ 31
    · rw [wrap32_of_isInt32 ⟨by omega, hfit⟩] at hback
      omega
    · rw [wrap32_of_ge (not_lt.mp hfit) (by omega)] at hback
      omega

/-- **One step inside fake TLS**: what has been sent stays sent. -/
theorem CoverInv.answered_step {cfg : ExtConfig} (hs : CoverInv cfg s) (h : s.step cfg e = some s')
    (hnum : s.conn.inPacketNum = -3)
    (hnum' : s'.conn.inPacketNum = -3) (htls' : s'.conn.isTls = true) :
    s'.conn.outQueue ≠ [] := by
  have hkeep : ∀ {d : Conn}, d.isTls = s.conn.isTls → d.outQueue = s.conn.outQueue →
      s'.conn.isTls = d.isTls → s'.conn.outQueue = d.outQueue → s'.conn.outQueue ≠ [] := by
    intro d hd hdq hs' hs'q
    rw [hs'q, hdq]
    exact hs.answered hnum (by rw [← hd, ← hs', htls'])
  cases e with
  | read bytes =>
    obtain ⟨-, htls, -, hout, -⟩ := (step_read_cases h).2.1.fields
    exact hkeep rfl rfl htls hout
  | alarm w =>
    rcases (step_alarm_cases h).2 with ⟨-, -, -, hs'⟩ | ⟨hframe, -⟩
    · exact hkeep (d := s.conn) rfl rfl (by rw [hs']; rfl) (by rw [hs']; rfl)
    · obtain ⟨-, htls, -, hout, -⟩ := hframe.fields
      exact hkeep rfl rfl htls hout
  | others f g =>
    have hs' := (step_others_cases h).2
    exact hkeep (d := s.conn) rfl rfl (by rw [hs']) (by rw [hs'])
  | pass w =>
    obtain ⟨-, -, p, g, c, hpass, hend⟩ := step_pass_cases h
    obtain ⟨htls, hout, hnum_c⟩ : s'.conn.isTls = c.isTls ∧ s'.conn.outQueue = c.outQueue ∧
        s'.conn.inPacketNum = c.inPacketNum := by
      rcases hend with ⟨-, hc⟩ | ⟨res, -, hc⟩
      · rw [hc]
        exact ⟨rfl, rfl, rfl⟩
      · obtain ⟨-, htls, hn, hout, -⟩ := (readerReturn_frame res g c).fields
        rw [hc]
        exact ⟨htls, hout, hn⟩
    cases parsePass_move hnum hpass with
    | wait _ => exact hkeep rfl rfl htls hout
    | fail hframe _ => exact hkeep hframe.fields.2.1 hframe.fields.2.2.2.1 htls hout
    | answer =>
      rw [hout]
      simp
    | handOver hframe _ => exact hkeep hframe.fields.2.1 hframe.fields.2.2.2.1 htls hout
    | skip hframe _ => exact hkeep hframe.fields.2.1 hframe.fields.2.2.2.1 htls hout
    | enter hconn hheader =>
      rw [hnum_c, (fields_of_again (headerConn_spec hconn).2 hheader).1] at hnum'
      exact absurd hnum' (by norm_num)

/-- **One step outside fake TLS**: in TLS-only mode nothing is sent and no byte is lost. -/
theorem CoverInv.plain_step {cfg : ExtConfig} (hs : CoverInv cfg s) (h : s.step cfg e = some s')
    (hnum : s.conn.inPacketNum = -3)
    (hnum' : s'.conn.inPacketNum = -3) (htype' : s'.conn.type = .extServer)
    (htls' : s'.conn.isTls = false) (honly : cfg.domains.allowOnlyTls = true) :
    s'.conn.crypto = none ∧ s'.conn.outQueue = [] ∧ s'.conn.coverQueue = [] ∧
      s'.conn.inp = s'.received ∧ 0 ≤ s'.conn.skipBytes := by
  cases e with
  | read bytes =>
    obtain ⟨hrecv, hframe, hplain⟩ := step_read_cases h
    obtain ⟨htype, htls, -, hout, -⟩ := hframe.fields
    rw [htype] at htype'
    rw [htls] at htls'
    obtain ⟨hcrypto, hq, hcover, hinp, hskip⟩ := hs.plain htype' hnum htls' honly
    obtain ⟨hcrypto', hinp', hskip', hcover'⟩ := hplain htype' hcrypto hskip
    refine ⟨hcrypto', hout.trans hq, hcover'.trans hcover, ?_, hskip'⟩
    rw [hinp', hinp, hrecv]
  | alarm w =>
    obtain ⟨hrecv, hcases⟩ := step_alarm_cases h
    rcases hcases with ⟨-, -, -, hs'⟩ | ⟨hframe, hinp', hcrypto'⟩
    · rw [hs'] at htype'
      exact absurd htype' (by simp [Conn.handedOver])
    · obtain ⟨htype, htls, -, hout, hcov, hsk⟩ := hframe.fields
      rw [htype] at htype'
      rw [htls] at htls'
      obtain ⟨hcrypto, hq, hcover, hinp, hskip⟩ := hs.plain htype' hnum htls' honly
      exact ⟨hcrypto' hcrypto, hout.trans hq, hcov.trans hcover, by rw [hinp', hinp, hrecv],
        hsk ▸ hskip⟩
  | others f g =>
    obtain ⟨hrecv, hs'⟩ := step_others_cases h
    rw [hs'] at htype' htls' ⊢
    rw [hrecv]
    exact hs.plain htype' hnum htls' honly
  | pass w =>
    obtain ⟨-, hrecv, p, g, c, hpass, hend⟩ := step_pass_cases h
    have hmove := parsePass_move hnum hpass
    -- a pass that returns a number `res ≥ 0` skips nothing
    have hstay : ∀ {res : ℤ}, 0 ≤ res → p = .ret res → InputFrame s.conn c →
        (s.conn.isTls = false →
          c.inp = s.conn.inp ∧ (s.conn.crypto = none → c.crypto = none)) →
        s'.conn.crypto = none ∧ s'.conn.outQueue = [] ∧ s'.conn.coverQueue = [] ∧
          s'.conn.inp = s'.received ∧ 0 ≤ s'.conn.skipBytes := by
      intro res hres hp hframe hkeep
      rcases hend with ⟨hp', -⟩ | ⟨res', hp', hc⟩
      · exact absurd (hp.symm.trans hp') (by simp)
      cases hp.symm.trans hp'
      obtain ⟨htype, htls, -, hout, -⟩ := (readerReturn_frame res g c).fields
      obtain ⟨htype₁, htls₁, -, hout₁, hcov₁, hskip₁⟩ := hframe.fields
      rw [hc, htype] at htype'
      rw [hc, htls, htls₁] at htls'
      obtain ⟨hcrypto, hq, hcover, hinp, hskip⟩ :=
        hs.plain (htype₁ ▸ htype') hnum htls' honly
      obtain ⟨hinp₁, hcrypto₁⟩ := hkeep htls'
      obtain ⟨k, hk, hback⟩ := readerReturn_nonneg g htype' hres (by rw [hskip₁]; exact hskip)
      rw [hc, hback, hrecv]
      exact ⟨hcrypto₁ hcrypto, hout₁.trans hq, hcov₁.trans hcover, hinp₁.trans hinp, hk⟩
    have hsame : s'.conn.type = c.type ∧ s'.conn.isTls = c.isTls ∧
        s'.conn.inPacketNum = c.inPacketNum := by
      rcases hend with ⟨-, hc⟩ | ⟨res, -, hc⟩
      · rw [hc]
        exact ⟨rfl, rfl, rfl⟩
      · obtain ⟨htype, htls, hn, -⟩ := (readerReturn_frame res g c).fields
        rw [hc]
        exact ⟨htype, htls, hn⟩
    obtain ⟨htype, htls, hn⟩ := hsame
    cases hmove with
    | wait hres => exact hstay hres.le rfl (InputFrame.refl _) (fun _ => ⟨rfl, id⟩)
    | fail hframe hkeep => exact hstay le_rfl rfl hframe hkeep
    | answer => exact absurd (htls.symm.trans htls') (by simp)
    | handOver hframe _ => exact absurd (htype.symm.trans htype') (by simp [Conn.handedOver])
    | skip hframe hplain =>
      rw [htls, hframe.fields.2.1] at htls'
      exact absurd ((hplain htls').symm.trans honly) (by decide)
    | enter hconn hheader =>
      rw [hn, (fields_of_again (headerConn_spec hconn).2 hheader).1] at hnum'
      exact absurd hnum' (by norm_num)

/-- **The invariant is kept** by every step. -/
theorem CoverInv.step {cfg : ExtConfig} (hs : CoverInv cfg s) (h : s.step cfg e = some s') :
    CoverInv cfg s' := by
  obtain ⟨hint, hback⟩ := handshake_of_step hs.num h
  refine ⟨hint, ?_, ?_⟩
  · intro htype hnum htls honly
    exact hs.plain_step h (hback hnum) hnum htype htls honly
  · intro hnum htls
    exact hs.answered_step h (hback hnum) hnum htls

/-! ## Runs -/

/-- **The fallback is transparent before a ServerHello, and only then.**  Along every run
of a connection, with any bytes in any pieces and alarms at any moment: every hand-over
queues to the cover domain exactly what was received, with nothing sent to the client, if
and only if every hand-over happens before `C_IS_TLS` is set. -/
theorem transparent_iff (cfg : ExtConfig) (g : Globals) (ourPort : ℕ) (peer : PeerAddr)
    (es : List ConnEvent) :
    Runs.Along (ConnState.step cfg) (TransparentHandOver cfg)
        (ConnState.accepted g ourPort peer) es
      ↔ Runs.Along (ConnState.step cfg) (PlainHandOver cfg)
          (ConnState.accepted g ourPort peer) es := by
  refine Runs.along_congr (P := CoverInv cfg) (fun s e s' hs h => hs.step h) ?_
    (coverInv_accepted cfg g ourPort peer)
  intro s e hs
  constructor
  · -- inside fake TLS the ServerHello has been sent
    intro htransparent s' h hnum htype hover
    obtain ⟨-, hout⟩ := htransparent s' h hnum htype hover
    obtain ⟨c, hframe, -, hs', -⟩ := handOver_cases h hnum htype hover
    rw [hs'] at hout
    by_contra htls
    apply hs.answered hnum (by simpa using htls)
    rw [← hframe.fields.2.2.2.1]
    exact hout
  · intro hplain s' h hnum htype hover
    have htls := hplain s' h hnum htype hover
    obtain ⟨c, hframe, hinp, hs', hrecv⟩ := handOver_cases h hnum htype hover
    obtain ⟨hinp₁, honly⟩ := hinp htls
    obtain ⟨-, hq, hcover, hall, -⟩ := hs.plain htype hnum htls honly
    rw [hs', hrecv]
    constructor
    · show (c.coverQueue ++ [c.inp]).flatten = s.received
      rw [hframe.fields.2.2.2.2.1, hcover, hinp₁, hall]
      simp
    · exact hframe.fields.2.2.2.1.trans hq

/-- A ClientHello of 517 bytes for the domain of the sample configuration, with a zero
random. -/
def sampleHello : Bytes :=
  [0x16, 0x03, 0x01, 0x02, 0x00] ++ List.replicate 71 0 ++ [0x00, 0x02, 0x13, 0x01] ++
    List.replicate 4 0 ++ [0x00, 0x00, 0x00, 0x06, 0x00, 0x04, 0x00, 0x00, 0x01, 97] ++
    List.replicate 423 0

/-- When the alarm goes off after the ServerHello, the cover domain gets none of the
client's bytes. -/
theorem not_transparent_alarm :
    ¬ Runs.Along (ConnState.step (ExtConfig.plain true))
      (TransparentHandOver (ExtConfig.plain true))
      (ConnState.accepted (Globals.oneSecret 1) 443 PeerAddr.unknown)
      [.read sampleHello, .pass World.calm, .alarm World.calm] := by
  intro h
  have hanswered : (Runs.run (ConnState.step (ExtConfig.plain true))
      (ConnState.accepted (Globals.oneSecret 1) 443 PeerAddr.unknown)
      [.read sampleHello, .pass World.calm]).map
        (fun s => (s.conn.inPacketNum, s.conn.type,
          (s.step (ExtConfig.plain true) (.alarm World.calm)).map
            (fun s' => (s'.conn.type, s'.conn.outQueue.length))))
      = some (-3, .extServer, some (.proxyPass, 1)) := by decide +kernel
  obtain ⟨s, hrun, hs⟩ := Option.map_eq_some_iff.mp hanswered
  simp only [Prod.mk.injEq] at hs
  obtain ⟨hnum, htype, halarm⟩ := hs
  obtain ⟨s', hstep, hs'⟩ := Option.map_eq_some_iff.mp halarm
  simp only [Prod.mk.injEq] at hs'
  have hsplit : Runs.Along (ConnState.step (ExtConfig.plain true))
      (TransparentHandOver (ExtConfig.plain true))
      (ConnState.accepted (Globals.oneSecret 1) 443 PeerAddr.unknown)
      ([.read sampleHello, .pass World.calm] ++ [.alarm World.calm]) := h
  have hlast := (Runs.along_append.mp hsplit).2 s hrun
  have hout := (hlast.1 s' hstep hnum htype hs'.1).2
  rw [hout] at hs'
  exact absurd hs'.2 (by decide)

end MtprotoProxy
