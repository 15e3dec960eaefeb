/-
# Who gets past the handshake

A connection leaves the handshake when the header, decrypted under the key of an active
secret, carries a mode tag (`Authenticated`).  With one exception: while no entry of the
store is active, the header is tried under the key that it carries itself, and a client
that knows no secret gets in (`RawKeyAccepted`).  Along every run, the only accepted
connections without an active secret are these (`acceptsOnlyActive_iff`).
-/
import MtprotoProxy.HandshakeMoves

namespace MtprotoProxy

open CLib

/-- The header carries a mode tag under the key of a secret of the store that is active at
the time of the snapshot. -/
def Authenticated (cfg : ExtConfig) (w : World) (g : Globals) (header : Bytes) : Prop :=
  ∃ E ∈ g.store.extSecrets, extIsActiveLocked E w.snapshotTime.val = true ∧
    isModeTag (trialTag cfg.crypto header (some E.secret)) = true

/-- A step that takes a connection out of the handshake does so for an authenticated
header. -/
def AcceptsOnlyActive (cfg : ExtConfig) (s : ConnState) (e : ConnEvent) : Prop :=
  ∀ s', s.step cfg e = some s' → s.conn.inPacketNum = -3 → 0 ≤ s'.conn.inPacketNum →
    ∃ w c, e = .pass w ∧ headerConn cfg s.conn = some c ∧
      Authenticated cfg w s.globals (c.inp.take 64)

/-- The parser is at the trials of the header of `c` while no secret is active, and the
header carries a mode tag under the key in its own bytes 8 to 39. -/
structure RawKeyAccepted (cfg : ExtConfig) (w : World) (s : ConnState) (c : Conn) : Prop where
  parsing : s.parsing = true
  handshake : s.conn.inPacketNum = -3
  reads : passReads s.conn = true
  conn : headerConn cfg s.conn = some c
  len : 64 ≤ c.inp.length
  inactive : activeSecrets s.globals.store w.snapshotTime.val = []
  hit : hits cfg.crypto (c.inp.take 64) none = true
  padding : ¬ LacksPadding cfg.crypto cfg.domains.allowOnlyTls (c.inp.take 64) none

/-- The step is not one that accepts a header under its own key. -/
def RawKeyRefused (cfg : ExtConfig) (s : ConnState) (e : ConnEvent) : Prop :=
  ∀ w c, e = .pass w → ¬ RawKeyAccepted cfg w s c

/-! ## Getting in -/

/-- The connection at the trials: only the input differs, and with 64 bytes it is ready
for them. -/
theorem headerConn_spec {cfg : ExtConfig} {c c₁ : Conn} (h : headerConn cfg c = some c₁) :
    InputFrame c c₁ ∧ (64 ≤ c₁.inp.length → TrialReady c₁) := by
  unfold headerConn at h
  cases htls : c.isTls with
  | true =>
    rw [htls, if_pos rfl] at h
    rcases tlsFirstPacket_cases c with ⟨res, -, hfirst⟩ | ⟨c₂, -, hfirst⟩ |
      ⟨c₂, hframe, hready, hfirst⟩
    · rw [hfirst] at h
      exact absurd h (by simp)
    · rw [hfirst] at h
      exact absurd h (by simp)
    · rw [hfirst] at h
      cases h
      exact ⟨hframe, fun _ => hready⟩
  | false =>
    rw [htls, if_neg (by decide)] at h
    split at h
    · exact absurd h (by simp)
    · cases h
      exact ⟨InputFrame.refl c,
        fun hlen => ⟨hlen, fun hc => absurd (htls.symm.trans hc) (by decide)⟩⟩

variable {cfg : ExtConfig} {w : World}

/-- **A header that opens a mode** matches one of the attempts. -/
theorem exists_match_of_again {g g' : Globals} {c c' : Conn}
    (hready : 64 ≤ c.inp.length → TrialReady c)
    (h : headerPass cfg w g c = some (.again, g', c')) :
    64 ≤ c.inp.length ∧ ∃ a,
      (attempts (activeSecrets g.store w.snapshotTime.val)).find?
          (hits cfg.crypto (c.inp.take 64)) = some a ∧
        ¬ LacksPadding cfg.crypto cfg.domains.allowOnlyTls (c.inp.take 64) a := by
  have hlen : 64 ≤ c.inp.length := by
    by_contra hshort
    rw [headerPass, if_pos (not_le.mp hshort)] at h
    split at h <;> exact absurd h (by simp)
  refine ⟨hlen, ?_⟩
  cases hsnap : extSnapshotActiveSecrets w.mallocOk g.store w.snapshotTime.val with
  | none =>
    rw [headerPass, if_neg (not_lt.mpr hlen), fetchLookup_of_le hlen] at h
    simp [hsnap] at h
  | some active =>
    have hactive := eq_activeSecrets_of_snapshot hsnap
    cases hfind : (attempts active).find? (hits cfg.crypto (c.inp.take 64)) with
    | none =>
      have hno := List.find?_eq_none.mp hfind
      rw [headerPass_of_no_match (hready hlen) hsnap
        (fun a ha => by simpa using hno a ha)] at h
      exact absurd h (by simp)
    | some a =>
      rw [headerPass_of_match (hready hlen) hsnap hfind] at h
      rw [← hactive]
      refine ⟨a, hfind, fun hpad => ?_⟩
      rw [if_pos hpad] at h
      exact absurd (returnTlsError_cases h).1 (by simp)

/-- A mode that opens: the packets are counted from `0`, and the connection stays one to
a client. -/
theorem fields_of_again {g g' : Globals} {c c' : Conn}
    (hready : 64 ≤ c.inp.length → TrialReady c)
    (h : headerPass cfg w g c = some (.again, g', c')) :
    c'.inPacketNum = 0 ∧ c'.type = c.type := by
  obtain ⟨hlen, -⟩ := exists_match_of_again hready h
  rw [headerPass, if_neg (not_lt.mpr hlen), fetchLookup_of_le hlen] at h
  simp only [some_bind] at h
  split at h
  · exact absurd h (by simp)
  split at h
  · rename_i a v T _
    obtain ⟨d, hrun, -, hframe⟩ := enterMode_spec cfg v.randomHeader T (hready hlen)
    rw [acceptHeader_eq hrun] at h
    cases h
    exact ⟨hframe.fields.2.2.1, hframe.fields.1⟩
  · exact absurd (returnTlsError_cases h).1 (by simp)
  · exact absurd h (by simp)

/-- An attempt that is found belongs to an active secret, or none is active. -/
theorem find_attempts {cfg : ExtConfig} {active : List ExtActiveSecret} {header : Bytes}
    {a : Option ExtActiveSecret}
    (h : (attempts active).find? (hits cfg.crypto header) = some a) :
    (∃ b ∈ active, a = some b ∧ hits cfg.crypto header (some b) = true) ∨
      (active = [] ∧ a = none ∧ hits cfg.crypto header none = true) := by
  have hmem := List.mem_of_find?_eq_some h
  have hhit := List.find?_some h
  by_cases hnil : active = []
  · right
    rw [attempts, if_pos hnil] at hmem
    rw [List.mem_singleton.mp hmem] at hhit
    exact ⟨hnil, List.mem_singleton.mp hmem, hhit⟩
  · left
    rw [attempts_of_ne_nil hnil] at hmem
    obtain ⟨b, hb, rfl⟩ := List.mem_map.mp hmem
    exact ⟨b, hb, rfl, hhit⟩

/-- Only a pass over a header leaves the handshake. -/
theorem HandshakeMove.enter_of_nonneg {g g' : Globals}
    {c c' : Conn} {p : Pass} (h : HandshakeMove cfg w g c p g' c') (hnum : c.inPacketNum = -3)
    (hnum' : 0 ≤ c'.inPacketNum) :
    p = .again ∧ ∃ c₁, headerConn cfg c = some c₁ ∧
      headerPass cfg w g c₁ = some (.again, g', c') := by
  have hout : ¬ 0 ≤ c.inPacketNum := by omega
  have hstay : ∀ {d : Conn}, InputFrame c d → ¬ 0 ≤ d.inPacketNum := by
    intro d hd
    rw [hd.fields.2.2.1]
    exact hout
  cases h with
  | wait _ => exact absurd hnum' hout
  | fail hframe _ => exact absurd hnum' (hstay hframe)
  | answer => exact absurd hnum' hout
  | @handOver g₁ c₁ hframe _ =>
    have hnum₁ : 0 ≤ c₁.inPacketNum := hnum'
    exact absurd hnum₁ (hstay hframe)
  | skip hframe _ => exact absurd hnum' (hstay hframe)
  | enter hconn hheader => exact ⟨rfl, _, hconn, hheader⟩

/-- **The step that leaves the handshake** is a pass over a header that is authenticated,
or that is tried under its own key. -/
theorem accepted_cases {cfg : ExtConfig} {s s' : ConnState} {e : ConnEvent}
    (h : s.step cfg e = some s') (hnum : s.conn.inPacketNum = -3)
    (hnum' : 0 ≤ s'.conn.inPacketNum) :
    ∃ w c, e = .pass w ∧ headerConn cfg s.conn = some c ∧
      (Authenticated cfg w s.globals (c.inp.take 64) ∨ RawKeyAccepted cfg w s c) := by
  cases e with
  | read bytes =>
    have hframe := (step_read_cases h).2.1
    rw [hframe.fields.2.2.1, hnum] at hnum'
    exact absurd hnum' (by norm_num)
  | alarm w =>
    rcases (step_alarm_cases h).2 with ⟨-, -, -, hover⟩ | ⟨hframe, -⟩
    · rw [hover] at hnum'
      change 0 ≤ s.conn.inPacketNum at hnum'
      omega
    · rw [hframe.fields.2.2.1, hnum] at hnum'
      exact absurd hnum' (by norm_num)
  | others f g =>
    rw [(step_others_cases h).2] at hnum'
    change 0 ≤ s.conn.inPacketNum at hnum'
    omega
  | pass w =>
    obtain ⟨hparsing, -, p, g, c, hpass, hend⟩ := step_pass_cases h
    have hnum_c : 0 ≤ c.inPacketNum := by
      rcases hend with ⟨-, hc⟩ | ⟨res, -, hc⟩
      · rw [← hc]
        exact hnum'
      · rw [hc, (readerReturn_frame res g c).fields.2.2.1] at hnum'
        exact hnum'
    obtain ⟨rfl, c₁, hconn, hheader⟩ := (parsePass_move hnum hpass).enter_of_nonneg hnum hnum_c
    have hreads : passReads s.conn = true := by
      by_contra hno
      obtain ⟨res, -, hwait⟩ := parsePass_of_not_reads (by simpa using hno) cfg w s.globals
      rw [hwait] at hpass
      exact absurd hpass (by simp)
    obtain ⟨hlen, a, hfind, hpad⟩ :=
      exists_match_of_again (headerConn_spec hconn).2 hheader
    refine ⟨w, c₁, rfl, hconn, ?_⟩
    rcases find_attempts hfind with ⟨b, hb, rfl, hhit⟩ | ⟨hnil, rfl, hhit⟩
    · obtain ⟨E, hE, hactive, hsecret, -⟩ := mem_activeSecrets.mp hb
      refine Or.inl ⟨E, hE, hactive, ?_⟩
      rw [hsecret]
      exact hhit
    · exact Or.inr ⟨hparsing, hnum, hreads, hconn, hlen, hnil, hhit, hpad⟩

/-! ## The exception -/

/-- **A header tried under its own key opens a mode.** -/
theorem RawKeyAccepted.step {s : ConnState} {c : Conn}
    (h : RawKeyAccepted cfg w s c) :
    ∃ s', s.step cfg (.pass w) = some s' ∧ 0 ≤ s'.conn.inPacketNum := by
  have hready := (headerConn_spec h.conn).2 h.len
  have hcount : tcpRpcsActiveSecretCount s.globals.store w.snapshotTime.val = 0 :=
    (activeSecrets_eq_nil_iff _ _).mp h.inactive
  have hsnap : extSnapshotActiveSecrets w.mallocOk s.globals.store w.snapshotTime.val
      = some [] := if_pos hcount
  have hfind : (attempts []).find? (hits cfg.crypto (c.inp.take 64)) = some none :=
    List.find?_cons_of_pos h.hit
  have hheader := headerPass_of_match hready hsnap hfind
  rw [if_neg h.padding] at hheader
  obtain ⟨d, hrun, -, hframe⟩ := enterMode_spec cfg
    (decryptHeader cfg.crypto ((none : Option ExtActiveSecret).map (·.secret)) (c.inp.take 64))
    (headerAes cfg.crypto ((none : Option ExtActiveSecret).map (·.secret)) (c.inp.take 64)) hready
  rw [acceptHeader_eq hrun] at hheader
  have hpass : parsePass cfg w s.globals s.conn = headerPass cfg w s.globals c := by
    rw [parsePass_of_reads h.reads, if_pos h.handshake]
    exact handshakePass_of_headerConn h.conn
  rw [ConnState.step, if_pos h.parsing, hpass, hheader]
  refine ⟨_, rfl, ?_⟩
  show 0 ≤ d.inPacketNum
  rw [hframe.fields.2.2.1]

/-- **No open proxy, up to the exception.**  Along every run of a connection, with any
configuration, any stores at any times, any bytes in any pieces, alarms and actions of
other threads in any order: the steps accept authenticated headers only, if and only if no
pass accepts a header under its own key. -/
theorem acceptsOnlyActive_iff (cfg : ExtConfig) (g : Globals) (ourPort : ℕ) (peer : PeerAddr)
    (es : List ConnEvent) :
    Runs.Along (ConnState.step cfg) (AcceptsOnlyActive cfg) (ConnState.accepted g ourPort peer) es
      ↔ Runs.Along (ConnState.step cfg) (RawKeyRefused cfg)
          (ConnState.accepted g ourPort peer) es := by
  refine Runs.along_congr (P := fun _ => True) (fun _ _ _ _ _ => trivial) ?_ trivial
  intro s e _
  constructor
  · -- the header that is accepted under its own key belongs to no active secret
    rintro honly w c rfl hraw
    obtain ⟨s', hstep, hnum'⟩ := hraw.step
    obtain ⟨w', c', hw, hconn, E, hE, hactive, -⟩ := honly s' hstep hraw.handshake hnum'
    cases hw
    have hmem : (⟨E.secret, E.id⟩ : ExtActiveSecret)
        ∈ activeSecrets s.globals.store w.snapshotTime.val :=
      mem_activeSecrets.mpr ⟨E, hE, hactive, rfl, rfl⟩
    rw [hraw.inactive] at hmem
    exact absurd hmem (by simp)
  · intro hrefused s' hstep hnum hnum'
    obtain ⟨w, c, rfl, hconn, hauth | hraw⟩ := accepted_cases hstep hnum hnum'
    · exact ⟨w, c, rfl, hconn, hauth⟩
    · exact absurd hraw (hrefused w c rfl)

/-- A store whose one entry is disabled lets in a client that knows no secret. -/
theorem not_acceptsOnlyActive_disabled :
    ¬ Runs.Along (ConnState.step (ExtConfig.plain false))
      (AcceptsOnlyActive (ExtConfig.plain false))
      (ConnState.accepted (Globals.oneSecret 0) 443 PeerAddr.unknown)
      [.read (plainHeader 0xef), .pass World.calm] := by
  intro h
  set t : ConnState :=
    ⟨Globals.oneSecret 0, Conn.atHeader false 0xef, true, plainHeader 0xef⟩ with ht
  have hread : ConnState.step (ExtConfig.plain false)
      (ConnState.accepted (Globals.oneSecret 0) 443 PeerAddr.unknown)
      (.read (plainHeader 0xef)) = some t := rfl
  have hrest := h.2
  rw [hread] at hrest
  have haccept : (t.step (ExtConfig.plain false) (.pass World.calm)).map
      (fun s => s.conn.inPacketNum) = some 0 := by decide +kernel
  obtain ⟨s', hstep, hnum'⟩ := Option.map_eq_some_iff.mp haccept
  obtain ⟨w, c, hw, -, E, hE, hactive, -⟩ := hrest.1 s' hstep rfl (le_of_eq hnum'.symm)
  cases hw
  -- the only entry of the store is disabled
  have hnone : ∀ E ∈ (Globals.oneSecret 0).store.extSecrets,
      extIsActiveLocked E World.calm.snapshotTime.val = false := by decide +kernel
  rw [hnone E hE] at hactive
  exact absurd hactive (by decide)

end MtprotoProxy
