/-
# What a pass of the handshake can do

`HandshakeMove` lists the ways in which a pass of `tcp_rpcs_compact_parse_execute` with
`D->in_packet_num == -3` ends: more bytes are needed, a record is bad, a ClientHello is
answered, the connection goes to a cover domain, everything that comes is skipped, or the
header opens one of the three modes.  `parsePass_move` says that there is no other way.
-/
import MtprotoProxy.TrialDecryption

namespace MtprotoProxy

open CLib

/-! ## The connection at the trials -/

/-- The checks at the head of a pass: it goes on to read a length word. -/
def passReads (c : Conn) : Bool :=
  c.flags.error = false ∧ c.flags.stopparse = false ∧ c.inp ≠ [] ∧
    (if c.rpcFlags.medium then 4 else 1) + 8 ≤ c.inp.length

/-- The connection whose first 64 bytes a pass of the handshake tries, if it gets to the
trials: behind the record header in fake TLS, else the connection as it is. -/
def headerConn (cfg : ExtConfig) (c : Conn) : Option Conn :=
  if c.isTls then
    match tlsFirstPacket c with
    | some (.header c') => some c'
    | _ => none
  else if cfg.domains.allowOnlyTls then none
  else some c

/-- A pass that goes on. -/
theorem parsePass_of_reads {c : Conn} (h : passReads c = true) (cfg : ExtConfig) (w : World)
    (g : Globals) :
    parsePass cfg w g c =
      if c.inPacketNum = -3 then handshakePass cfg w g c (le32 c.inp)
      else packetPass cfg w g c (le32 c.inp) := by
  simp only [passReads, Bool.decide_and, Bool.and_eq_true, decide_eq_true_eq] at h
  obtain ⟨herror, hstop, hne, hlen⟩ := h
  unfold parsePass
  have hword : fetchLookup c.inp 4 = some (c.inp.take 4) := by
    refine fetchLookup_of_le (le_trans ?_ hlen)
    split <;> omega
  dsimp only
  rw [herror, hstop, if_neg (by decide), if_neg (by decide),
    if_neg (fun h0 => hne (List.length_eq_zero_iff.mp h0)), if_neg (not_lt.mpr hlen), hword]
  have hle : le32 (c.inp.take 4) = le32 c.inp := by
    unfold le32
    rw [List.take_take, min_self]
  simp only [some_bind, hle]

/-- A pass that does not go on returns a positive number and changes nothing. -/
theorem parsePass_of_not_reads {c : Conn} (h : passReads c = false) (cfg : ExtConfig)
    (w : World) (g : Globals) :
    ∃ res : ℤ, 0 < res ∧ parsePass cfg w g c = some (.ret res, g, c) := by
  unfold parsePass
  have hneed : 0 < needMoreBytes := by unfold needMoreBytes; norm_num
  by_cases herror : c.flags.error = true
  · exact ⟨_, hneed, if_pos herror⟩
  rw [if_neg herror]
  by_cases hstop : c.flags.stopparse = true
  · exact ⟨_, hneed, if_pos hstop⟩
  rw [if_neg hstop]
  dsimp only
  by_cases h0 : c.inp.length = 0
  · exact ⟨_, hneed, if_pos h0⟩
  rw [if_neg h0]
  have hshort : c.inp.length < (if c.rpcFlags.medium then 4 else 1) + 8 := by
    by_contra hge
    have hreads : passReads c = true := by
      simp only [passReads, Bool.decide_and, Bool.and_eq_true, decide_eq_true_eq]
      refine ⟨by simpa using herror, by simpa using hstop, ?_, not_lt.mp hge⟩
      exact fun hnil => h0 (List.length_eq_zero_iff.mpr hnil)
    rw [hreads] at h
    exact absurd h (by decide)
  exact ⟨_, by omega, if_pos hshort⟩

variable {cfg : ExtConfig} {w : World}

/-- A pass that gets to the trials is the pass over the header. -/
theorem handshakePass_of_headerConn {g : Globals} {c c₁ : Conn}
    {word : ℕ} (h : headerConn cfg c = some c₁) :
    handshakePass cfg w g c word = headerPass cfg w g c₁ := by
  unfold headerConn at h
  unfold handshakePass
  split at h
  · rename_i htls
    rw [if_pos htls]
    cases hfirst : tlsFirstPacket c with
    | none =>
      rw [hfirst] at h
      exact absurd h (by simp)
    | some r =>
      rw [hfirst] at h
      cases r with
      | ret res c' => exact absurd h (by simp)
      | header c' =>
        cases h
        rfl
  · rename_i htls
    split at h
    · exact absurd h (by simp)
    · rename_i honly
      cases h
      have hlooks : looksLikeClientHello cfg w g word = false := by
        simp [looksLikeClientHello, honly]
      rw [if_neg htls, hlooks, if_neg (by decide), if_neg honly]

/-! ## The branch for an established TLS connection -/

/-- **The dummy ChangeCipherSpec**: the pass waits, fails the connection, or finds the
header behind it. -/
theorem tlsFirstPacket_cases (c : Conn) :
    (∃ res : ℤ, 0 < res ∧ tlsFirstPacket c = some (.ret res c)) ∨
      (∃ c', InputFrame c c' ∧ tlsFirstPacket c = some (.ret 0 c')) ∨
      ∃ c', InputFrame c c' ∧ TrialReady c' ∧ tlsFirstPacket c = some (.header c') := by
  unfold tlsFirstPacket
  dsimp only
  by_cases hlen : c.inp.length < 11
  · exact Or.inl ⟨_, by omega, if_pos hlen⟩
  rw [if_neg hlen, fetchLookup_of_le (not_lt.mp hlen)]
  simp only [Option.bind_eq_bind, Option.bind_some]
  split
  · exact Or.inr (Or.inl ⟨failConnection c, rfl, rfl⟩)
  set left := readLength (c.inp.take 11) 9 with hleft
  by_cases hshort : c.inp.length < 11 + left
  · rw [if_pos hshort]
    exact Or.inl ⟨_, by omega, rfl⟩
  rw [if_neg hshort, skipData_of_le (not_lt.mp hlen)]
  simp only [Option.bind_some]
  by_cases hsmall : left < 64
  · rw [if_pos hsmall]
    exact Or.inr (Or.inl ⟨failConnection { c with
      inp := c.inp.drop 11, leftTlsPacketLength := left }, rfl, rfl⟩)
  rw [if_neg hsmall, fetchLookup_of_le (by rw [List.length_drop]; omega)]
  refine Or.inr (Or.inr ⟨_, ?_, ?_, rfl⟩)
  · rfl
  · refine ⟨?_, fun _ => ?_⟩
    · show 64 ≤ (c.inp.drop 11).length
      rw [List.length_drop]
      omega
    · show (0 : ℤ) ≤ left - 64
      omega

/-! ## The exits into a cover domain -/

/-- What `RETURN_TLS_ERROR` leaves. -/
theorem returnTlsError_cases {w : World} {info : Option DomainInfo} {g g' : Globals}
    {c c' : Conn} {p : Pass} (h : returnTlsError w info g c = some (p, g', c')) :
    p = .ret 0 ∧
      (c' = c.handedOver ∨
        (InputFrame c c' ∧ c'.inp = c.inp ∧ (c.crypto = none → c'.crypto = none))) := by
  unfold returnTlsError at h
  cases info with
  | none => exact absurd h (by simp)
  | some info =>
    dsimp only at h
    rcases proxyConnection_cases w info g c with ⟨g₁, hp⟩ | ⟨c₁, hp, hframe⟩
    · rw [hp] at h
      cases h
      exact ⟨rfl, Or.inl rfl⟩
    · rw [hp] at h
      cases h
      exact ⟨rfl, Or.inr hframe⟩

/-- An exit into the default domain is taken in TLS-only mode only. -/
theorem allowOnlyTls_of_tlsError {w : World} {d : ProxyDomains} {g : Globals} {c : Conn}
    {r : Pass × Globals × Conn} (h : returnTlsError w d.defaultDomainInfo g c = some r) :
    d.allowOnlyTls = true := by
  rw [d.coupled]
  cases hd : d.defaultDomainInfo with
  | none =>
    rw [hd] at h
    exact absurd h (by simp [returnTlsError])
  | some info => rfl

/-! ## The moves -/

/-- The ways in which a pass of the handshake on `c` ends. -/
inductive HandshakeMove (cfg : ExtConfig) (w : World) (g : Globals) (c : Conn) :
    Pass → Globals → Conn → Prop where
  /-- More bytes are needed. -/
  | wait {res : ℤ} (hres : 0 < res) : HandshakeMove cfg w g c (.ret res) g c
  /-- The connection fails; outside TLS its input stays. -/
  | fail {g' : Globals} {c' : Conn} (hframe : InputFrame c c')
      (hkeep : c.isTls = false → c'.inp = c.inp ∧ (c.crypto = none → c'.crypto = none)) :
      HandshakeMove cfg w g c (.ret 0) g' c'
  /-- A ClientHello is answered. -/
  | answer {g' : Globals} {id : ℤ} {response : Bytes} :
      HandshakeMove cfg w g c (.ret 11) g'
        { c with
          inp := []
          isTls := true
          leftTlsPacketLength := -1
          extraInt2 := id
          outQueue := c.outQueue ++ [response] }
  /-- The connection goes to a cover domain; outside TLS with all of its input. -/
  | handOver {g' : Globals} {c₁ : Conn} (hframe : InputFrame c c₁)
      (hinp : c.isTls = false → c₁.inp = c.inp ∧ cfg.domains.allowOnlyTls = true) :
      HandshakeMove cfg w g c (.ret 0) g' c₁.handedOver
  /-- All that comes is skipped. -/
  | skip {c' : Conn} (hframe : InputFrame c c')
      (htls : c.isTls = false → cfg.domains.allowOnlyTls = false) :
      HandshakeMove cfg w g c (.ret skipAllBytes) g c'
  /-- A header opens one of the modes. -/
  | enter {c₁ c' : Conn} {g' : Globals} (hconn : headerConn cfg c = some c₁)
      (hheader : headerPass cfg w g c₁ = some (.again, g', c')) :
      HandshakeMove cfg w g c .again g' c'

/-- An exit into a cover domain is a move. -/
theorem HandshakeMove.ofTlsError {g g₁ g' : Globals}
    {c c₁ c' : Conn} {info : Option DomainInfo} {p : Pass} (hframe : InputFrame c c₁)
    (hkeep : c.isTls = false →
      c₁.inp = c.inp ∧ cfg.domains.allowOnlyTls = true ∧ (c.crypto = none → c₁.crypto = none))
    (h : returnTlsError w info g₁ c₁ = some (p, g', c')) : HandshakeMove cfg w g c p g' c' := by
  obtain ⟨rfl, hc'⟩ := returnTlsError_cases h
  rcases hc' with rfl | ⟨hframe', hinp, hcrypto⟩
  · exact .handOver hframe (fun htls => ⟨(hkeep htls).1, (hkeep htls).2.1⟩)
  · refine .fail (hframe.trans hframe') (fun htls => ?_)
    obtain ⟨hinp₁, -, hcrypto₁⟩ := hkeep htls
    exact ⟨hinp.trans hinp₁, fun hnone => hcrypto (hcrypto₁ hnone)⟩

/-- **The ClientHello branch** waits, answers, or hands over. -/
theorem clientHelloPass_move {g g' : Globals} {c c' : Conn}
    {p : Pass} (honly : cfg.domains.allowOnlyTls = true)
    (h : clientHelloPass cfg w g c = some (p, g', c')) : HandshakeMove cfg w g c p g' c' := by
  have hcover : ∀ {g₁ : Globals} {info : Option DomainInfo},
      returnTlsError w info g₁ c = some (p, g', c') → HandshakeMove cfg w g c p g' c' :=
    fun hret => .ofTlsError (InputFrame.refl c) (fun _ => ⟨rfl, honly, id⟩) hret
  unfold clientHelloPass at h
  simp only [Option.bind_eq_bind] at h
  obtain ⟨header, -, h⟩ := Option.bind_eq_some_iff.mp h
  split at h
  · rename_i hshort
    cases h
    exact .wait (by omega)
  obtain ⟨hello, -, h⟩ := Option.bind_eq_some_iff.mp h
  split at h
  · exact hcover h
  split at h
  · exact hcover h
  obtain ⟨⟨verdict, randoms⟩, -, h⟩ := Option.bind_eq_some_iff.mp h
  dsimp only at h
  split at h
  · obtain ⟨rest, hrest, h⟩ := Option.bind_eq_some_iff.mp h
    obtain ⟨response, -, h⟩ := Option.bind_eq_some_iff.mp h
    have hnil : rest = [] := by
      rw [skipData_of_le le_rfl, List.drop_length] at hrest
      exact (Option.some.inj hrest).symm
    cases h
    rw [hnil]
    exact .answer
  · exact hcover h

/-- **The header** waits, is rejected, is handed over, or opens a mode. -/
theorem headerPass_cases {g g' : Globals} {c c' : Conn}
    {p : Pass} (h : headerPass cfg w g c = some (p, g', c')) :
    (c.inp.length < 64 ∧ ∃ res : ℤ, 0 < res ∧ p = .ret res ∧ g' = g ∧ c' = c) ∨
      (p = .ret skipAllBytes ∧ g' = g ∧ InputFrame c c') ∨
      (cfg.domains.allowOnlyTls = true ∧ ∃ T,
        returnTlsError w cfg.domains.defaultDomainInfo g { c with crypto := some T }
          = some (p, g', c')) ∨
      p = .again := by
  by_cases hshort : c.inp.length < 64
  · rw [headerPass, if_pos hshort] at h
    split at h
    · exact absurd h (by simp)
    · cases h
      exact Or.inl ⟨hshort, _, by omega, rfl, rfl, rfl⟩
  · rw [headerPass, if_neg hshort, fetchLookup_of_le (not_lt.mp hshort)] at h
    simp only [some_bind] at h
    split at h
    · cases h
      exact Or.inr (Or.inl ⟨rfl, rfl, rfl⟩)
    split at h
    · -- a mode tag: the only way out of `acceptHeader` is to go round again
      obtain ⟨d, -, h⟩ := Option.bind_eq_some_iff.mp h
      cases h
      exact Or.inr (Or.inr (Or.inr rfl))
    · rename_i T _
      exact Or.inr (Or.inr (Or.inl ⟨allowOnlyTls_of_tlsError h, T, h⟩))
    · cases h
      exact Or.inr (Or.inl ⟨rfl, rfl, rfl⟩)

/-- What a pass over the header is as a move of the connection it belongs to. -/
theorem headerPass_move {g g' : Globals} {c c₁ c' : Conn}
    {p : Pass} (hconn : headerConn cfg c = some c₁) (hframe : InputFrame c c₁)
    (htls : c.isTls = false → cfg.domains.allowOnlyTls = false ∧ c₁ = c)
    (hready : c.isTls = true → TrialReady c₁)
    (h : headerPass cfg w g c₁ = some (p, g', c')) : HandshakeMove cfg w g c p g' c' := by
  rcases headerPass_cases h with
    ⟨hshort, res, hres, rfl, rfl, rfl⟩ | ⟨rfl, rfl, hskip⟩ | ⟨honly, T, hret⟩ | rfl
  · -- fewer than 64 bytes: this does not happen behind a TLS record header
    cases hc : c.isTls with
    | false =>
      rw [(htls hc).2]
      exact .wait hres
    | true => exact absurd (hready hc).len (not_le.mpr hshort)
  · exact .skip (hframe.trans hskip) (fun hc => (htls hc).1)
  · have hnot : c.isTls ≠ false := by
      intro hc
      rw [(htls hc).1] at honly
      exact absurd honly (by decide)
    have hcrypto : InputFrame c₁ { c₁ with crypto := some T } := rfl
    exact .ofTlsError (hframe.trans hcrypto) (fun hc => absurd hc hnot) hret
  · exact .enter hconn h

/-- **A pass of the handshake** is one of the moves. -/
theorem handshakePass_move {g g' : Globals} {c c' : Conn}
    {word : ℕ} {p : Pass} (h : handshakePass cfg w g c word = some (p, g', c')) :
    HandshakeMove cfg w g c p g' c' := by
  unfold handshakePass at h
  cases htls : c.isTls with
  | true =>
    rw [htls, if_pos rfl] at h
    rcases tlsFirstPacket_cases c with ⟨res, hres, hfirst⟩ | ⟨c₁, hframe, hfirst⟩ |
      ⟨c₁, hframe, hready, hfirst⟩
    · rw [hfirst] at h
      cases h
      exact .wait hres
    · rw [hfirst] at h
      cases h
      exact .fail hframe (fun hc => absurd (htls.symm.trans hc) (by decide))
    · rw [hfirst] at h
      have hconn : headerConn cfg c = some c₁ := by
        unfold headerConn
        rw [htls, if_pos rfl, hfirst]
      exact headerPass_move hconn hframe
        (fun hc => absurd (htls.symm.trans hc) (by decide)) (fun _ => hready) h
  | false =>
    rw [htls, if_neg (by decide)] at h
    split at h
    · rename_i hlooks
      simp only [looksLikeClientHello, Bool.decide_and, Bool.and_eq_true,
        decide_eq_true_eq] at hlooks
      exact clientHelloPass_move hlooks.2.2.2 h
    split at h
    · rename_i honly
      exact .ofTlsError (InputFrame.refl c) (fun _ => ⟨rfl, honly, id⟩) h
    · rename_i honly
      have hconn : headerConn cfg c = some c := by
        unfold headerConn
        rw [htls, if_neg (by decide), if_neg honly]
      exact headerPass_move hconn (InputFrame.refl c)
        (fun _ => ⟨by simpa using honly, rfl⟩)
        (fun hc => absurd (htls.symm.trans hc) (by decide)) h

/-- **Every pass during the handshake** is one of the moves. -/
theorem parsePass_move {g g' : Globals} {c c' : Conn} {p : Pass}
    (hnum : c.inPacketNum = -3) (h : parsePass cfg w g c = some (p, g', c')) :
    HandshakeMove cfg w g c p g' c' := by
  cases hreads : passReads c with
  | true =>
    rw [parsePass_of_reads hreads, if_pos hnum] at h
    exact handshakePass_move h
  | false =>
    obtain ⟨res, hres, hwait⟩ := parsePass_of_not_reads hreads cfg w g
    rw [hwait] at h
    cases h
    exact .wait hres

end MtprotoProxy
