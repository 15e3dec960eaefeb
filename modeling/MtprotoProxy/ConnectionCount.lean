/-
# One connection, one count

A connection can be counted twice by `ext_metrics_attach_secret_to_connection`: when a
ClientHello matches a secret, and when the 64-byte header does.  The second call counts
nothing if `D->extra_int2` holds the same id already.

`Tally` is a connection with what its own steps have added to `ext_total_connections` and to
the cells of `ext_secret_metrics`, apart from what other threads do to them meanwhile.  A
handshake that is completed has counted the connection once, for the secret that its packets
are decrypted under, exactly when its two matches named one secret with a cell
(`countedOnce_iff`).
-/
import MtprotoProxy.CoverFallback
import MtprotoProxy.PacketLoop

namespace MtprotoProxy

open CLib

/-! ## The two matches -/

/-- The secret whose ClientHello a pass on `c` answers. -/
def helloMatch (cfg : ExtConfig) (w : World) (g : Globals) (c : Conn) :
    Option ExtActiveSecret :=
  let len := c.inp.length
  if passReads c ∧ c.isTls = false ∧ looksLikeClientHello cfg w g (le32 c.inp) = true ∧
      len = 5 + readLength (c.inp.take 5) 3 ∧ len ≤ 4096 ∧ c.ourPort ≠ 80 ∧
      (getSniDomainInfo cfg.domains c.inp len).isSome ∧ (cipherSuiteId c.inp len).isSome then
    (checkClientHello cfg.crypto.sha256Hmac w.now
      (extSnapshotActiveSecrets w.mallocOk g.store w.snapshotTime.val) c.inp g.randoms).bind
        Prod.fst
  else none

/-- The trial that accepts the header in a pass on `c`, with the header; a trial is of an
active secret, or of none. -/
def headerMatch (cfg : ExtConfig) (w : World) (g : Globals) (c : Conn) :
    Option (Option ExtActiveSecret × Bytes) :=
  match headerConn cfg c with
  | none => none
  | some c₁ =>
    if passReads c ∧ 64 ≤ c₁.inp.length then
      match extSnapshotActiveSecrets w.mallocOk g.store w.snapshotTime.val with
      | none => none
      | some active =>
        match trialLoop cfg.crypto cfg.domains.allowOnlyTls (c₁.inp.take 64) (attempts active)
            (TrialVars.start (c₁.inp.take 64)) with
        | .accept a _ _ => some (a, c₁.inp.take 64)
        | _ => none
    else none

/-! ## Counting -/

/-- A connection, the trial that has accepted its header, and what its own steps have added
to the counters. -/
structure Tally where
  state : ConnState
  /-- the trial that accepted the header, with the header -/
  opened : Option (Option ExtActiveSecret × Bytes)
  /-- added to `ext_total_connections` -/
  total : Int64
  /-- added to `ext_secret_metrics[id].connections` -/
  connections : ℕ → Int64

namespace Tally

/-- The connection as it is accepted. -/
def accepted (g : Globals) (ourPort : ℕ) (peer : PeerAddr) : Tally where
  state := ConnState.accepted g ourPort peer
  opened := none
  total := 0
  connections := fun _ => 0

/-- A step of the connection itself: the counters are read before and after it. -/
def count (a : Tally) (s' : ConnState) : Tally where
  state := s'
  opened := a.opened
  total := a.total +
    (s'.globals.store.extTotalConnections - a.state.globals.store.extTotalConnections)
  connections := fun j => a.connections j +
    ((s'.globals.store.metric j).connections - (a.state.globals.store.metric j).connections)

/-- The tally after an event that leads to `s'`. -/
def note (cfg : ExtConfig) (a : Tally) (s' : ConnState) : ConnEvent → Tally
  | .others _ _ => { a with state := s' }
  | .pass w =>
    { a.count s' with
      opened :=
        if a.state.conn.inPacketNum = -3 then headerMatch cfg w a.state.globals a.state.conn
        else a.opened }
  | _ => a.count s'

/-- One event. -/
def step (cfg : ExtConfig) (a : Tally) (e : ConnEvent) : Option Tally :=
  (a.state.step cfg e).map (fun s' => a.note cfg s' e)

end Tally

/-- The keys of a connection. -/
def Conn.keys (c : Conn) : Option AesKeyData := c.crypto.map AesCrypto.keys

/-- One connection in the cell of an id. -/
def oneAt (id : ℤ) : ℕ → Int64 := Function.update (fun _ => 0) id.toNat 1

/-- The connection was counted once, in the cell of the secret that its packets are decrypted
under. -/
structure CountedOnce (cfg : ExtConfig) (a : Tally) : Prop where
  total : a.total = 1
  secret : ∃ m header, a.opened = some (some m, header) ∧
    a.state.conn.keys = some (headerKeys cfg.crypto (some m.secret) header) ∧
    a.connections = oneAt m.id

/-- The condition on a step: a secret that a ClientHello matches has a cell, and the header is
accepted under an active secret, the one that is attached already, or, with none attached, one
that has a cell. -/
def NamesOneSecret (cfg : ExtConfig) (a : Tally) : ConnEvent → Prop
  | .pass w =>
    a.state.conn.inPacketNum = -3 →
      (∀ m, helloMatch cfg w a.state.globals a.state.conn = some m →
        m.id ≤ 0 ∨ m.id < a.state.globals.store.extSecretMetricsCap) ∧
      ∀ r header, headerMatch cfg w a.state.globals a.state.conn = some (r, header) →
        ∃ m, r = some m ∧ 0 < m.id ∧
          (a.state.conn.extraInt2 = m.id ∨
            (a.state.conn.extraInt2 = 0 ∧ m.id < a.state.globals.store.extSecretMetricsCap))
  | _ => True

instance (cfg : ExtConfig) (a : Tally) : ∀ e, Decidable (NamesOneSecret cfg a e)
  | .pass w =>
    decidable_of_iff (a.state.conn.inPacketNum = -3 →
      (∀ m ∈ helloMatch cfg w a.state.globals a.state.conn,
        m.id ≤ 0 ∨ m.id < a.state.globals.store.extSecretMetricsCap) ∧
      ∀ p ∈ headerMatch cfg w a.state.globals a.state.conn, ∃ m ∈ p.1, 0 < m.id ∧
        (a.state.conn.extraInt2 = m.id ∨
          (a.state.conn.extraInt2 = 0 ∧ m.id < a.state.globals.store.extSecretMetricsCap)))
      (by simp only [NamesOneSecret, Prod.forall, Option.mem_def])
  | .read _ => isTrue trivial
  | .alarm _ => isTrue trivial
  | .others _ _ => isTrue trivial

/-! ## What leaves the counters alone -/

/-- Neither the store, nor what the counting depends on, differs. -/
structure Uncounted (g : Globals) (c : Conn) (g' : Globals) (c' : Conn) : Prop where
  store : g'.store = g.store
  extraInt2 : c'.extraInt2 = c.extraInt2
  isTls : c'.isTls = c.isTls
  inPacketNum : c'.inPacketNum = c.inPacketNum

theorem Uncounted.refl (g : Globals) (c : Conn) : Uncounted g c g c := ⟨rfl, rfl, rfl, rfl⟩

theorem Uncounted.trans {g₁ g₂ g₃ : Globals} {c₁ c₂ c₃ : Conn} (h : Uncounted g₁ c₁ g₂ c₂)
    (h' : Uncounted g₂ c₂ g₃ c₃) : Uncounted g₁ c₁ g₃ c₃ where
  store := h'.store.trans h.store
  extraInt2 := h'.extraInt2.trans h.extraInt2
  isTls := h'.isTls.trans h.isTls
  inPacketNum := h'.inPacketNum.trans h.inPacketNum

theorem ReaderFrame.uncounted {c c' : Conn} (h : ReaderFrame c c') (g : Globals) :
    Uncounted g c g c' := by
  unfold ReaderFrame at h
  rw [h]
  exact ⟨rfl, rfl, rfl, rfl⟩

theorem InputFrame.uncounted {c c' : Conn} (h : InputFrame c c') (g : Globals) :
    Uncounted g c g c' :=
  h.readerFrame.uncounted g

/-- The bytes passed on to a cover domain belong to the secret id `0`, which has no counts. -/
theorem tcpProxyPass_globals (g : Globals) (c : Conn) :
    (tcpProxyPassParseExecute g c).2.1 = g := by
  unfold tcpProxyPassParseExecute
  split
  · dsimp only
    split
    · rw [tcpRpcsNoteConnectionTraffic, if_neg (by omega), if_neg (by omega)]
    · rfl
  · rfl

theorem proxyConnection_globals (w : World) (info : DomainInfo) (g : Globals) (c : Conn) :
    (proxyConnection w info g c).2.1 = g := by
  unfold proxyConnection
  split
  · rfl
  split
  · dsimp only
    split
    · exact tcpProxyPass_globals g _
    · rfl
  · rfl

theorem readerLoop_globals (g : Globals) (c : Conn) : (readerLoop g c).1 = g := by
  unfold readerLoop
  split
  · cases c.type with
    | extServer => rfl
    | proxyPass => exact tcpProxyPass_globals g c
  · rfl

theorem readerReturn_globals (res : ℤ) (g : Globals) (c : Conn) :
    (readerReturn res g c).1 = g := by
  unfold readerReturn
  split
  · exact readerLoop_globals g c
  split
  · rfl
  · rfl

/-- **Leaving for a cover domain** counts nothing. -/
theorem Uncounted.ofTlsError {w : World} {info : Option DomainInfo} {g g' : Globals}
    {c c' : Conn} {p : Pass} (h : returnTlsError w info g c = some (p, g', c')) :
    Uncounted g c g' c' := by
  have hg : g' = g := by
    unfold returnTlsError at h
    cases info with
    | none => exact absurd h (by simp)
    | some info =>
      have hsnd : (proxyConnection w info g c).2.1 = g' :=
        congrArg (fun r => r.2.1) (Option.some.inj h)
      rw [← hsnd]
      exact proxyConnection_globals w info g c
  subst hg
  rcases (returnTlsError_cases h).2 with rfl | ⟨hframe, -⟩
  · exact ⟨rfl, rfl, rfl, rfl⟩
  · exact hframe.uncounted g'

/-! ## What a pass of the handshake counts -/

/-- The effect of a pass of the handshake on the counters. -/
inductive HandshakeCount (cfg : ExtConfig) (w : World) (g : Globals) (c : Conn) :
    Globals → Conn → Prop where
  /-- Nothing matches. -/
  | quiet {g' : Globals} {c' : Conn} (hello : helloMatch cfg w g c = none)
      (header : headerMatch cfg w g c = none) (same : Uncounted g c g' c') :
      HandshakeCount cfg w g c g' c'
  /-- A ClientHello matches a secret. -/
  | hello {g' : Globals} {c' : Conn} {m : ExtActiveSecret} (hello : helloMatch cfg w g c = some m)
      (header : headerMatch cfg w g c = none) (plain : c.isTls = false)
      (attach : extMetricsAttachSecretToConnection w.attachTime c.peer c.extraInt2 m.id g.store
        = (c'.extraInt2, g'.store)) (tls : c'.isTls = true) (num : c'.inPacketNum = -3) :
      HandshakeCount cfg w g c g' c'
  /-- The header is accepted. -/
  | header {g' : Globals} {c' : Conn} {r : Option ExtActiveSecret} {bytes : Bytes}
      (hello : helloMatch cfg w g c = none) (header : headerMatch cfg w g c = some (r, bytes))
      (attach : extMetricsAttachSecretToConnection w.attachTime c.peer c.extraInt2
        ((r.map (·.id)).getD 0) g.store = (c'.extraInt2, g'.store))
      (keys : c'.keys = some (headerKeys cfg.crypto (r.map (·.secret)) bytes)) (num : c'.inPacketNum = 0) :
      HandshakeCount cfg w g c g' c'

variable {cfg : ExtConfig} {w : World}

/-- Without a pass that reads, nothing matches. -/
theorem helloMatch_of_not_reads {g : Globals} {c : Conn}
    (h : passReads c = false) : helloMatch cfg w g c = none := by
  unfold helloMatch
  exact if_neg (fun hall => absurd (h.symm.trans hall.1) (by decide))

theorem headerMatch_of_not_reads {g : Globals} {c : Conn}
    (h : passReads c = false) : headerMatch cfg w g c = none := by
  unfold headerMatch
  split
  · rfl
  · exact if_neg (fun hall => absurd (h.symm.trans hall.1) (by decide))

/-- A connection that has got to its header has no ClientHello ahead. -/
theorem helloMatch_of_headerConn {g : Globals} {c c₁ : Conn}
    (h : headerConn cfg c = some c₁) : helloMatch cfg w g c = none := by
  unfold helloMatch
  apply if_neg
  rintro ⟨-, htls, hlooks, -⟩
  unfold headerConn at h
  rw [htls, if_neg (by decide)] at h
  simp only [looksLikeClientHello, Bool.decide_and, Bool.and_eq_true, decide_eq_true_eq] at hlooks
  rw [if_pos hlooks.2.2.2] at h
  exact absurd h (by simp)

/-- A pass over a ClientHello. -/
theorem clientHelloPass_count {g g' : Globals} {c c' : Conn}
    {p : Pass} (hnum : c.inPacketNum = -3) (hreads : passReads c = true)
    (htls : c.isTls = false) (hlooks : looksLikeClientHello cfg w g (le32 c.inp) = true)
    (h : clientHelloPass cfg w g c = some (p, g', c')) : HandshakeCount cfg w g c g' c' := by
  have honly : cfg.domains.allowOnlyTls = true := by
    simp only [looksLikeClientHello, Bool.decide_and, Bool.and_eq_true, decide_eq_true_eq]
      at hlooks
    exact hlooks.2.2.2
  have hheader : headerMatch cfg w g c = none := by
    have hconn : headerConn cfg c = none := by
      unfold headerConn
      rw [htls, if_neg (by decide), if_pos honly]
    unfold headerMatch
    rw [hconn]
  unfold clientHelloPass at h
  simp only [Option.bind_eq_bind] at h
  obtain ⟨header, hfetch, h⟩ := Option.bind_eq_some_iff.mp h
  have hlen5 : 5 ≤ c.inp.length := by
    by_contra hshort
    rw [fetchLookup, if_neg hshort] at hfetch
    exact absurd hfetch (by simp)
  rw [fetchLookup_of_le hlen5] at hfetch
  obtain rfl := Option.some.inj hfetch
  split at h
  · rename_i hshort
    cases h
    refine .quiet (if_neg ?_) hheader (Uncounted.refl g c)
    rintro ⟨-, -, -, hlen, -⟩
    omega
  rename_i hmin
  rw [fetchLookup_of_le (min_le_left _ _)] at h
  simp only [Option.bind_some] at h
  -- the whole input is looked at when it is as long as the record and fits the buffer
  by_cases hwhole : c.inp.length = 5 + readLength (c.inp.take 5) 3 ∧ c.inp.length ≤ 4096
  swap
  · have hquiet : helloMatch cfg w g c = none :=
      if_neg (fun hall => hwhole ⟨hall.2.2.2.1, hall.2.2.2.2.1⟩)
    split at h
    · exact .quiet hquiet hheader (.ofTlsError h)
    · rw [if_pos (by omega)] at h
      exact .quiet hquiet hheader (.ofTlsError h)
  obtain ⟨hlen, hfits⟩ := hwhole
  rw [min_eq_left hfits, List.take_of_length_le le_rfl] at h
  split at h
  · rename_i hsni
    refine .quiet (if_neg ?_) hheader (.ofTlsError h)
    rintro ⟨-, -, -, -, -, -, hsome, -⟩
    rw [hsni] at hsome
    exact absurd hsome (by decide)
  rename_i info hsni
  split at h
  · rename_i hbad
    refine .quiet (if_neg ?_) hheader (.ofTlsError h)
    rintro ⟨-, -, -, -, -, hport, -⟩
    omega
  rename_i hgood
  obtain ⟨⟨verdict, randoms⟩, hcheck, h⟩ := Option.bind_eq_some_iff.mp h
  have hall : ∀ {r : Option ExtActiveSecret}, (cipherSuiteId c.inp c.inp.length).isSome = true →
      verdict = r → helloMatch cfg w g c = r := by
    rintro r hsuite rfl
    unfold helloMatch
    dsimp only
    rw [if_pos ⟨hreads, htls, hlooks, hlen, hfits, fun hport => hgood (Or.inl hport),
      by rw [hsni]; rfl, hsuite⟩, hcheck]
    rfl
  cases hsuite : cipherSuiteId c.inp c.inp.length with
  | none =>
    have hquiet : helloMatch cfg w g c = none := by
      apply if_neg
      rintro ⟨-, -, -, -, -, -, -, hsome⟩
      rw [hsuite] at hsome
      exact absurd hsome (by decide)
    have hret : returnTlsError w (some info) ⟨g.store, randoms⟩ c = some (p, g', c') := by
      cases verdict <;> simpa only [hsuite] using h
    obtain ⟨hstore, hid, htls', hnum'⟩ := Uncounted.ofTlsError hret
    exact .quiet hquiet hheader ⟨hstore, hid, htls', hnum'⟩
  | some suite =>
    rw [hsuite] at h hall
    cases verdict with
    | none =>
      obtain ⟨hstore, hid, htls', hnum'⟩ := Uncounted.ofTlsError h
      exact .quiet (hall rfl rfl) hheader ⟨hstore, hid, htls', hnum'⟩
    | some m =>
      obtain ⟨rest, -, h⟩ := Option.bind_eq_some_iff.mp h
      obtain ⟨response, -, h⟩ := Option.bind_eq_some_iff.mp h
      cases h
      exact .hello (hall rfl rfl) hheader htls rfl rfl hnum

/-- The search for the trial that accepts, where a pass gets to it. -/
theorem headerMatch_eq {g : Globals} {c c₁ : Conn}
    (hreads : passReads c = true) (hconn : headerConn cfg c = some c₁)
    (hlen : 64 ≤ c₁.inp.length) {active : List ExtActiveSecret}
    (hsnap : extSnapshotActiveSecrets w.mallocOk g.store w.snapshotTime.val = some active) :
    headerMatch cfg w g c =
      match trialLoop cfg.crypto cfg.domains.allowOnlyTls (c₁.inp.take 64) (attempts active)
          (TrialVars.start (c₁.inp.take 64)) with
      | .accept a _ _ => some (a, c₁.inp.take 64)
      | _ => none := by
  unfold headerMatch
  rw [hconn]
  dsimp only
  rw [if_pos ⟨hreads, hlen⟩, hsnap]

/-- A pass over a header. -/
theorem headerPass_count {g g' : Globals} {c c₁ c' : Conn}
    {p : Pass} (hreads : passReads c = true) (hconn : headerConn cfg c = some c₁)
    (h : headerPass cfg w g c₁ = some (p, g', c')) : HandshakeCount cfg w g c g' c' := by
  have hhello : helloMatch cfg w g c = none := helloMatch_of_headerConn hconn
  obtain ⟨hframe, hready⟩ := headerConn_spec hconn
  have hsame := hframe.uncounted g
  by_cases hshort : c₁.inp.length < 64
  · have hnone : headerMatch cfg w g c = none := by
      unfold headerMatch
      rw [hconn]
      exact if_neg (fun hall => absurd hall.2 (not_le.mpr hshort))
    rw [headerPass, if_pos hshort] at h
    split at h
    · exact absurd h (by simp)
    · cases h
      exact .quiet hhello hnone hsame
  have hlen := not_lt.mp hshort
  have hready := hready hlen
  cases hsnap : extSnapshotActiveSecrets w.mallocOk g.store w.snapshotTime.val with
  | none =>
    have hnone : headerMatch cfg w g c = none := by
      unfold headerMatch
      rw [hconn]
      dsimp only
      split
      · rw [hsnap]
      · rfl
    rw [headerPass, if_neg hshort, fetchLookup_of_le hlen] at h
    simp only [some_bind, hsnap] at h
    cases h
    exact .quiet hhello hnone hsame
  | some active =>
    have hmatch := headerMatch_eq (w := w) (g := g) hreads hconn hlen hsnap
    cases hfind : (attempts active).find? (hits cfg.crypto (c₁.inp.take 64)) with
    | none =>
      have hno : ∀ a ∈ attempts active, hits cfg.crypto (c₁.inp.take 64) a = false :=
        fun a ha => by simpa using List.find?_eq_none.mp hfind a ha
      obtain ⟨v, hloop⟩ := trialLoop_of_no_match cfg.crypto cfg.domains.allowOnlyTls
        hready.length_header (v := TrialVars.start (c₁.inp.take 64)) rfl
        List.length_replicate hno
      rw [headerPass_of_no_match hready hsnap hno] at h
      cases h
      rw [hloop] at hmatch
      exact .quiet hhello hmatch (hsame.trans ⟨rfl, rfl, rfl, rfl⟩)
    | some a =>
      obtain ⟨v, -, hloop⟩ := trialLoop_of_match cfg.crypto cfg.domains.allowOnlyTls
        hready.length_header (v := TrialVars.start (c₁.inp.take 64)) rfl
        List.length_replicate hfind
      rw [headerPass_of_match hready hsnap hfind] at h
      rw [hloop] at hmatch
      by_cases hpad : LacksPadding cfg.crypto cfg.domains.allowOnlyTls (c₁.inp.take 64) a
      · rw [if_pos hpad] at h hmatch
        obtain ⟨hstore, hid, htls, hnum⟩ := Uncounted.ofTlsError h
        exact .quiet hhello hmatch (hsame.trans ⟨hstore, hid, htls, hnum⟩)
      · rw [if_neg hpad] at h hmatch
        obtain ⟨d, hrun, hkeys, hd⟩ := enterMode_spec cfg
          (decryptHeader cfg.crypto (a.map (·.secret)) (c₁.inp.take 64))
          (headerAes cfg.crypto (a.map (·.secret)) (c₁.inp.take 64)) hready
        rw [acceptHeader_eq hrun] at h
        cases h
        rw [keys_headerAes] at hkeys
        unfold InputFrame at hframe hd
        have hpeer : d.peer = c.peer := by rw [hd, hframe]
        have hid : d.extraInt2 = c.extraInt2 := by rw [hd, hframe]
        have hnum : d.inPacketNum = 0 := by rw [hd]
        refine .header hhello hmatch ?_ hkeys hnum
        rw [← hpeer, ← hid]

/-- **A pass of the handshake** counts what its matches say. -/
theorem parsePass_count {g g' : Globals} {c c' : Conn} {p : Pass}
    (hnum : c.inPacketNum = -3) (h : parsePass cfg w g c = some (p, g', c')) :
    HandshakeCount cfg w g c g' c' := by
  cases hreads : passReads c with
  | false =>
    obtain ⟨res, -, hwait⟩ := parsePass_of_not_reads hreads cfg w g
    rw [hwait] at h
    cases h
    exact .quiet (helloMatch_of_not_reads hreads) (headerMatch_of_not_reads hreads)
      (Uncounted.refl g c)
  | true =>
    rw [parsePass_of_reads hreads, if_pos hnum] at h
    cases hconn : headerConn cfg c with
    | some c₁ =>
      rw [handshakePass_of_headerConn hconn] at h
      exact headerPass_count hreads hconn h
    | none =>
      have hnone : headerMatch cfg w g c = none := by
        unfold headerMatch
        rw [hconn]
      unfold handshakePass at h
      unfold headerConn at hconn
      cases htls : c.isTls with
      | true =>
        have hhello : helloMatch cfg w g c = none :=
          if_neg (fun hall => absurd (htls.symm.trans hall.2.1) (by decide))
        rw [htls, if_pos rfl] at h hconn
        rcases tlsFirstPacket_cases c with ⟨res, hres, hfirst⟩ | ⟨c₁, hframe, hfirst⟩ |
          ⟨c₁, hframe, hready, hfirst⟩
        · rw [hfirst] at h
          cases h
          exact .quiet hhello hnone (Uncounted.refl g c)
        · rw [hfirst] at h
          cases h
          exact .quiet hhello hnone (hframe.uncounted g)
        · rw [hfirst] at hconn
          exact absurd hconn (by simp)
      | false =>
        rw [htls, if_neg (by decide)] at h hconn
        split at h
        · rename_i hlooks
          exact clientHelloPass_count hnum hreads htls hlooks h
        split at h
        · rename_i hnot _
          exact .quiet (if_neg (fun hall => hnot hall.2.2.1)) hnone (.ofTlsError h)
        · rename_i honly
          rw [if_neg honly] at hconn
          exact absurd hconn (by simp)

/-! ## What the other steps count -/

theorem readerLoop_keys (g : Globals) (c : Conn) : (readerLoop g c).2.1.keys = c.keys := by
  unfold readerLoop
  split
  · cases c.type with
    | extServer => rfl
    | proxyPass =>
      unfold tcpProxyPassParseExecute
      dsimp only
      split <;> rfl
  · rfl

theorem readerReturn_keys (res : ℤ) (g : Globals) (c : Conn) :
    (readerReturn res g c).2.1.keys = c.keys := by
  unfold readerReturn
  split
  · exact readerLoop_keys g c
  split <;> rfl

theorem readerSkip_keys (c : Conn) : (readerSkip c).1.keys = c.keys := by
  unfold readerSkip
  split
  · rfl
  split
  · split <;> rfl
  · rfl

theorem readerTake_keys {cr : Crypto} {bytes : Bytes} {c c' : Conn}
    (h : readerTake cr bytes c = some c') : c'.keys = c.keys := by
  unfold readerTake at h
  cases hT : c.crypto with
  | none =>
    rw [hT] at h
    cases h
    unfold Conn.keys
    rw [hT]
  | some T =>
    rw [hT] at h
    obtain ⟨⟨res, d⟩, hrun, h⟩ := Option.bind_eq_some_iff.mp h
    dsimp only at h
    split at h
    · exact absurd h (by simp)
    · cases h
      rw [cryptoDecryptInput_eq cr (by simp)] at hrun
      unfold Conn.keys
      rw [hT]
      exact (decryptLoop_frame cr hrun).2.2

/-- **The reader** counts nothing and keeps the keys. -/
theorem cpuTcpServerReader_count {cr : Crypto} {bytes : Bytes} {g g' : Globals} {c c' : Conn}
    {b : Bool} (h : cpuTcpServerReader cr bytes g c = some (g', c', b)) :
    Uncounted g c g' c' ∧ c'.keys = c.keys := by
  have hframe := (cpuTcpServerReader_frame h).1
  suffices hboth : g' = g ∧ c'.keys = c.keys by
    obtain ⟨rfl, hkeys⟩ := hboth
    exact ⟨hframe.uncounted g', hkeys⟩
  obtain ⟨c₁, htake, h⟩ := Option.bind_eq_some_iff.mp h
  have hkeys := readerTake_keys htake
  split at h
  · cases h
    exact ⟨rfl, hkeys⟩
  dsimp only at h
  split at h
  · obtain ⟨rfl, hc, -⟩ : (readerLoop g (readerSkip c₁).1).1 = g' ∧
        (readerLoop g (readerSkip c₁).1).2.1 = c' ∧ _ := by simpa [Prod.ext_iff] using h
    refine ⟨readerLoop_globals g _, ?_⟩
    rw [← hc, readerLoop_keys, readerSkip_keys, hkeys]
  · cases h
    exact ⟨rfl, (readerSkip_keys c₁).trans hkeys⟩

/-- **Reading** counts nothing. -/
theorem step_read_count {cfg : ExtConfig} {s s' : ConnState} {bytes : Bytes}
    (h : s.step cfg (.read bytes) = some s') :
    Uncounted s.globals s.conn s'.globals s'.conn ∧ s'.conn.keys = s.conn.keys := by
  simp only [ConnState.step] at h
  split at h
  · exact absurd h (by simp)
  · obtain ⟨⟨g, c, b⟩, hrun, h⟩ := Option.bind_eq_some_iff.mp h
    cases h
    exact cpuTcpServerReader_count hrun

theorem executePacket_keys (w : World) (msg : Bytes) (c : Conn) :
    (executePacket w msg c).keys = c.keys := by
  unfold executePacket
  split
  · split <;> rfl
  · dsimp only
    split <;> rfl

/-- **A pass over packets** leaves the store and the keys alone. -/
theorem parsePass_packets {g g' : Globals} {c c' : Conn} {p : Pass}
    (hnum : c.inPacketNum ≠ -3) (h : parsePass cfg w g c = some (p, g', c')) :
    g' = g ∧ c'.keys = c.keys := by
  cases hreads : passReads c with
  | false =>
    obtain ⟨res, -, hwait⟩ := parsePass_of_not_reads hreads cfg w g
    rw [hwait] at h
    cases h
    exact ⟨rfl, rfl⟩
  | true =>
    rw [parsePass_of_reads hreads, if_neg hnum] at h
    unfold packetPass at h
    split at h
    · cases h
      exact ⟨rfl, rfl⟩
    dsimp only at h
    split at h
    · cases h
      exact ⟨rfl, rfl⟩
    split at h
    · cases h
      exact ⟨rfl, rfl⟩
    · obtain ⟨raw, -, h⟩ := Option.bind_eq_some_iff.mp h
      obtain ⟨packetType, -, h⟩ := Option.bind_eq_some_iff.mp h
      obtain ⟨num, -, h⟩ := Option.bind_eq_some_iff.mp h
      cases h
      exact ⟨rfl, executePacket_keys w _ _⟩

/-- A step of the parser is a pass, after which only the reader acts. -/
theorem step_pass_count {cfg : ExtConfig} {s s' : ConnState} {w : World}
    (h : s.step cfg (.pass w) = some s') :
    ∃ p g c, parsePass cfg w s.globals s.conn = some (p, g, c) ∧
      Uncounted g c s'.globals s'.conn ∧ s'.conn.keys = c.keys := by
  simp only [ConnState.step] at h
  split at h
  · obtain ⟨⟨p, g, c⟩, hpass, h⟩ := Option.bind_eq_some_iff.mp h
    refine ⟨p, g, c, hpass, ?_⟩
    cases p with
    | again =>
      cases h
      exact ⟨Uncounted.refl g c, rfl⟩
    | ret res =>
      cases h
      obtain ⟨-, hid, htls, hnum⟩ := (readerReturn_frame res g c).uncounted g
      exact ⟨⟨congrArg Globals.store (readerReturn_globals res g c), hid, htls, hnum⟩,
        readerReturn_keys res g c⟩
  · exact absurd h (by simp)

/-- **The alarm** counts nothing; after the handshake it does nothing. -/
theorem step_alarm_count {cfg : ExtConfig} {s s' : ConnState} {w : World}
    (h : s.step cfg (.alarm w) = some s') :
    Uncounted s.globals s.conn s'.globals s'.conn ∧
      (s.conn.inPacketNum ≠ -3 → s'.conn.keys = s.conn.keys) := by
  have hsame := Uncounted.refl s.globals s.conn
  simp only [ConnState.step] at h
  split at h
  · exact absurd h (by simp)
  cases h
  dsimp only
  unfold tcpRpcsExtAlarm
  split
  · exact ⟨hsame, fun _ => rfl⟩
  split
  · rename_i info htype hinfo
    split
    · rename_i hnum
      refine ⟨?_, fun hne => absurd hnum hne⟩
      have hg := proxyConnection_globals w info s.globals s.conn
      rcases proxyConnection_cases w info s.globals s.conn with ⟨g', hp⟩ | ⟨c', hp, hframe, -⟩
      · rw [hp] at hg ⊢
        obtain rfl : g' = s.globals := hg
        exact ⟨rfl, rfl, rfl, rfl⟩
      · rw [hp]
        exact hframe.uncounted s.globals
    · exact ⟨hsame, fun _ => rfl⟩
  · exact ⟨hsame, fun _ => rfl⟩

/-! ## The tally -/

/-- A step that leaves the store alone adds nothing. -/
theorem Tally.count_of_store {a : Tally} {s' : ConnState}
    (h : s'.globals.store = a.state.globals.store) :
    (a.count s').total = a.total ∧ (a.count s').connections = a.connections := by
  unfold Tally.count
  rw [h]
  constructor
  · simp
  · funext j
    simp

/-- Attaching nothing new. -/
theorem extMetricsAttach_skip {now : TimeT} {C : PeerAddr} {extraInt2 id x : ℤ} {s s' : ExtStore}
    (h : extMetricsAttachSecretToConnection now C extraInt2 id s = (x, s'))
    (hskip : id ≤ 0 ∨ extraInt2 = id) : x = extraInt2 ∧ s' = s := by
  rw [extMetricsAttachSecretToConnection, if_pos hskip] at h
  cases h
  exact ⟨rfl, rfl⟩

/-- Attaching an id that is not attached yet. -/
theorem extMetricsAttach_new {now : TimeT} {C : PeerAddr} {extraInt2 id x : ℤ} {s s' : ExtStore}
    (h : extMetricsAttachSecretToConnection now C extraInt2 id s = (x, s')) (hpos : 0 < id)
    (hne : extraInt2 ≠ id) :
    x = id ∧ s'.extTotalConnections = s.extTotalConnections + 1 ∧
      ∀ j : ℕ, (s'.metric j).connections = (s.metric j).connections +
        (if id < s.extSecretMetricsCap then oneAt id j else 0) := by
  rcases extMetricsAttach_cases now C extraInt2 id s with
    hsame | ⟨-, s₁, hnew, -, -, -, -, -, -, hconn, hmet⟩
  · rw [extMetricsAttachSecretToConnection, if_neg (by omega)] at hsame
    exact absurd (congrArg Prod.fst hsame).symm hne
  rw [hnew] at h
  cases h
  refine ⟨rfl, hconn, fun j => ?_⟩
  by_cases hcap : id < s.extSecretMetricsCap
  · rw [if_pos hcap] at hmet ⊢
    have hcell : ∀ i : ℤ, s'.metric i = (s.setMetric id (s.metric id).countConnection).metric i := by
      intro i
      unfold ExtStore.metric ExtStore.setMetric
      rw [hmet]
      rfl
    rw [hcell]
    by_cases hj : j = id.toNat
    · have hid : (j : ℤ) = id := by omega
      rw [hid, metric_setMetric_self hpos.le hcap, oneAt, hj, Function.update_self]
      rfl
    · rw [metric_setMetric_of_ne hpos.le (Int.natCast_nonneg j) (by omega), oneAt,
        Function.update_of_ne hj, Int64.add_zero]
  · rw [if_neg hcap] at hmet ⊢
    have hcell : s'.metric j = s.metric j := by
      unfold ExtStore.metric
      rw [hmet]
    rw [hcell, Int64.add_zero]

/-- A step that attaches a new id adds one connection, and one to the cell of the id. -/
theorem Tally.count_of_attach {a : Tally} {s' : ConnState} {id : ℤ}
    (htotal : s'.globals.store.extTotalConnections
      = a.state.globals.store.extTotalConnections + 1)
    (hcell : ∀ j : ℕ, (s'.globals.store.metric j).connections
      = (a.state.globals.store.metric j).connections +
        (if id < a.state.globals.store.extSecretMetricsCap then oneAt id j else 0)) :
    (a.count s').total = a.total + 1 ∧
      (a.count s').connections = fun j => a.connections j +
        (if id < a.state.globals.store.extSecretMetricsCap then oneAt id j else 0) := by
  unfold Tally.count
  constructor
  · dsimp only
    rw [htotal]
    grind
  · funext j
    dsimp only
    rw [hcell]
    grind

/-- What holds of a tally; `sofar` says that every step met `NamesOneSecret`. -/
inductive TallyInv (cfg : ExtConfig) (sofar : Prop) (a : Tally) : Prop where
  /-- Nothing has matched that could be counted. -/
  | fresh (num : a.state.conn.inPacketNum = -3) (id : a.state.conn.extraInt2 = 0)
      (opened : a.opened = none) (holds : sofar) (total : a.total = 0)
      (cells : a.connections = fun _ => 0)
  /-- A ClientHello has matched. -/
  | greeted (num : a.state.conn.inPacketNum = -3) (id : 0 < a.state.conn.extraInt2)
      (tls : a.state.conn.isTls = true) (opened : a.opened = none) (total : a.total = 1)
      (good : sofar → a.connections = oneAt a.state.conn.extraInt2)
      (bad : ¬ sofar → a.connections = fun _ => 0)
  /-- The header was accepted. -/
  | counted (num : a.state.conn.inPacketNum ≠ -3)
      (int : -2 ^ 31 ≤ a.state.conn.inPacketNum ∧ a.state.conn.inPacketNum < 2 ^ 31)
      (iff : CountedOnce cfg a ↔ sofar)

theorem tallyInv_accepted (cfg : ExtConfig) (g : Globals) (ourPort : ℕ) (peer : PeerAddr) :
    TallyInv cfg True (Tally.accepted g ourPort peer) :=
  .fresh rfl rfl rfl trivial rfl rfl

/-- Before the header is accepted, a step that counts nothing and matches nothing. -/
theorem TallyInv.same {cfg : ExtConfig} {sofar : Prop} {a a' : Tally} (h : TallyInv cfg sofar a)
    (hnum : a.state.conn.inPacketNum = -3) (hid : a'.state.conn.extraInt2 = a.state.conn.extraInt2)
    (htls : a'.state.conn.isTls = a.state.conn.isTls)
    (hnum' : a'.state.conn.inPacketNum = a.state.conn.inPacketNum)
    (hopened : a.opened = none → a'.opened = none) (htotal : a'.total = a.total)
    (hcells : a'.connections = a.connections) : TallyInv cfg sofar a' := by
  cases h with
  | fresh num id opened holds total cells =>
    exact .fresh (hnum'.trans num) (hid.trans id) (hopened opened) holds (htotal.trans total)
      (hcells.trans cells)
  | greeted num id tls opened total good bad =>
    refine .greeted (hnum'.trans num) (hid ▸ id) (htls.trans tls) (hopened opened)
      (htotal.trans total) ?_ ?_
    · intro hsofar
      rw [hcells, hid]
      exact good hsofar
    · intro hnot
      rw [hcells]
      exact bad hnot
  | counted num int iff => exact absurd hnum num

/-- After the header is accepted, a step that counts nothing and keeps the keys. -/
theorem TallyInv.after {cfg : ExtConfig} {sofar : Prop} {a a' : Tally} {e : ConnEvent}
    (hstep : a.state.step cfg e = some a'.state)
    (hnum : a.state.conn.inPacketNum ≠ -3)
    (hint : -2 ^ 31 ≤ a.state.conn.inPacketNum ∧ a.state.conn.inPacketNum < 2 ^ 31)
    (hiff : CountedOnce cfg a ↔ sofar) (hkeys : a'.state.conn.keys = a.state.conn.keys)
    (hopened : a'.opened = a.opened) (htotal : a'.total = a.total)
    (hcells : a'.connections = a.connections) : TallyInv cfg sofar a' := by
  have hsame : CountedOnce cfg a' ↔ CountedOnce cfg a := by
    constructor
    · rintro ⟨htot, hsecret⟩
      rw [hopened, hkeys, hcells] at hsecret
      exact ⟨htotal ▸ htot, hsecret⟩
    · rintro ⟨htot, hsecret⟩
      rw [← hopened, ← hkeys, ← hcells] at hsecret
      exact ⟨htotal ▸ htot, hsecret⟩
  have hnext : a'.state.conn.inPacketNum ≠ -3 ∧
      -2 ^ 31 ≤ a'.state.conn.inPacketNum ∧ a'.state.conn.inPacketNum < 2 ^ 31 := by
    rcases inPacketNum_step hstep with hkeep | ⟨hshake, -⟩ | ⟨hpos, hcount⟩
    · rw [hkeep]
      exact ⟨hnum, hint⟩
    · exact absurd hshake hnum
    · rw [hcount]
      refine ⟨?_, isInt32_wrap32 _⟩
      -- the number that follows is positive, or the least `int`
      by_cases hlast : a.state.conn.inPacketNum + 1 < 2 ^ 31
      · rw [wrap32_of_isInt32 ⟨by omega, hlast⟩]
        omega
      · have hmax : a.state.conn.inPacketNum + 1 = 2 ^ 31 := by omega
        rw [hmax]
        decide
  exact .counted hnext.1 hnext.2 (hsame.trans hiff)

theorem oneAt_self {id : ℤ} : oneAt id id.toNat = 1 := Function.update_self ..

theorem oneAt_of_ne {id : ℤ} {j : ℕ} (h : j ≠ id.toNat) : oneAt id j = 0 :=
  Function.update_of_ne h ..

theorem oneAt_ne_zero (id : ℤ) : oneAt id ≠ fun _ => 0 := by
  intro h
  have h1 := congrFun h id.toNat
  rw [oneAt_self] at h1
  exact absurd h1 (by decide)

/-- What counting in an empty tally leaves. -/
theorem cells_of_first {cells : ℕ → Int64} (h : cells = fun _ => 0) (id cap : ℤ) :
    (id < cap → (fun j => cells j + (if id < cap then oneAt id j else 0)) = oneAt id) ∧
      (¬ id < cap → (fun j => cells j + (if id < cap then oneAt id j else 0)) = fun _ => 0) := by
  rw [h]
  constructor
  · intro hcap
    funext j
    rw [if_pos hcap, Int64.zero_add]
  · intro hcap
    funext j
    rw [if_neg hcap, Int64.zero_add]

/-- **A ClientHello matches.**  It is the first match, so it is counted if the id of its secret
is positive. -/
theorem TallyInv.hello {cfg : ExtConfig} {sofar : Prop} {a : Tally} {s' : ConnState}
    {now : TimeT} {C : PeerAddr} {id : ℤ} {names : Prop} (h : TallyInv cfg sofar a)
    (hnum : a.state.conn.inPacketNum = -3) (hplain : a.state.conn.isTls = false)
    (hattach : extMetricsAttachSecretToConnection now C a.state.conn.extraInt2 id
      a.state.globals.store = (s'.conn.extraInt2, s'.globals.store))
    (htls : s'.conn.isTls = true) (hnum' : s'.conn.inPacketNum = -3)
    (hnames : names ↔ id ≤ 0 ∨ id < a.state.globals.store.extSecretMetricsCap) :
    TallyInv cfg (sofar ∧ names) { a.count s' with opened := none } := by
  cases h with
  | greeted num id tls => exact absurd (hplain.symm.trans tls) (by decide)
  | counted num => exact absurd hnum num
  | fresh num hid opened holds total cells =>
    by_cases hpos : 0 < id
    · obtain ⟨hid', htotal, hcell⟩ := extMetricsAttach_new hattach hpos (by omega)
      obtain ⟨htotal', hcells'⟩ := Tally.count_of_attach (a := a) htotal hcell
      have hfirst := cells_of_first cells id a.state.globals.store.extSecretMetricsCap
      refine .greeted hnum' (by rw [← hid'] at hpos; exact hpos) htls rfl ?_ ?_ ?_
      · exact htotal'.trans (by rw [total]; rfl)
      · rintro ⟨-, hn⟩
        refine hcells'.trans ((hfirst.1 ?_).trans (by rw [← hid']; rfl))
        exact (hnames.mp hn).resolve_left (not_le.mpr hpos)
      · intro hnot
        refine hcells'.trans (hfirst.2 (fun hcap => hnot ⟨holds, hnames.mpr (Or.inr hcap)⟩))
    · obtain ⟨hid', hstore⟩ := extMetricsAttach_skip hattach (Or.inl (not_lt.mp hpos))
      obtain ⟨htotal, hcells⟩ := Tally.count_of_store (a := a) hstore
      exact .fresh hnum' (hid'.trans hid) rfl ⟨holds, hnames.mpr (Or.inl (not_lt.mp hpos))⟩
        (htotal.trans total) (hcells.trans cells)

/-- **The header is accepted.**  The connection is counted once if this match is the first
one, or names the secret that the first one named. -/
theorem TallyInv.header {cfg : ExtConfig} {sofar : Prop} {a : Tally} {s' : ConnState}
    {now : TimeT} {C : PeerAddr} {r : Option ExtActiveSecret} {bytes : Bytes} {names : Prop}
    (h : TallyInv cfg sofar a) (hnum : a.state.conn.inPacketNum = -3)
    (hattach : extMetricsAttachSecretToConnection now C a.state.conn.extraInt2
      ((r.map (·.id)).getD 0) a.state.globals.store = (s'.conn.extraInt2, s'.globals.store))
    (hkeys : s'.conn.keys = some (headerKeys cfg.crypto (r.map (·.secret)) bytes))
    (hnum' : s'.conn.inPacketNum = 0)
    (hnames : names ↔ ∃ m, r = some m ∧ 0 < m.id ∧ (a.state.conn.extraInt2 = m.id ∨
      (a.state.conn.extraInt2 = 0 ∧ m.id < a.state.globals.store.extSecretMetricsCap))) :
    TallyInv cfg (sofar ∧ names) { a.count s' with opened := some (r, bytes) } := by
  have hzero : ({ a.count s' with opened := some (r, bytes) } : Tally).state.conn.inPacketNum = 0 :=
    hnum'
  refine .counted (by omega) ⟨by omega, by omega⟩ ?_
  cases r with
  | none =>
    -- without a secret there is nothing to count the connection under
    constructor
    · rintro ⟨-, m, header, hopened, -⟩
      exact absurd hopened (by simp)
    · rintro ⟨-, hn⟩
      obtain ⟨m, hm, -⟩ := hnames.mp hn
      exact absurd hm (by simp)
  | some m =>
    have honce : CountedOnce cfg { a.count s' with opened := some (some m, bytes) } ↔
        (a.count s').total = 1 ∧ (a.count s').connections = oneAt m.id := by
      constructor
      · rintro ⟨htotal, m', header, hopened, -, hcells⟩
        cases hopened
        exact ⟨htotal, hcells⟩
      · rintro ⟨htotal, hcells⟩
        exact ⟨htotal, m, bytes, rfl, hkeys, hcells⟩
    rw [honce]
    have hnames' : names ↔ 0 < m.id ∧ (a.state.conn.extraInt2 = m.id ∨
        (a.state.conn.extraInt2 = 0 ∧ m.id < a.state.globals.store.extSecretMetricsCap)) := by
      rw [hnames]
      constructor
      · rintro ⟨m', hm, hrest⟩
        cases hm
        exact hrest
      · exact fun hrest => ⟨m, rfl, hrest⟩
    rw [hnames']
    change extMetricsAttachSecretToConnection now C a.state.conn.extraInt2 m.id
      a.state.globals.store = _ at hattach
    cases h with
    | counted num => exact absurd hnum num
    | fresh num hid opened holds total cells =>
      by_cases hpos : 0 < m.id
      · obtain ⟨-, htotal, hcell⟩ := extMetricsAttach_new hattach hpos (by omega)
        obtain ⟨htotal', hcells'⟩ := Tally.count_of_attach (a := a) htotal hcell
        obtain ⟨hgood, hbad⟩ :=
          cells_of_first cells m.id a.state.globals.store.extSecretMetricsCap
        rw [htotal', hcells', total]
        constructor
        · rintro ⟨-, hone⟩
          refine ⟨holds, hpos, Or.inr ⟨hid, ?_⟩⟩
          by_contra hcap
          rw [hbad hcap] at hone
          exact oneAt_ne_zero m.id hone.symm
        · rintro ⟨-, -, hsame | ⟨-, hcap⟩⟩
          · omega
          · exact ⟨rfl, hgood hcap⟩
      · obtain ⟨-, hstore⟩ := extMetricsAttach_skip hattach (Or.inl (not_lt.mp hpos))
        obtain ⟨htotal, -⟩ := Tally.count_of_store (a := a) hstore
        rw [htotal]
        constructor
        · rintro ⟨hone, -⟩
          exact absurd (total.symm.trans hone) (by decide)
        · rintro ⟨-, hp, -⟩
          exact absurd hp hpos
    | greeted num hid tls opened total good bad =>
      by_cases hskip : m.id ≤ 0 ∨ a.state.conn.extraInt2 = m.id
      · obtain ⟨-, hstore⟩ := extMetricsAttach_skip hattach hskip
        obtain ⟨htotal, hcells⟩ := Tally.count_of_store (a := a) hstore
        rw [htotal, hcells]
        constructor
        · rintro ⟨-, hone⟩
          have hsofar : sofar := by
            by_contra hnot
            rw [bad hnot] at hone
            exact oneAt_ne_zero m.id hone.symm
          have hsame : a.state.conn.extraInt2 = m.id := by
            by_contra hne
            have hcell := congrFun ((good hsofar).symm.trans hone) m.id.toNat
            rw [oneAt_self, oneAt_of_ne (by omega)] at hcell
            exact absurd hcell (by decide)
          exact ⟨hsofar, by omega, Or.inl hsame⟩
        · rintro ⟨hsofar, hpos, hsame | ⟨hzero, -⟩⟩
          · exact ⟨total, by rw [← hsame]; exact good hsofar⟩
          · omega
      · obtain ⟨-, htotal, hcell⟩ := extMetricsAttach_new hattach (by omega) (by omega)
        obtain ⟨htotal', -⟩ := Tally.count_of_attach (a := a) htotal hcell
        rw [htotal', total]
        constructor
        · rintro ⟨htwo, -⟩
          exact absurd htwo (by decide)
        · rintro ⟨-, hpos, hsame | ⟨hzero, -⟩⟩
          · omega
          · omega

/-! ## Runs -/

/-- **One event.** -/
theorem TallyInv.step {cfg : ExtConfig} {sofar : Prop} {a a' : Tally} {e : ConnEvent}
    (h : TallyInv cfg sofar a) (hstep : a.step cfg e = some a') :
    TallyInv cfg (sofar ∧ NamesOneSecret cfg a e) a' := by
  obtain ⟨s', hs, rfl⟩ := Option.map_eq_some_iff.mp hstep
  -- a step that matches nothing keeps the tally and meets the condition
  have hquiet : ∀ {b : Tally}, b.state = s' → NamesOneSecret cfg a e →
      Uncounted a.state.globals a.state.conn s'.globals s'.conn →
      (a.state.conn.inPacketNum ≠ -3 → s'.conn.keys = a.state.conn.keys) →
      (a.opened = none → b.opened = none) →
      (a.state.conn.inPacketNum ≠ -3 → b.opened = a.opened) → b.total = a.total →
      b.connections = a.connections → TallyInv cfg (sofar ∧ NamesOneSecret cfg a e) b := by
    rintro b rfl hnames hsame hkeys hnone hopened htotal hcells
    have hsofar : (sofar ∧ NamesOneSecret cfg a e) = sofar :=
      propext ⟨fun hboth => hboth.1, fun hs => ⟨hs, hnames⟩⟩
    rw [hsofar]
    by_cases hnum : a.state.conn.inPacketNum = -3
    · exact h.same hnum hsame.extraInt2 hsame.isTls hsame.inPacketNum hnone htotal hcells
    · cases h with
      | fresh num => exact absurd num hnum
      | greeted num => exact absurd num hnum
      | counted num int iff =>
        exact TallyInv.after hs hnum int iff (hkeys hnum) (hopened hnum) htotal hcells
  cases e with
  | read bytes =>
    obtain ⟨hsame, hkeys⟩ := step_read_count hs
    obtain ⟨htotal, hcells⟩ := Tally.count_of_store (a := a) hsame.store
    exact hquiet rfl trivial hsame (fun _ => hkeys) id (fun _ => rfl) htotal hcells
  | alarm w =>
    obtain ⟨hsame, hkeys⟩ := step_alarm_count hs
    obtain ⟨htotal, hcells⟩ := Tally.count_of_store (a := a) hsame.store
    exact hquiet rfl trivial hsame hkeys id (fun _ => rfl) htotal hcells
  | others f g =>
    -- the store may change, but this is not counted for the connection
    have hnames : (sofar ∧ NamesOneSecret cfg a (.others f g)) = sofar :=
      propext ⟨fun hboth => hboth.1, fun hsofar => ⟨hsofar, trivial⟩⟩
    rw [hnames]
    have hconn := (step_others_cases hs).2
    have hid : s'.conn.extraInt2 = a.state.conn.extraInt2 := by rw [hconn]
    have htls : s'.conn.isTls = a.state.conn.isTls := by rw [hconn]
    have hnum' : s'.conn.inPacketNum = a.state.conn.inPacketNum := by rw [hconn]
    have hkeys : s'.conn.keys = a.state.conn.keys := by
      rw [hconn]
      rfl
    by_cases hnum : a.state.conn.inPacketNum = -3
    · exact h.same hnum hid htls hnum' id rfl rfl
    · cases h with
      | fresh num => exact absurd num hnum
      | greeted num => exact absurd num hnum
      | counted num int iff => exact TallyInv.after hs num int iff hkeys rfl rfl rfl
  | pass w =>
    obtain ⟨p, g, c, hpass, hafter, hkeysAfter⟩ := step_pass_count hs
    by_cases hnum : a.state.conn.inPacketNum = -3
    · have hnote : a.note cfg s' (.pass w) = { a.count s' with
          opened := headerMatch cfg w a.state.globals a.state.conn } := by
        simp only [Tally.note, if_pos hnum]
      rw [hnote]
      cases parsePass_count hnum hpass with
      | quiet hello header same =>
        have hsame := same.trans hafter
        obtain ⟨htotal, hcells⟩ := Tally.count_of_store (a := a) hsame.store
        have hnames : NamesOneSecret cfg a (.pass w) := by
          intro _
          rw [hello, header]
          exact ⟨fun m hm => absurd hm (by simp), fun r b hr => absurd hr (by simp)⟩
        exact hquiet rfl hnames hsame (fun hne => absurd hnum hne) (fun _ => header)
          (fun hne => absurd hnum hne) htotal hcells
      | @hello m hello header plain attach tls num =>
        rw [header]
        rw [← hafter.extraInt2, ← hafter.store] at attach
        refine h.hello hnum plain attach (hafter.isTls.trans tls)
          (hafter.inPacketNum.trans num) ?_
        simp [NamesOneSecret, hello, header, hnum]
      | @header r bytes hello header attach keys num =>
        rw [header]
        rw [← hafter.extraInt2, ← hafter.store] at attach
        apply h.header hnum attach (hkeysAfter.trans keys) (hafter.inPacketNum.trans num)
        simp [NamesOneSecret, hello, header, hnum]
    · obtain ⟨rfl, hkeys⟩ := parsePass_packets hnum hpass
      obtain ⟨htotal, hcells⟩ := Tally.count_of_store (a := a) hafter.store
      have hopened : (a.note cfg s' (.pass w)).opened = a.opened := by
        simp only [Tally.note, if_neg hnum]
      cases h with
      | fresh num => exact absurd num hnum
      | greeted num => exact absurd num hnum
      | counted num int iff =>
        have hsofar : (sofar ∧ NamesOneSecret cfg a (.pass w)) = sofar :=
          propext ⟨fun hboth => hboth.1, fun hs => ⟨hs, fun hne => absurd hne hnum⟩⟩
        rw [hsofar]
        exact TallyInv.after hs hnum int iff (hkeysAfter.trans hkeys) hopened htotal hcells

/-- **One connection, one count, up to the exceptions.**  Along every run of a connection, with
any stores at any times, any bytes in any pieces and other threads acting in between: once the
handshake is completed, the connection was counted once, for the secret that its packets are
decrypted under, if and only if its matches named one secret. -/
theorem countedOnce_iff (cfg : ExtConfig) (g : Globals) (ourPort : ℕ) (peer : PeerAddr)
    (es : List ConnEvent) (a : Tally)
    (hrun : Runs.run (Tally.step cfg) (Tally.accepted g ourPort peer) es = some a)
    (hdone : 0 ≤ a.state.conn.inPacketNum) :
    CountedOnce cfg a ↔
      Runs.Along (Tally.step cfg) (NamesOneSecret cfg) (Tally.accepted g ourPort peer) es := by
  have hinv := Runs.run_exact (C := NamesOneSecret cfg) (P := TallyInv cfg)
    (fun _ _ _ _ h hs => TallyInv.step h hs) (tallyInv_accepted cfg g ourPort peer) hrun
  cases hinv with
  | fresh num => omega
  | greeted num => omega
  | counted num int iff => simpa using iff

/-! ## Sample handshakes -/

/-- A handshake in fake TLS: the ClientHello, which the first secret matches, and a header
whose tag is four times the byte `b`. -/
def tlsHandshake (b : UInt8) : List ConnEvent :=
  [.read sampleHello, .pass World.calm, .read (dummyChangeCipherSpec ++ [0, 64] ++ plainHeader b),
    .pass World.calm]

/-- A client that keeps to the first secret is counted once. -/
theorem countedOnce_sample :
    ∃ a, Runs.run (Tally.step ExtConfig.keyed)
        (Tally.accepted Globals.twoSecrets 443 PeerAddr.unknown) (tlsHandshake 0xdd) = some a ∧
      0 ≤ a.state.conn.inPacketNum ∧ CountedOnce ExtConfig.keyed a := by
  have hdone : (Runs.run (Tally.step ExtConfig.keyed)
      (Tally.accepted Globals.twoSecrets 443 PeerAddr.unknown) (tlsHandshake 0xdd)).map
        (fun a => a.state.conn.inPacketNum) = some 0 := by decide +kernel
  obtain ⟨a, hrun, hnum⟩ := Option.map_eq_some_iff.mp hdone
  have hone : Runs.Along (Tally.step ExtConfig.keyed) (NamesOneSecret ExtConfig.keyed)
      (Tally.accepted Globals.twoSecrets 443 PeerAddr.unknown) (tlsHandshake 0xdd) := by
    decide +kernel
  exact ⟨a, hrun, hnum.ge, (countedOnce_iff _ _ _ _ _ a hrun hnum.ge).mpr hone⟩

/-- A client whose ClientHello names the first secret and whose header names the second is
counted twice. -/
theorem not_countedOnce_twoSecrets :
    ∃ a, Runs.run (Tally.step ExtConfig.keyed)
        (Tally.accepted Globals.twoSecrets 443 PeerAddr.unknown) (tlsHandshake 0xdc) = some a ∧
      0 ≤ a.state.conn.inPacketNum ∧ ¬ CountedOnce ExtConfig.keyed a := by
  have hdone : (Runs.run (Tally.step ExtConfig.keyed)
      (Tally.accepted Globals.twoSecrets 443 PeerAddr.unknown) (tlsHandshake 0xdc)).map
        (fun a => (a.state.conn.inPacketNum, a.total)) = some (0, 2) := by decide +kernel
  obtain ⟨a, hrun, ha⟩ := Option.map_eq_some_iff.mp hdone
  obtain ⟨hnum, htotal⟩ := Prod.mk.inj ha
  refine ⟨a, hrun, hnum.ge, fun honce => ?_⟩
  exact absurd (htotal.symm.trans honce.total) (by decide)

end MtprotoProxy
