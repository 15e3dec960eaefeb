/-
# The trial decryption of the 64-byte header

The loop of trials in `tcp_rpcs_compact_parse_execute` decrypts the header in place, once
for every active secret.  `headerKeys` and `decryptHeader` say what one trial computes from
the header and one secret alone; `trialLoop_spec` says that the loop finds the first secret
whose trial yields a mode tag, whatever was tried before it.

From this, two runs of the loop whose stores agree on the one matching secret agree in
everything but the id of that secret.
-/
import MtprotoProxy.ConnectionRun

namespace MtprotoProxy

open CLib

/-! ## One trial -/

/-- The keys that a secret gives for a header; without a secret they are in the header
itself. -/
def headerKeys (cr : Crypto) (secret : Option Secret) (header : Bytes) : AesKeyData :=
  let readIv := slice header 40 16
  let writeKey := (slice header 24 32).reverse
  let writeIv := (slice header 8 16).reverse
  match secret with
  | some s =>
    ⟨cr.sha256 (slice header 8 32 ++ s.val), readIv, cr.sha256 (writeKey ++ s.val), writeIv⟩
  | none => ⟨slice header 8 32, readIv, writeKey, writeIv⟩

/-- The header decrypted under the keys of a secret. -/
def decryptHeader (cr : Crypto) (secret : Option Secret) (header : Bytes) : Bytes :=
  (evpCrypt cr (aesCryptoCtr128Init (headerKeys cr secret header)).readAeskey header).1

/-- The cipher after the header has gone through it. -/
def headerAes (cr : Crypto) (secret : Option Secret) (header : Bytes) : AesCrypto :=
  let T := aesCryptoCtr128Init (headerKeys cr secret header)
  { T with readAeskey := (evpCrypt cr T.readAeskey header).2 }

/-- The tag that the trial of a secret yields. -/
def trialTag (cr : Crypto) (header : Bytes) (secret : Option Secret) : ℕ :=
  headerTag (decryptHeader cr secret header)

@[simp] theorem keys_headerAes (cr : Crypto) (secret : Option Secret) (header : Bytes) :
    (headerAes cr secret header).keys = headerKeys cr secret header := rfl

/-- Two pieces that fill a buffer. -/
theorem memcpyAt_memcpyAt {k a b : Bytes} (h : a.length + b.length = k.length) :
    memcpyAt (memcpyAt k 0 a) a.length b = a ++ b := by
  simp only [memcpyAt, List.take_zero, List.nil_append, Nat.zero_add]
  rw [List.take_left, List.drop_of_length_le, List.append_nil]
  rw [List.length_append, List.length_drop]
  omega

/-- A buffer that starts with `n` bytes keeps the rest when they are overwritten. -/
theorem memcpyAt_zero_append {a b c : Bytes} (h : c.length = a.length) :
    memcpyAt (a ++ b) 0 c = c ++ b := by
  simp [memcpyAt, h]

/-- **One trial** computes the keys of its secret, whatever is in `k` and `key_data`. -/
theorem trialKeyData_spec (cr : Crypto) (secret : Option Secret) {v : TrialVars}
    (hheader : v.randomHeader.length = 64) (hk : v.k.length = 48) :
    (trialKeyData cr secret v).randomHeader = v.randomHeader ∧
      (trialKeyData cr secret v).k.length = 48 ∧
      (trialKeyData cr secret v).keyData = headerKeys cr secret v.randomHeader := by
  cases secret with
  | none => exact ⟨rfl, hk, rfl⟩
  | some s =>
    have hread : (slice v.randomHeader 8 32).length = 32 := length_slice _ _ _ (by omega)
    have hwrite : (slice v.randomHeader 24 32).reverse.length = 32 := by
      rw [List.length_reverse, length_slice _ _ _ (by omega)]
    have hs : s.val.length = 16 := s.property
    have hk₁ : memcpyAt (memcpyAt v.k 0 (slice v.randomHeader 8 32)) 32 s.val
        = slice v.randomHeader 8 32 ++ s.val := by
      have hfill := memcpyAt_memcpyAt (k := v.k) (a := slice v.randomHeader 8 32)
        (b := s.val) (by omega)
      rwa [hread] at hfill
    have hk₂ : memcpyAt (slice v.randomHeader 8 32 ++ s.val) 0
        (slice v.randomHeader 24 32).reverse
          = (slice v.randomHeader 24 32).reverse ++ s.val :=
      memcpyAt_zero_append (by rw [hread, hwrite])
    refine ⟨rfl, ?_, ?_⟩
    · show (memcpyAt (memcpyAt _ 32 s.val) 0 _).length = 48
      rw [hk₁, hk₂, List.length_append, hwrite, hs]
    · show AesKeyData.mk (cr.sha256 ((memcpyAt _ 32 s.val).take 48)) _
        (cr.sha256 ((memcpyAt (memcpyAt _ 32 s.val) 0 _).take 48)) _ = _
      rw [hk₁, hk₂, List.take_of_length_le (by rw [List.length_append]; omega),
        List.take_of_length_le (by rw [List.length_append]; omega)]
      rfl

/-! ## The loop of trials -/

/-- The trial of an attempt yields a mode tag. -/
def hits (cr : Crypto) (header : Bytes) (a : Option ExtActiveSecret) : Bool :=
  isModeTag (trialTag cr header (a.map (·.secret)))

/-- TLS-only mode does not take the tag that the trial of an attempt yields. -/
def LacksPadding (cr : Crypto) (allowOnlyTls : Bool) (header : Bytes)
    (a : Option ExtActiveSecret) : Prop :=
  trialTag cr header (a.map (·.secret)) ≠ 0xdddddddd ∧ allowOnlyTls = true

instance (cr : Crypto) (allowOnlyTls : Bool) (header : Bytes) (a : Option ExtActiveSecret) :
    Decidable (LacksPadding cr allowOnlyTls header a) :=
  inferInstanceAs (Decidable (_ ∧ _))

/-- One round of the loop, in terms of the trial of its attempt alone. -/
theorem trialLoop_cons (cr : Crypto) (allowOnlyTls : Bool) {header : Bytes}
    (hheader : header.length = 64) (a : Option ExtActiveSecret)
    (l : List (Option ExtActiveSecret)) {v : TrialVars} (hv : v.randomHeader = header)
    (hk : v.k.length = 48) :
    ∃ v₁ v₂ : TrialVars,
      v₁.randomHeader = decryptHeader cr (a.map (·.secret)) header ∧
      v₂.randomHeader = header ∧ v₂.k.length = 48 ∧
      trialLoop cr allowOnlyTls header (a :: l) v
        = if hits cr header a then
            if LacksPadding cr allowOnlyTls header a then
              .expectedPadding (headerAes cr (a.map (·.secret)) header)
            else .accept a v₁ (headerAes cr (a.map (·.secret)) header)
          else trialLoop cr allowOnlyTls header l v₂ := by
  obtain ⟨hv₁, hk₁, hkeys⟩ := trialKeyData_spec cr (a.map (·.secret))
    (by rw [hv, hheader]) hk
  rw [hv] at hv₁ hkeys
  set v₁ := trialKeyData cr (a.map (·.secret)) v with hv₁def
  refine ⟨{ v₁ with randomHeader := decryptHeader cr (a.map (·.secret)) header },
    { v₁ with randomHeader := header }, rfl, rfl, hk₁, ?_⟩
  rw [trialLoop]
  dsimp only
  rw [← hv₁def, hkeys, hv₁]
  rfl

/-- **Without a match** the loop rejects. -/
theorem trialLoop_of_no_match (cr : Crypto) (allowOnlyTls : Bool) {header : Bytes}
    (hheader : header.length = 64) :
    ∀ {l : List (Option ExtActiveSecret)} {v : TrialVars}, v.randomHeader = header →
      v.k.length = 48 → (∀ a ∈ l, hits cr header a = false) →
      ∃ v', trialLoop cr allowOnlyTls header l v = .reject v' := by
  intro l
  induction l with
  | nil => exact fun _ _ _ => ⟨_, rfl⟩
  | cons a l ih =>
    intro v hv hk hno
    obtain ⟨v₁, v₂, -, hv₂, hk₂, hround⟩ := trialLoop_cons cr allowOnlyTls hheader a l hv hk
    rw [hround, hno a List.mem_cons_self, if_neg (by decide)]
    exact ih hv₂ hk₂ (fun b hb => hno b (List.mem_cons_of_mem _ hb))

/-- **With a match** the loop ends as the first attempt that matches says: every trial
before it leaves the header and the room in `k` as they were. -/
theorem trialLoop_of_match (cr : Crypto) (allowOnlyTls : Bool) {header : Bytes}
    (hheader : header.length = 64) {a : Option ExtActiveSecret} :
    ∀ {l : List (Option ExtActiveSecret)} {v : TrialVars}, v.randomHeader = header →
      v.k.length = 48 → l.find? (hits cr header) = some a →
      ∃ v₁ : TrialVars, v₁.randomHeader = decryptHeader cr (a.map (·.secret)) header ∧
        trialLoop cr allowOnlyTls header l v
          = if LacksPadding cr allowOnlyTls header a then
              .expectedPadding (headerAes cr (a.map (·.secret)) header)
            else .accept a v₁ (headerAes cr (a.map (·.secret)) header) := by
  intro l
  induction l with
  | nil => exact fun _ _ hfind => absurd hfind (by simp)
  | cons b l ih =>
    intro v hv hk hfind
    obtain ⟨v₁, v₂, hv₁, hv₂, hk₂, hround⟩ := trialLoop_cons cr allowOnlyTls hheader b l hv hk
    rw [hround]
    by_cases hb : hits cr header b = true
    · rw [List.find?_cons_of_pos hb] at hfind
      rw [← Option.some.inj hfind, if_pos hb]
      exact ⟨v₁, hv₁, rfl⟩
    · rw [List.find?_cons_of_neg hb] at hfind
      rw [if_neg hb]
      exact ih hv₂ hk₂ hfind

/-! ## The pass over the header -/

/-- What holds of a connection whose pass gets to the trials. -/
structure TrialReady (c : Conn) : Prop where
  len : 64 ≤ c.inp.length
  left : c.isTls = true → 0 ≤ c.leftTlsPacketLength

theorem TrialReady.length_header {c : Conn} (h : TrialReady c) :
    (c.inp.take 64).length = 64 := by
  rw [List.length_take]
  exact min_eq_left h.len

variable {cfg : ExtConfig} {w : World}

/-- **With a match**, the pass hands the connection over or accepts it. -/
theorem headerPass_of_match {g : Globals} {c : Conn}
    (hc : TrialReady c) {active : List ExtActiveSecret} {a : Option ExtActiveSecret}
    (hsnap : extSnapshotActiveSecrets w.mallocOk g.store w.snapshotTime.val = some active)
    (hfind : (attempts active).find? (hits cfg.crypto (c.inp.take 64)) = some a) :
    headerPass cfg w g c
      = if LacksPadding cfg.crypto cfg.domains.allowOnlyTls (c.inp.take 64) a then
          returnTlsError w cfg.domains.defaultDomainInfo g
            { c with crypto := some (headerAes cfg.crypto (a.map (·.secret)) (c.inp.take 64)) }
        else
          acceptHeader cfg w a (decryptHeader cfg.crypto (a.map (·.secret)) (c.inp.take 64))
            (headerAes cfg.crypto (a.map (·.secret)) (c.inp.take 64)) g c := by
  obtain ⟨v₁, hv₁, hloop⟩ := trialLoop_of_match cfg.crypto cfg.domains.allowOnlyTls
    hc.length_header (v := TrialVars.start (c.inp.take 64)) rfl List.length_replicate hfind
  unfold headerPass
  dsimp only
  rw [if_neg (not_lt.mpr hc.len), fetchLookup_of_le hc.len]
  simp only [some_bind, hsnap, hloop]
  by_cases hpad : LacksPadding cfg.crypto cfg.domains.allowOnlyTls (c.inp.take 64) a
  · simp only [if_pos hpad]
  · simp only [if_neg hpad, hv₁]

/-- **Without a match**, the pass rejects the header and changes nothing but the cipher,
which it frees. -/
theorem headerPass_of_no_match {g : Globals} {c : Conn}
    (hc : TrialReady c) {active : List ExtActiveSecret}
    (hsnap : extSnapshotActiveSecrets w.mallocOk g.store w.snapshotTime.val = some active)
    (hno : ∀ a ∈ attempts active, hits cfg.crypto (c.inp.take 64) a = false) :
    headerPass cfg w g c = some (.ret skipAllBytes, g, { c with crypto := none }) := by
  obtain ⟨v', hloop⟩ := trialLoop_of_no_match cfg.crypto cfg.domains.allowOnlyTls
    hc.length_header (v := TrialVars.start (c.inp.take 64)) rfl List.length_replicate hno
  unfold headerPass
  dsimp only
  rw [if_neg (not_lt.mpr hc.len), fetchLookup_of_le hc.len]
  simp only [some_bind, hsnap, hloop]

/-- **Entering a mode** fails no assertion, and beyond the input it changes the packet
number, the flags and the target only. -/
theorem enterMode_spec (cfg : ExtConfig) (header : Bytes) (T : AesCrypto) {c : Conn}
    (hc : TrialReady c) :
    ∃ c', enterMode cfg header T c = some c' ∧ c'.crypto.map AesCrypto.keys = some T.keys ∧
      InputFrame { c with
        inPacketNum := 0
        rpcFlags := modeFlags (headerTag header) c.rpcFlags
        extraInt4 := headerTarget header } c' := by
  unfold enterMode
  rw [skipData_of_le hc.len]
  simp only [Option.bind_eq_bind, Option.bind_some]
  set d : Conn := { c with
    crypto := some T
    inU := c.inU ++ c.inp.drop 64
    inp := []
    inPacketNum := 0
    rpcFlags := modeFlags (headerTag header) c.rpcFlags } with hd
  have hsome : (decryptLoop cfg.crypto (d.inU.length + 1) d).isSome = true :=
    decryptLoop_isSome cfg.crypto rfl hc.left
  obtain ⟨⟨res, c'⟩, hrun⟩ := Option.isSome_iff_exists.mp hsome
  obtain ⟨hres, hframe, hkeys⟩ := decryptLoop_frame cfg.crypto hrun
  rw [cryptoDecryptInput_eq cfg.crypto rfl, hrun]
  simp only [Option.bind_some, if_neg (not_lt.mpr hres)]
  refine ⟨_, rfl, hkeys, ?_⟩
  unfold InputFrame at hframe ⊢
  rw [hframe]

/-! ## Independence of the other secrets -/

/-- `a` is active, its trial yields a mode tag, and no other active secret's does. -/
structure OnlyMatch (cfg : ExtConfig) (w : World) (g : Globals) (header : Bytes)
    (a : ExtActiveSecret) : Prop where
  active : a ∈ activeSecrets g.store w.snapshotTime.val
  hit : hits cfg.crypto header (some a) = true
  only : ∀ b ∈ activeSecrets g.store w.snapshotTime.val,
    hits cfg.crypto header (some b) = true → b = a

/-- No active secret's trial yields a mode tag. -/
def NoMatch (cfg : ExtConfig) (w : World) (g : Globals) (header : Bytes) : Prop :=
  ∀ b ∈ activeSecrets g.store w.snapshotTime.val, hits cfg.crypto header (some b) = false

/-- `c'` is the connection `c` accepted under the secret `a`: keys and IVs, mode flags and
target come from the header and the secret, and the connection carries the id of the secret
(which is positive for every entry of a store). -/
structure AcceptedUnder (cfg : ExtConfig) (c : Conn) (a : ExtActiveSecret) (c' : Conn) :
    Prop where
  keys : c'.crypto.map AesCrypto.keys
    = some (headerKeys cfg.crypto (some a.secret) (c.inp.take 64))
  flags : c'.rpcFlags
    = modeFlags (trialTag cfg.crypto (c.inp.take 64) (some a.secret)) c.rpcFlags
  target : c'.extraInt4
    = headerTarget (decryptHeader cfg.crypto (some a.secret) (c.inp.take 64))
  packetNum : c'.inPacketNum = 0
  secretId : 0 < a.id → c'.extraInt2 = a.id

/-- A snapshot for which memory is there. -/
theorem extSnapshot_of_malloc {w : World} (h : w.mallocOk = true) (g : Globals) :
    extSnapshotActiveSecrets w.mallocOk g.store w.snapshotTime.val
      = some (activeSecrets g.store w.snapshotTime.val) := by
  unfold extSnapshotActiveSecrets
  rw [h]
  split
  · rename_i h0
    rw [(activeSecrets_eq_nil_iff g.store w.snapshotTime.val).mpr h0]
  · rfl

theorem attempts_of_ne_nil {active : List ExtActiveSecret} (h : active ≠ []) :
    attempts active = active.map some := if_neg h

/-- The only match is what the loop finds. -/
theorem OnlyMatch.find {g : Globals} {header : Bytes}
    {a : ExtActiveSecret} (h : OnlyMatch cfg w g header a) :
    (attempts (activeSecrets g.store w.snapshotTime.val)).find? (hits cfg.crypto header)
      = some (some a) := by
  rw [attempts_of_ne_nil (List.ne_nil_of_mem h.active)]
  have hsome : ((activeSecrets g.store w.snapshotTime.val).map some).find?
      (hits cfg.crypto header) ≠ none := by
    rw [Ne, List.find?_eq_none]
    intro hno
    exact hno (some a) (List.mem_map_of_mem h.active) h.hit
  obtain ⟨b, hb⟩ := Option.ne_none_iff_exists'.mp hsome
  obtain ⟨b', hb', rfl⟩ := List.mem_map.mp (List.mem_of_find?_eq_some hb)
  rw [hb, h.only b' hb' (List.find?_some hb)]

/-- The id that an accepted connection gets. -/
theorem extraInt2_attach {now : TimeT} {C : PeerAddr} {extraInt2 id : ℤ} {s : ExtStore}
    (h : 0 < id) : (extMetricsAttachSecretToConnection now C extraInt2 id s).1 = id := by
  unfold extMetricsAttachSecretToConnection
  split
  · rename_i hskip
    rcases hskip with hle | heq
    · omega
    · exact heq
  · rfl

/-- What accepting a header does once the mode is entered. -/
theorem acceptHeader_eq {a : Option ExtActiveSecret}
    {header : Bytes} {T : AesCrypto} {g : Globals} {c d : Conn}
    (h : enterMode cfg header T c = some d) :
    acceptHeader cfg w a header T g c
      = some (.again,
          { g with store := (extMetricsAttachSecretToConnection w.attachTime d.peer d.extraInt2
              ((a.map (·.id)).getD 0) g.store).2 },
          { d with extraInt2 := (extMetricsAttachSecretToConnection w.attachTime d.peer
              d.extraInt2 ((a.map (·.id)).getD 0) g.store).1 }) := by
  unfold acceptHeader
  rw [h]
  rfl

/-- **Accepting** a header under a secret: the connection that comes out depends on the
header and the secret, except for the id. -/
theorem acceptHeader_spec (cfg : ExtConfig) {c : Conn} (hc : TrialReady c) (secret : Secret) :
    ∃ d : Conn, ∀ (w : World) (g : Globals) (a : ExtActiveSecret), a.secret = secret →
      ∃ g' id, acceptHeader cfg w (some a)
          (decryptHeader cfg.crypto (some secret) (c.inp.take 64))
          (headerAes cfg.crypto (some secret) (c.inp.take 64)) g c
            = some (.again, g', { d with extraInt2 := id }) ∧
        AcceptedUnder cfg c a { d with extraInt2 := id } := by
  obtain ⟨d, hrun, hkeys, hframe⟩ := enterMode_spec cfg
    (decryptHeader cfg.crypto (some secret) (c.inp.take 64))
    (headerAes cfg.crypto (some secret) (c.inp.take 64)) hc
  refine ⟨d, ?_⟩
  rintro w g a rfl
  rw [acceptHeader_eq hrun]
  refine ⟨_, _, rfl, ?_⟩
  unfold InputFrame at hframe
  refine ⟨hkeys, ?_, ?_, ?_, fun hid => extraInt2_attach hid⟩
  · show d.rpcFlags = _
    rw [hframe]
    rfl
  · show d.extraInt4 = _
    rw [hframe]
  · show d.inPacketNum = _
    rw [hframe]

/-- **Trial decryption is independent of the other secrets.**  Take two runs of the loop on
one connection, with any two stores at any two times.  When both stores have the same only
match, both runs accept with the same connection up to the id, or in TLS-only mode without
the padding tag both hand the connection over to the default domain.  When there are
active secrets and none matches in either store, both runs reject, and nothing changes but
the cipher, which is freed. -/
theorem trial_independent {cfg : ExtConfig} {c : Conn} (hc : TrialReady c) {w₁ w₂ : World}
    {g₁ g₂ : Globals} (hm₁ : w₁.mallocOk = true) (hm₂ : w₂.mallocOk = true) :
    (∀ a₁ a₂ : ExtActiveSecret, a₁.secret = a₂.secret →
      OnlyMatch cfg w₁ g₁ (c.inp.take 64) a₁ → OnlyMatch cfg w₂ g₂ (c.inp.take 64) a₂ →
      if LacksPadding cfg.crypto cfg.domains.allowOnlyTls (c.inp.take 64) (some a₁) then
        ∃ T, headerPass cfg w₁ g₁ c
            = returnTlsError w₁ cfg.domains.defaultDomainInfo g₁ { c with crypto := some T } ∧
          headerPass cfg w₂ g₂ c
            = returnTlsError w₂ cfg.domains.defaultDomainInfo g₂ { c with crypto := some T }
      else
        ∃ g₁' g₂' c₁ c₂, headerPass cfg w₁ g₁ c = some (.again, g₁', c₁) ∧
          headerPass cfg w₂ g₂ c = some (.again, g₂', c₂) ∧
          AcceptedUnder cfg c a₁ c₁ ∧ AcceptedUnder cfg c a₂ c₂ ∧
          c₂ = { c₁ with extraInt2 := c₂.extraInt2 }) ∧
    (NoMatch cfg w₁ g₁ (c.inp.take 64) → NoMatch cfg w₂ g₂ (c.inp.take 64) →
      activeSecrets g₁.store w₁.snapshotTime.val ≠ [] →
      activeSecrets g₂.store w₂.snapshotTime.val ≠ [] →
      headerPass cfg w₁ g₁ c = some (.ret skipAllBytes, g₁, { c with crypto := none }) ∧
        headerPass cfg w₂ g₂ c = some (.ret skipAllBytes, g₂, { c with crypto := none })) := by
  constructor
  · intro a₁ a₂ hsecret h₁ h₂
    have hrun₁ := headerPass_of_match hc (extSnapshot_of_malloc hm₁ g₁) h₁.find
    have hrun₂ := headerPass_of_match hc (extSnapshot_of_malloc hm₂ g₂) h₂.find
    simp only [Option.map_some, ← hsecret] at hrun₁ hrun₂
    have hlack : LacksPadding cfg.crypto cfg.domains.allowOnlyTls (c.inp.take 64) (some a₂)
        ↔ LacksPadding cfg.crypto cfg.domains.allowOnlyTls (c.inp.take 64) (some a₁) := by
      unfold LacksPadding
      simp only [Option.map_some, hsecret]
    by_cases hpad : LacksPadding cfg.crypto cfg.domains.allowOnlyTls (c.inp.take 64) (some a₁)
    · rw [if_pos hpad] at hrun₁ ⊢
      rw [if_pos (hlack.mpr hpad)] at hrun₂
      exact ⟨_, hrun₁, hrun₂⟩
    · rw [if_neg hpad] at hrun₁ ⊢
      rw [if_neg (fun h => hpad (hlack.mp h))] at hrun₂
      obtain ⟨d, hd⟩ := acceptHeader_spec cfg hc a₁.secret
      obtain ⟨g₁', id₁, hacc₁, hunder₁⟩ := hd w₁ g₁ a₁ rfl
      obtain ⟨g₂', id₂, hacc₂, hunder₂⟩ := hd w₂ g₂ a₂ hsecret.symm
      exact ⟨g₁', g₂', _, _, hrun₁.trans hacc₁, hrun₂.trans hacc₂, hunder₁, hunder₂, rfl⟩
  · intro hno₁ hno₂ hne₁ hne₂
    have hattempts : ∀ {w : World} {g : Globals}, NoMatch cfg w g (c.inp.take 64) →
        activeSecrets g.store w.snapshotTime.val ≠ [] →
        ∀ a ∈ attempts (activeSecrets g.store w.snapshotTime.val),
          hits cfg.crypto (c.inp.take 64) a = false := by
      intro w g hno hne a ha
      rw [attempts_of_ne_nil hne] at ha
      obtain ⟨b, hb, rfl⟩ := List.mem_map.mp ha
      exact hno b hb
    exact ⟨headerPass_of_no_match hc (extSnapshot_of_malloc hm₁ g₁) (hattempts hno₁ hne₁),
      headerPass_of_no_match hc (extSnapshot_of_malloc hm₂ g₂) (hattempts hno₂ hne₂)⟩

/-! ## Sample connections -/

/-- A cipher that changes nothing, with constant hash functions. -/
def Crypto.plain : Crypto := ⟨fun _ => [], fun _ _ => List.replicate 32 0, fun _ _ _ => 0⟩

/-- A world at time `0` in which every call succeeds. -/
def World.calm : World where
  now := ⟨0, by decide⟩
  countTime := ⟨0, by decide⟩
  snapshotTime := ⟨0, by decide⟩
  attachTime := ⟨0, by decide⟩
  mallocOk := true
  randomness := ⟨0, ⟨List.replicate 32 0, List.length_replicate⟩, fun _ => 0⟩
  clientSocketOk := true
  allocConnectionOk := true
  executeFails := false

/-- One entry, enabled or not. -/
def Globals.oneSecret (enabled : ℤ) : Globals where
  store := { ExtStore.init [] with
    extSecrets := [⟨Secret.fill 0, [], [], [], 1, enabled, 0, 0, 0, 0⟩] }
  randoms := RandomCache.empty

/-- A domain with an address. -/
def coverDomain : DomainInfo := ⟨[97], 1, List.replicate 16 0, 0, false, false⟩

/-- A configuration with or without a proxy domain. -/
def ExtConfig.plain (tlsOnly : Bool) : ExtConfig where
  crypto := Crypto.plain
  domains := if tlsOnly then tcpRpcAddProxyDomain coverDomain ProxyDomains.empty
    else ProxyDomains.empty
  maxPacketLen := 0

/-- A peer without an address. -/
def PeerAddr.unknown : PeerAddr := ⟨0, List.replicate 16 0, none⟩

/-- A header whose tag is four times the byte `b`. -/
def plainHeader (b : UInt8) : Bytes :=
  List.replicate 56 0 ++ List.replicate 4 b ++ List.replicate 4 0

/-- A connection at the trials, with a header that carries a tag. -/
def Conn.atHeader (isTls : Bool) (b : UInt8) : Conn :=
  { Conn.accepted 443 PeerAddr.unknown with isTls := isTls, inp := plainHeader b }

theorem trialReady_atHeader (isTls : Bool) (b : UInt8) : TrialReady (Conn.atHeader isTls b) :=
  ⟨by simp [Conn.atHeader, plainHeader], fun _ => le_rfl⟩

/-- The one active secret of the sample store is the only match, whatever the mode. -/
theorem onlyMatch_sample (tlsOnly isTls : Bool) :
    OnlyMatch (ExtConfig.plain tlsOnly) World.calm (Globals.oneSecret 1)
      ((Conn.atHeader isTls 0xef).inp.take 64) ⟨Secret.fill 0, 1⟩ := by
  have hactive : activeSecrets (Globals.oneSecret 1).store World.calm.snapshotTime.val
      = [⟨Secret.fill 0, 1⟩] := by decide +kernel
  refine ⟨?_, ?_, ?_⟩
  · rw [hactive]
    exact List.mem_singleton_self _
  · cases tlsOnly <;> cases isTls <;> decide +kernel
  · rw [hactive]
    exact fun b hb _ => List.mem_singleton.mp hb

/-- TLS-only mode, with a cipher whose key stream repeats the first byte of the secret. -/
def ExtConfig.keyed : ExtConfig :=
  { ExtConfig.plain true with
    crypto := ⟨fun x => x.drop 32, fun _ _ => List.replicate 32 0, fun key _ _ => byteAt key 0⟩ }

/-- Two active secrets, with cells. -/
def Globals.twoSecrets : Globals where
  store := { ExtStore.init [] with
    extSecrets := [⟨Secret.fill 0, [], [], [], 1, 1, 0, 0, 0, 0⟩,
      ⟨Secret.fill 1, [], [], [], 2, 1, 0, 0, 0, 0⟩]
    extSecretMetrics := List.replicate 3 ExtSecretMetric.zero }
  randoms := RandomCache.empty

/-- The secrets of `Globals.twoSecrets` in the other order. -/
def Globals.twoSecretsSwapped : Globals where
  store := { Globals.twoSecrets.store with
    extSecrets := [⟨Secret.fill 1, [], [], [], 1, 1, 0, 0, 0, 0⟩,
      ⟨Secret.fill 0, [], [], [], 2, 1, 0, 0, 0, 0⟩] }
  randoms := RandomCache.empty

/-- A header that only the secret `1` matches, tried before and after the secret `0`, and a header
that neither matches. -/
theorem trial_independent_twoSecrets :
    (∃ g₁ g₂ c₁ c₂,
      headerPass .keyed .calm .twoSecrets (.atHeader true 0xdc) = some (.again, g₁, c₁) ∧
      headerPass .keyed .calm .twoSecretsSwapped (.atHeader true 0xdc) = some (.again, g₂, c₂) ∧
      AcceptedUnder .keyed (.atHeader true 0xdc) ⟨Secret.fill 1, 2⟩ c₁ ∧
      AcceptedUnder .keyed (.atHeader true 0xdc) ⟨Secret.fill 1, 1⟩ c₂ ∧
      c₂ = { c₁ with extraInt2 := 1 }) ∧
    headerPass .keyed .calm .twoSecrets (.atHeader true 0xaa)
      = some (.ret skipAllBytes, .twoSecrets, { Conn.atHeader true 0xaa with crypto := none }) ∧
    headerPass .keyed .calm .twoSecretsSwapped (.atHeader true 0xaa)
      = some (.ret skipAllBytes, .twoSecretsSwapped,
          { Conn.atHeader true 0xaa with crypto := none }) := by
  have hactive₁ : activeSecrets Globals.twoSecrets.store World.calm.snapshotTime.val
      = [⟨Secret.fill 0, 1⟩, ⟨Secret.fill 1, 2⟩] := by decide +kernel
  have hactive₂ : activeSecrets Globals.twoSecretsSwapped.store World.calm.snapshotTime.val
      = [⟨Secret.fill 1, 1⟩, ⟨Secret.fill 0, 2⟩] := by decide +kernel
  have hmatch₁ : OnlyMatch .keyed .calm .twoSecrets ((Conn.atHeader true 0xdc).inp.take 64)
      ⟨Secret.fill 1, 2⟩ := by
    refine ⟨?_, by decide +kernel, ?_⟩ <;> rw [hactive₁] <;> decide +kernel
  have hmatch₂ : OnlyMatch .keyed .calm .twoSecretsSwapped
      ((Conn.atHeader true 0xdc).inp.take 64) ⟨Secret.fill 1, 1⟩ := by
    refine ⟨?_, by decide +kernel, ?_⟩ <;> rw [hactive₂] <;> decide +kernel
  constructor
  · obtain ⟨hmatches, -⟩ := @trial_independent .keyed _ (trialReady_atHeader true 0xdc) .calm .calm
      .twoSecrets .twoSecretsSwapped rfl rfl
    have h := hmatches ⟨Secret.fill 1, 2⟩ ⟨Secret.fill 1, 1⟩ rfl hmatch₁ hmatch₂
    rw [if_neg (by decide +kernel)] at h
    obtain ⟨g₁, g₂, c₁, c₂, hrun₁, hrun₂, hunder₁, hunder₂, heq⟩ := h
    refine ⟨g₁, g₂, c₁, c₂, hrun₁, hrun₂, hunder₁, hunder₂, ?_⟩
    rwa [hunder₂.secretId Int.one_pos] at heq
  · obtain ⟨-, hrejects⟩ := @trial_independent .keyed _ (trialReady_atHeader true 0xaa) .calm .calm
      .twoSecrets .twoSecretsSwapped rfl rfl
    refine hrejects ?_ ?_ (by rw [hactive₁]; simp) (by rw [hactive₂]; simp)
    · unfold NoMatch
      rw [hactive₁]
      decide +kernel
    · unfold NoMatch
      rw [hactive₂]
      decide +kernel

/-- Matching alone is not enough in TLS-only mode: a header of the compact mode is not
accepted there.  And a header may be accepted while no secret matches: when none is
active. -/
theorem not_trial_accepts_tlsOnly :
    (OnlyMatch (ExtConfig.plain true) World.calm (Globals.oneSecret 1)
        ((Conn.atHeader true 0xef).inp.take 64) ⟨Secret.fill 0, 1⟩ ∧
      ∀ g' c', headerPass (ExtConfig.plain true) World.calm (Globals.oneSecret 1)
        (Conn.atHeader true 0xef) ≠ some (.again, g', c')) ∧
    (NoMatch (ExtConfig.plain false) World.calm (Globals.oneSecret 0)
        ((Conn.atHeader false 0xef).inp.take 64) ∧
      ∃ g' c', headerPass (ExtConfig.plain false) World.calm (Globals.oneSecret 0)
        (Conn.atHeader false 0xef) = some (.again, g', c')) := by
  have hreturns : (headerPass (ExtConfig.plain true) World.calm (Globals.oneSecret 1)
      (Conn.atHeader true 0xef)).map Prod.fst = some (.ret 0) := by decide +kernel
  have hagain : (headerPass (ExtConfig.plain false) World.calm (Globals.oneSecret 0)
      (Conn.atHeader false 0xef)).map Prod.fst = some .again := by decide +kernel
  have hnone : activeSecrets (Globals.oneSecret 0).store World.calm.snapshotTime.val = [] := by
    decide +kernel
  refine ⟨⟨onlyMatch_sample true true, ?_⟩, ?_, ?_⟩
  · intro g' c' hrun
    rw [hrun] at hreturns
    exact absurd hreturns (by simp)
  · unfold NoMatch
    rw [hnone]
    exact fun b hb => absurd hb (by simp)
  · obtain ⟨⟨p, g', c'⟩, hrun, rfl⟩ := Option.map_eq_some_iff.mp hagain
    exact ⟨g', c', hrun⟩

end MtprotoProxy
