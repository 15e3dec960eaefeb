/-
# Reading the state file

`tcp_rpcs_load_secrets_state` of `net/net-tcp-rpc-ext-server.c`: the header lines, the
three historic column layouts, the treatment of known secrets and of clashing ids, and
the totals recomputed at the end.

One line is one step (`loadLine`): it goes on to the next line, stops the loop
(`break` after a failed allocation), or never returns (`none`).
-/
import MtprotoProxy.SecretPersist

namespace MtprotoProxy

open CLib

/-! ## The columns of a line -/

/-- The variables the loop body fills from the columns of a line. -/
structure LoadedLine where
  hex : Bytes
  enabledS : Bytes
  expiresS : Bytes
  createdS : Bytes
  updatedS : Bytes
  parsedId : ℤ
  bytesIn : Int64
  bytesOut : Int64
  connections : Int64
  lastSeenAt : Int64
  lastIp : Bytes
  label : Bytes
  /-- `cn >= 10` -/
  hasMetrics : Bool

/-- `cols[i]`. -/
def col (cols : List Bytes) (i : ℕ) : Bytes := cols.getD i []

/-- The columns 5 to 8 are an id and three counters. -/
def hasIdCols (cols : List Bytes) : Bool :=
  10 ≤ cols.length && extIsIntStr (col cols 5) && extIsIntStr (col cols 6) &&
    extIsIntStr (col cols 7) && extIsIntStr (col cols 8)

/-- The column logic of the loop body; `none` for fewer than five columns. -/
def parseCols (cols : List Bytes) : Option LoadedLine :=
  if cols.length < 5 then none
  else
    let base : LoadedLine :=
      { hex := col cols 0, enabledS := col cols 1, expiresS := col cols 2
        createdS := col cols 3, updatedS := col cols 4
        parsedId := 0, bytesIn := 0, bytesOut := 0, connections := 0, lastSeenAt := 0
        lastIp := [], label := [], hasMetrics := 10 ≤ cols.length }
    if hasIdCols cols then
      let ids : LoadedLine :=
        { base with
          parsedId := atoi (col cols 5), bytesIn := atoll (col cols 6)
          bytesOut := atoll (col cols 7), connections := atoll (col cols 8) }
      if 12 ≤ cols.length && extIsIntStr (col cols 9) then
        some { ids with
          lastSeenAt := atoll (col cols 9), lastIp := extSanitizeIp (col cols 10)
          label := col cols 11 }
      else some { ids with label := col cols 9 }
    else if 6 ≤ cols.length then some { base with label := col cols 5 }
    else some base

/-! ## Filling an entry -/

/-- A zeroed entry with its secret. -/
def blankEntry (secret : Secret) : ExtSecretEntry where
  secret := secret
  hex := extSecret16ToHex secret
  label := []
  lastIp := []
  id := 0
  enabled := 0
  createdAt := 0
  updatedAt := 0
  expiresAt := 0
  lastSeenAt := 0

/-- The fields a line writes to its entry, which ends up with the given id. -/
def fillEntry (l : LoadedLine) (id : ℤ) (E : ExtSecretEntry) : ExtSecretEntry :=
  { E with
    id := id
    enabled := boolInt (atoi l.enabledS ≠ 0)
    expiresAt := atoll l.expiresS
    createdAt := atoll l.createdS
    updatedAt := atoll l.updatedS
    label := extSanitizeLabel l.label
    lastSeenAt := if 0 < l.lastSeenAt then l.lastSeenAt else E.lastSeenAt
    lastIp := if l.lastIp ≠ [] then extSanitizeIp l.lastIp else E.lastIp }

/-- The search for another entry with the parsed id, which then counts as no id. -/
def freeParsedId (s : ExtStore) (idx : Option ℕ) (parsedId : ℤ) : ℤ :=
  if 0 < parsedId && s.extSecrets.zipIdx.any (fun p => some p.2 ≠ idx && p.1.id = parsedId)
  then 0 else parsedId

/-- The id an entry gets, and the store after a possible `ext_secret_next_id++`. -/
def takeId (parsedId current : ℤ) (s : ExtStore) : ℤ × ExtStore :=
  if 0 < parsedId then (parsedId, s)
  else if current ≤ 0 then (s.extSecretNextId, s.bumpNextId)
  else (current, s)

/-- The counters and the id counter after a line, once the metrics array is large enough. -/
def recordMetrics (l : LoadedLine) (id : ℤ) (s : ExtStore) : ExtStore :=
  let s₁ := if l.hasMetrics then s.setMetric id ⟨l.bytesIn, l.bytesOut, l.connections⟩ else s
  if s₁.extSecretNextId ≤ id then { s₁ with extSecretNextId := wrap32 (id + 1) } else s₁

/-! ## One line -/

/-- The outcomes of the allocations while one line is read. -/
structure LoadMem where
  reallocOk : Bool
  callocOk : Bool

/-- What the loop does after a line. -/
inductive LoadStep : Type where
  | next (s : ExtStore) : LoadStep
  | stop (s : ExtStore) : LoadStep

/-- The store after the line. -/
def LoadStep.store : LoadStep → ExtStore
  | .next s => s
  | .stop s => s

/-- A line whose secret is in the store, at index `idx`. -/
def loadExisting (mem : LoadMem) (l : LoadedLine) (idx : ℕ) (E : ExtSecretEntry)
    (s : ExtStore) : Option LoadStep :=
  let t := takeId (freeParsedId s (some idx) l.parsedId) E.id s
  let s₁ := t.2.modifyEntry idx (fillEntry l t.1)
  if t.1 ≤ 0 then some (.next s₁)
  else
    match extMetricsReserveLocked mem.callocOk t.1 s₁ with
    | none => none
    | some (r, s₂) =>
      if r < 0 then some (.next s₂) else some (.next (recordMetrics l t.1 s₂))

/-- A line whose secret is not in the store. -/
def loadNew (mem : LoadMem) (l : LoadedLine) (secret : Secret) (s : ExtStore) :
    Option LoadStep :=
  let parsedId := freeParsedId s none l.parsedId
  match extReserveLocked mem.reallocOk (s.extSecretCnt + 1) s with
  | none => none
  | some (r, s₀) =>
    if r < 0 then some (.stop s₀)
    else
      let t := takeId parsedId 0 s₀
      let s₁ := { t.2 with extSecrets := t.2.extSecrets ++ [fillEntry l t.1 (blankEntry secret)] }
      if t.1 ≤ 0 then some (.next s₁)
      else
        match extMetricsReserveLocked mem.callocOk t.1 s₁ with
        | none => none
        | some (r, s₂) =>
          -- `ext_secret_cnt--; break;`
          if r < 0 then some (.stop { s₂ with extSecrets := s₂.extSecrets.dropLast })
          else some (.next (recordMetrics l t.1 s₂))

/-- A line whose columns and secret were read. -/
def loadSecretLine (mem : LoadMem) (l : LoadedLine) (secret : Secret) (s : ExtStore) :
    Option LoadStep :=
  match extFindIdxLocked s secret with
  | none => loadNew mem l secret s
  | some idx =>
    match s.extSecrets[idx]? with
    | none => some (.next s)
    | some E => loadExisting mem l idx E s

/-- A line of columns. -/
def loadEntryLine (mem : LoadMem) (line : Bytes) (s : ExtStore) : Option LoadStep :=
  match parseCols (extSplitTsvLine line 16) with
  | none => some (.next s)
  | some l =>
    match extSecret16FromHex l.hex with
    | none => some (.next s)
    | some secret => loadSecretLine mem l secret s

/-- A `v2` or `v3` header line: only the fifth field is used. -/
def loadHeaderLine (line : Bytes) (s : ExtStore) : ExtStore :=
  match (strtok (fun c => c == 9 || c == 13 || c == 10) (cstr line))[4]? with
  | none => s
  | some nextId =>
    if s.extSecretNextId < atoi nextId then { s with extSecretNextId := atoi nextId } else s

/-- `"v2"`, `"v1"`. -/
def v2Tag : Bytes := [118, 50]

@[inherit_doc v2Tag] def v1Tag : Bytes := [118, 49]

/-- The loop body for one line of `getline`. -/
def loadLine (mem : LoadMem) (line : Bytes) (s : ExtStore) : Option LoadStep :=
  if line.length ≤ 1 ∨ byteAt line 0 = 35 then some (.next s)
  else if (v3Tag ++ [9]).isPrefixOf line || (v2Tag ++ [9]).isPrefixOf line then
    some (.next (loadHeaderLine line s))
  else if v1Tag.isPrefixOf line then some (.next s)
  else loadEntryLine mem line s

/-- The loop over the lines, numbered from `i`. -/
def loadLines (mem : ℕ → LoadMem) : ℕ → List Bytes → ExtStore → Option ExtStore
  | _, [], s => some s
  | i, line :: lines, s =>
    match loadLine (mem i) line s with
    | none => none
    | some (.stop s') => some s'
    | some (.next s') => loadLines mem (i + 1) lines s'

/-! ## The whole file -/

/-- Sum of two metric cells, field by field. -/
def ExtSecretMetric.add (a b : ExtSecretMetric) : ExtSecretMetric :=
  ⟨a.bytesIn + b.bytesIn, a.bytesOut + b.bytesOut, a.connections + b.connections⟩

/-- The sums over the entries that the loader assigns to the global totals. -/
def entryTotals (s : ExtStore) : ExtSecretMetric :=
  s.extSecrets.foldl
    (fun acc E =>
      if E.id ≤ 0 ∨ s.extSecretMetricsCap ≤ E.id then acc else acc.add (s.metric E.id))
    ExtSecretMetric.zero

/-- The end of the loader: totals, and a positive id counter. -/
def finishLoad (s : ExtStore) : ExtStore :=
  let t := entryTotals s
  { s with
    extTotalBytesIn := t.bytesIn
    extTotalBytesOut := t.bytesOut
    extTotalConnections := t.connections
    extSecretNextId := if s.extSecretNextId < 1 then 1 else s.extSecretNextId }

/-- `tcp_rpcs_load_secrets_state`; `fopenOk` is the outcome of opening an existing
file. -/
def tcpRpcsLoadSecretsState (fopenOk : Bool) (mem : ℕ → LoadMem) (s : ExtStore)
    (file : Option Bytes) : Option (ℤ × ExtStore) :=
  if s.extSecretStateFile = [] then some (0, s)
  else
    match file with
    | none => some (0, s)
    | some text =>
      if fopenOk = false then some (-1, s)
      else (loadLines mem 0 (getlines text) s).map (fun s' => (0, finishLoad s'))

/-! ## What a line with an entry leaves -/

/-- What reading a line leaves of the store `s` when its entry got the id `id`, the
entries became `entries`, and the id counter was `next` before it is moved past `id`. -/
structure LineLoaded (l : LoadedLine) (id next : ℤ) (entries : List ExtSecretEntry)
    (s s' : ExtStore) : Prop where
  entries_eq : s'.extSecrets = entries
  next_eq : s'.extSecretNextId = if next ≤ id then wrap32 (id + 1) else next
  cap_le : s.extSecretMetricsCap ≤ s'.extSecretMetricsCap
  id_lt_cap : id < s'.extSecretMetricsCap
  cap_int : s.extSecretMetricsCap < 2 ^ 31 → s'.extSecretMetricsCap < 2 ^ 31
  secretCap_le : s.extSecretCap ≤ s'.extSecretCap
  metric_id : l.hasMetrics = true → s'.metric id = ⟨l.bytesIn, l.bytesOut, l.connections⟩
  metric_other : ∀ j, 0 ≤ j → j ≠ id → s'.metric j = s.metric j
  file_eq : s'.extSecretStateFile = s.extSecretStateFile

/-- The end of a line, after the metrics array was made large enough. -/
theorem lineLoaded_recordMetrics {l : LoadedLine} {id r : ℤ} {s s₂ : ExtStore} (hid : 0 < id)
    (hr : extMetricsReserveLocked true id s = some (r, s₂)) :
    LineLoaded l id s.extSecretNextId s.extSecrets s (recordMetrics l id s₂) := by
  obtain ⟨-, hcap, hroom, n, hs₂⟩ := metricsReserve_spec hr
  have hmetric : ∀ j, s₂.metric j = s.metric j := by
    intro j
    rw [hs₂]
    exact metric_append_zero s n j
  -- the counters are written first, then the id counter moves
  obtain ⟨s₃, hs₃, hent, hnext, hsc, hfile, hcap₃, hcell, hother⟩ : ∃ s₃ : ExtStore,
      (recordMetrics l id s₂ =
        if s₃.extSecretNextId ≤ id then { s₃ with extSecretNextId := wrap32 (id + 1) } else s₃) ∧
      s₃.extSecrets = s.extSecrets ∧ s₃.extSecretNextId = s.extSecretNextId ∧
      s₃.extSecretCap = s.extSecretCap ∧ s₃.extSecretStateFile = s.extSecretStateFile ∧
      s₃.extSecretMetricsCap = s₂.extSecretMetricsCap ∧
      (l.hasMetrics = true → s₃.metric id = ⟨l.bytesIn, l.bytesOut, l.connections⟩) ∧
      ∀ j, 0 ≤ j → j ≠ id → s₃.metric j = s.metric j := by
    refine ⟨if l.hasMetrics then s₂.setMetric id ⟨l.bytesIn, l.bytesOut, l.connections⟩ else s₂,
      rfl, ?_⟩
    cases l.hasMetrics with
    | true =>
      have hsame : s₂.extSecrets = s.extSecrets ∧ s₂.extSecretNextId = s.extSecretNextId ∧
          s₂.extSecretCap = s.extSecretCap ∧
          s₂.extSecretStateFile = s.extSecretStateFile := by
        rw [hs₂]
        exact ⟨rfl, rfl, rfl, rfl⟩
      refine ⟨hsame.1, hsame.2.1, hsame.2.2.1, hsame.2.2.2,
        extSecretMetricsCap_setMetric s₂ id _, fun _ => ?_, fun j hj hne => ?_⟩
      · exact metric_setMetric_self hid.le hroom _
      · rw [← hmetric j]
        exact metric_setMetric_of_ne hid.le hj hne _
    | false =>
      rw [hs₂] at hmetric ⊢
      exact ⟨rfl, rfl, rfl, rfl, rfl, fun h => absurd h (by decide), fun j _ _ => hmetric j⟩
  have hfields : ∀ u : ExtStore,
      (u = if s₃.extSecretNextId ≤ id then { s₃ with extSecretNextId := wrap32 (id + 1) }
        else s₃) →
      u.extSecrets = s₃.extSecrets ∧ u.extSecretMetrics = s₃.extSecretMetrics ∧
        u.extSecretCap = s₃.extSecretCap ∧ u.extSecretStateFile = s₃.extSecretStateFile ∧
        u.extSecretNextId = if s₃.extSecretNextId ≤ id then wrap32 (id + 1)
          else s₃.extSecretNextId := by
    intro u hu
    rw [hu]
    split <;> exact ⟨rfl, rfl, rfl, rfl, rfl⟩
  obtain ⟨huent, humet, husc, hufile, hunext⟩ := hfields _ hs₃
  have hucap : (recordMetrics l id s₂).extSecretMetricsCap = s₂.extSecretMetricsCap := by
    rw [← hcap₃]
    unfold ExtStore.extSecretMetricsCap
    rw [humet]
  have humetric : ∀ j, (recordMetrics l id s₂).metric j = s₃.metric j := by
    intro j
    unfold ExtStore.metric
    rw [humet]
  refine ⟨huent.trans hent, ?_, hcap.trans hucap.ge, hroom.trans_le hucap.ge, ?_, ?_, ?_, ?_,
    hufile.trans hfile⟩
  · rw [hunext, hnext]
  · intro hint
    rw [hucap]
    exact cap_int_of_metricsReserve hint hr
  · rw [husc, hsc]
  · intro hl
    rw [humetric]
    exact hcell hl
  · intro j hj hne
    rw [humetric]
    exact hother j hj hne

/-- **What a line for a known secret does** when allocations succeed and the entry ends
with a positive id. -/
theorem loadExisting_spec {mem : LoadMem} (hcalloc : mem.callocOk = true) {l : LoadedLine}
    {idx : ℕ} {E : ExtSecretEntry} {s : ExtStore} {st : LoadStep} {id : ℤ} (hid : 0 < id)
    (htake : takeId (freeParsedId s (some idx) l.parsedId) E.id s = (id, s))
    (hres : loadExisting mem l idx E s = some st) :
    ∃ s', st = .next s' ∧
      LineLoaded l id s.extSecretNextId (s.extSecrets.modify idx (fillEntry l id)) s s' := by
  unfold loadExisting at hres
  rw [htake, hcalloc] at hres
  dsimp only at hres
  rw [if_neg (not_le.mpr hid)] at hres
  split at hres
  · exact absurd hres (by simp)
  · rename_i r s₂ hr
    rw [(metricsReserve_spec hr).1, if_neg (lt_irrefl _)] at hres
    cases hres
    have h := lineLoaded_recordMetrics (l := l) hid hr
    exact ⟨_, rfl, h.entries_eq, h.next_eq, h.cap_le, h.id_lt_cap, h.cap_int, h.secretCap_le,
      h.metric_id, h.metric_other, h.file_eq⟩

/-- The id counter after `takeId`. -/
theorem takeId_new (parsedId : ℤ) (s : ExtStore) :
    takeId parsedId 0 s =
      if 0 < parsedId then (parsedId, s) else (s.extSecretNextId, s.bumpNextId) := by
  unfold takeId
  rw [if_pos (le_refl (0 : ℤ))]

/-- **What a line for a new secret does** when allocations succeed and the entry gets a
positive id. -/
theorem loadNew_spec {mem : LoadMem} (hmem : mem.reallocOk = true ∧ mem.callocOk = true)
    {l : LoadedLine} {secret : Secret} {s t : ExtStore} {st : LoadStep} {id : ℤ} (hid : 0 < id)
    (htake : takeId (freeParsedId s none l.parsedId) 0 s = (id, t))
    (hres : loadNew mem l secret s = some st) :
    ∃ s', st = .next s' ∧ LineLoaded l id t.extSecretNextId
      (s.extSecrets ++ [fillEntry l id (blankEntry secret)]) s s' := by
  unfold loadNew at hres
  rw [hmem.1, hmem.2] at hres
  dsimp only at hres
  split at hres
  · exact absurd hres (by simp)
  rename_i r₀ s₀ hr₀
  obtain ⟨hr0, cap, hle, rfl⟩ : r₀ = 0 ∧ ∃ cap, s.extSecretCap ≤ cap ∧
      s₀ = { s with extSecretCap := cap } := by
    rcases extReserveLocked_cases hr₀ with h | ⟨-, hfalse, -⟩
    · exact h
    · exact absurd hfalse (by decide)
  rw [hr0, if_neg (lt_irrefl _)] at hres
  have htake₀ : takeId (freeParsedId s none l.parsedId) 0 { s with extSecretCap := cap }
      = (id, { t with extSecretCap := cap }) := by
    rw [takeId_new] at htake ⊢
    split at htake
    · rename_i hp
      cases htake
      exact if_pos hp
    · rename_i hp
      cases htake
      exact if_neg hp
  have ht : t.extSecrets = s.extSecrets ∧ t.extSecretMetrics = s.extSecretMetrics ∧
      t.extSecretStateFile = s.extSecretStateFile := by
    rw [takeId_new] at htake
    split at htake <;> cases htake <;> exact ⟨rfl, rfl, rfl⟩
  obtain ⟨htent, htmet, htfile⟩ := ht
  rw [htake₀] at hres
  dsimp only at hres
  rw [if_neg (not_le.mpr hid)] at hres
  split at hres
  · exact absurd hres (by simp)
  rename_i r s₂ hr
  rw [(metricsReserve_spec hr).1, if_neg (lt_irrefl _)] at hres
  cases hres
  have h := lineLoaded_recordMetrics (l := l) hid hr
  have hcapeq : ({ t with
      extSecretCap := cap
      extSecrets := t.extSecrets ++ [fillEntry l id (blankEntry secret)] } :
      ExtStore).extSecretMetricsCap = s.extSecretMetricsCap := by
    unfold ExtStore.extSecretMetricsCap
    rw [← htmet]
  have hmetric : ∀ j, ({ t with
      extSecretCap := cap
      extSecrets := t.extSecrets ++ [fillEntry l id (blankEntry secret)] } :
      ExtStore).metric j = s.metric j := by
    intro j
    unfold ExtStore.metric
    rw [← htmet]
  refine ⟨_, rfl, ?_, h.next_eq, ?_, h.id_lt_cap, ?_, hle.trans h.secretCap_le, h.metric_id, ?_,
    h.file_eq.trans htfile⟩
  · rw [h.entries_eq, ← htent]
  · rw [← hcapeq]
    exact h.cap_le
  · rw [← hcapeq]
    exact h.cap_int
  · intro j hj hne
    rw [h.metric_other j hj hne, hmetric]

end MtprotoProxy
