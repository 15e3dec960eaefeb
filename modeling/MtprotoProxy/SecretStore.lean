/-
# The secret store

The data behind `ext_secret_lock` in `net/net-tcp-rpc-ext-server.c`: the array of
`struct ext_secret_entry`, the metrics array indexed by id, the id counter and the
global totals, with the lookups and the two reservations that grow the arrays.

`ext_secrets` is the list of its first `ext_secret_cnt` entries; the metrics array is
the list of its `ext_secret_metrics_cap` cells.  `int` fields are integers (`wrap32`
where the code adds), `long long` fields are `Int64`.

A function that may fail to return is an `Option`: `none` says that a doubling loop
never leaves (`doubleWhile`).
-/
import MtprotoProxy.SecretText

namespace MtprotoProxy

open CLib

/-- What `time (NULL)` returns: seconds since the epoch. -/
abbrev TimeT : Type := { t : Int64 // 0 ≤ t }

/-- `struct ext_secret_entry`. -/
structure ExtSecretEntry where
  secret : Secret
  hex : Bytes
  label : Bytes
  lastIp : Bytes
  id : ℤ
  enabled : ℤ
  createdAt : Int64
  updatedAt : Int64
  expiresAt : Int64
  lastSeenAt : Int64
  deriving DecidableEq

/-- `struct ext_secret_metric`. -/
structure ExtSecretMetric where
  bytesIn : Int64
  bytesOut : Int64
  connections : Int64
  deriving DecidableEq

/-- A metric cell fresh from `calloc`. -/
def ExtSecretMetric.zero : ExtSecretMetric := ⟨0, 0, 0⟩

/-- `struct ext_active_secret`. -/
structure ExtActiveSecret where
  secret : Secret
  id : ℤ
  deriving DecidableEq

/-- The static variables behind `ext_secret_lock`. -/
structure ExtStore where
  extSecrets : List ExtSecretEntry
  extSecretCap : ℤ
  extSecretNextId : ℤ
  extSecretMetrics : List ExtSecretMetric
  extTotalBytesIn : Int64
  extTotalBytesOut : Int64
  extTotalConnections : Int64
  extSecretStateFile : Bytes
  deriving DecidableEq

namespace ExtStore

/-- The variables at process start, with the state file's path. -/
def init (stateFile : Bytes) : ExtStore where
  extSecrets := []
  extSecretCap := 0
  extSecretNextId := 1
  extSecretMetrics := []
  extTotalBytesIn := 0
  extTotalBytesOut := 0
  extTotalConnections := 0
  extSecretStateFile := stateFile

/-- `ext_secret_cnt`. -/
def extSecretCnt (s : ExtStore) : ℤ := s.extSecrets.length

/-- `ext_secret_metrics_cap`. -/
def extSecretMetricsCap (s : ExtStore) : ℤ := s.extSecretMetrics.length

/-- `ext_secret_metrics[id]`. -/
def metric (s : ExtStore) (id : ℤ) : ExtSecretMetric :=
  s.extSecretMetrics.getD id.toNat ExtSecretMetric.zero

/-- Assignment to `ext_secret_metrics[id]`. -/
def setMetric (s : ExtStore) (id : ℤ) (m : ExtSecretMetric) : ExtStore :=
  { s with extSecretMetrics := s.extSecretMetrics.set id.toNat m }

/-- `ext_secret_next_id++`. -/
def bumpNextId (s : ExtStore) : ExtStore :=
  { s with extSecretNextId := wrap32 (s.extSecretNextId + 1) }

/-- An assignment to the entry at index `idx`. -/
def modifyEntry (s : ExtStore) (idx : ℕ) (f : ExtSecretEntry → ExtSecretEntry) : ExtStore :=
  { s with extSecrets := s.extSecrets.modify idx f }

end ExtStore

/-- The C value of `x ? 1 : 0`. -/
def boolInt (b : Bool) : ℤ := if b then 1 else 0

/-! ## Lookups -/

/-- `ext_is_active_locked`. -/
def extIsActiveLocked (E : ExtSecretEntry) (now : Int64) : Bool :=
  if E.enabled = 0 then false
  else if 0 < E.expiresAt ∧ E.expiresAt ≤ now then false
  else true

/-- `ext_find_idx_locked`. -/
def extFindIdxLocked (s : ExtStore) (secret : Secret) : Option ℕ :=
  s.extSecrets.findIdx? (fun E => E.secret = secret)

/-- `ext_find_idx_by_id_locked`. -/
def extFindIdxByIdLocked (s : ExtStore) (id : ℤ) : Option ℕ :=
  s.extSecrets.findIdx? (fun E => E.id = id)

/-- `tcp_rpcs_active_secret_count`. -/
def tcpRpcsActiveSecretCount (s : ExtStore) (now : Int64) : ℕ :=
  s.extSecrets.countP (fun E => extIsActiveLocked E now)

/-- What `ext_snapshot_active_secrets` copies out of the store. -/
def activeSecrets (s : ExtStore) (now : Int64) : List ExtActiveSecret :=
  (s.extSecrets.filter (fun E => extIsActiveLocked E now)).map (fun E => ⟨E.secret, E.id⟩)

/-- `ext_snapshot_active_secrets`; `none` is the return value `-1`.  Nothing is
allocated when no entry is active. -/
def extSnapshotActiveSecrets (mallocOk : Bool) (s : ExtStore) (now : Int64) :
    Option (List ExtActiveSecret) :=
  if tcpRpcsActiveSecretCount s now = 0 then some []
  else if mallocOk then some (activeSecrets s now)
  else none

/-- The number of secrets copied is the number of active entries. -/
theorem length_activeSecrets (s : ExtStore) (now : Int64) :
    (activeSecrets s now).length = tcpRpcsActiveSecretCount s now := by
  unfold activeSecrets tcpRpcsActiveSecretCount
  rw [List.length_map, List.countP_eq_length_filter]

theorem activeSecrets_eq_nil_iff (s : ExtStore) (now : Int64) :
    activeSecrets s now = [] ↔ tcpRpcsActiveSecretCount s now = 0 := by
  rw [← length_activeSecrets, List.length_eq_zero_iff]

/-- A snapshot, when it is made, is exactly the list of active secrets. -/
theorem eq_activeSecrets_of_snapshot {mallocOk : Bool} {s : ExtStore} {now : Int64}
    {l : List ExtActiveSecret} (h : extSnapshotActiveSecrets mallocOk s now = some l) :
    l = activeSecrets s now := by
  unfold extSnapshotActiveSecrets at h
  split at h
  · rename_i h0
    rw [(activeSecrets_eq_nil_iff s now).mpr h0]
    exact (Option.some.inj h).symm
  · split at h
    · exact (Option.some.inj h).symm
    · exact absurd h (by simp)

/-- A secret of the snapshot is the secret of an entry that is active at that time. -/
theorem mem_activeSecrets {s : ExtStore} {now : Int64} {a : ExtActiveSecret} :
    a ∈ activeSecrets s now ↔
      ∃ E ∈ s.extSecrets, extIsActiveLocked E now = true ∧ E.secret = a.secret ∧ E.id = a.id := by
  unfold activeSecrets
  simp only [List.mem_map, List.mem_filter]
  constructor
  · rintro ⟨E, ⟨hE, hact⟩, rfl⟩
    exact ⟨E, hE, hact, rfl, rfl⟩
  · rintro ⟨E, hE, hact, hsec, hid⟩
    exact ⟨E, ⟨hE, hact⟩, by rw [hsec, hid]⟩

theorem extFindIdxLocked_eq_some {s : ExtStore} {secret : Secret} {idx : ℕ}
    (h : extFindIdxLocked s secret = some idx) :
    ∃ hlt : idx < s.extSecrets.length, s.extSecrets[idx].secret = secret := by
  obtain ⟨hlt, heq, -⟩ := List.findIdx?_eq_some_iff_getElem.mp h
  exact ⟨hlt, by simpa using heq⟩

theorem extFindIdxLocked_eq_none {s : ExtStore} {secret : Secret}
    (h : extFindIdxLocked s secret = none) : ∀ E ∈ s.extSecrets, E.secret ≠ secret := by
  intro E hE
  simpa using List.findIdx?_eq_none_iff.mp h E hE

/-! ## Growing the arrays -/

/-- `while (more (cap)) cap *= 2`; `none` when `fuel` rounds do not end it. -/
def doubleWhile (more : ℤ → Bool) : ℕ → ℤ → Option ℤ
  | 0, _ => none
  | fuel + 1, cap => if more cap then doubleWhile more fuel (wrap32 (cap * 2)) else some cap

/-- Rounds after which a doubling loop is known to run forever: an `int` doubled 32
times is `0`, and stays `0`. -/
def doubleFuel : ℕ := 34

/-- The loop ends with a value the guard rejects. -/
theorem not_more_of_doubleWhile {more : ℤ → Bool} :
    ∀ {fuel : ℕ} {cap c : ℤ}, doubleWhile more fuel cap = some c → more c = false := by
  intro fuel
  induction fuel with
  | zero => intro cap c h; exact absurd h (by simp [doubleWhile])
  | succ fuel ih =>
    intro cap c h
    rw [doubleWhile] at h
    split at h
    · exact ih h
    · rename_i hmore
      rw [← Option.some.inj h]
      simpa using hmore

/-- From a positive `cap` the loop ends when its guard rejects every value from `2^30`
on. -/
theorem doubleWhile_isSome {more : ℤ → Bool} (hmore : ∀ c, more c = true → c < 2 ^ 30) :
    ∀ {fuel : ℕ} {cap : ℤ}, 0 < cap → cap < 2 ^ 31 → 2 ^ 31 ≤ cap * 2 ^ fuel →
      (doubleWhile more fuel cap).isSome = true := by
  intro fuel
  induction fuel with
  | zero => intro cap _ hint h; exact absurd h (by simpa using hint)
  | succ fuel ih =>
    intro cap hpos hint h
    rw [doubleWhile]
    split
    · rename_i hc
      have hlt := hmore cap hc
      have hfuel : cap * 2 * 2 ^ fuel = cap * 2 ^ (fuel + 1) := by ring
      rw [wrap32_of_isInt32 ⟨by omega, by omega⟩]
      exact ih (by omega) (by omega) (by rw [hfuel]; exact h)
    · rfl

/-- `ext_reserve_locked`; `reallocOk` is the outcome of `realloc`. -/
def extReserveLocked (reallocOk : Bool) (want : ℤ) (s : ExtStore) : Option (ℤ × ExtStore) :=
  if want ≤ s.extSecretCap then some (0, s)
  else
    let cap₀ := if s.extSecretCap ≠ 0 then wrap32 (s.extSecretCap * 2) else 64
    match doubleWhile (fun c => c < want) doubleFuel cap₀ with
    | none => none
    | some newCap =>
      if reallocOk then some (0, { s with extSecretCap := newCap }) else some (-1, s)

/-- `ext_metrics_reserve_locked`; `callocOk` is the outcome of `calloc`. -/
def extMetricsReserveLocked (callocOk : Bool) (wantId : ℤ) (s : ExtStore) :
    Option (ℤ × ExtStore) :=
  if wantId < s.extSecretMetricsCap then some (0, s)
  else
    let cap₀ := if s.extSecretMetricsCap ≠ 0 then s.extSecretMetricsCap else 64
    match doubleWhile (fun c => c ≤ wantId) doubleFuel cap₀ with
    | none => none
    | some newCap =>
      if callocOk then
        some (0, { s with
          extSecretMetrics := s.extSecretMetrics ++
            List.replicate (newCap - s.extSecretMetricsCap).toNat ExtSecretMetric.zero })
      else some (-1, s)

variable {want r : ℤ} {s s' : ExtStore}

/-- `ext_reserve_locked` touches nothing but the capacity, which only grows. -/
theorem extReserveLocked_cases {ok : Bool} (h : extReserveLocked ok want s = some (r, s')) :
    (r = 0 ∧ ∃ cap, s.extSecretCap ≤ cap ∧ s' = { s with extSecretCap := cap }) ∨
      (r = -1 ∧ ok = false ∧ s' = s) := by
  unfold extReserveLocked at h
  split at h
  · cases h
    exact Or.inl ⟨rfl, s.extSecretCap, le_rfl, rfl⟩
  · rename_i hlt
    dsimp only at h
    split at h
    · exact absurd h (by simp)
    · rename_i newCap hcap
      have hmore := not_more_of_doubleWhile hcap
      simp only [decide_eq_false_iff_not, not_lt] at hmore
      split at h
      · cases h
        exact Or.inl ⟨rfl, newCap, by omega, rfl⟩
      · rename_i hok
        cases h
        exact Or.inr ⟨rfl, by simpa using hok, rfl⟩

/-- `ext_metrics_reserve_locked` only appends zero cells, up to past the wanted id. -/
theorem extMetricsReserveLocked_cases {ok : Bool}
    (h : extMetricsReserveLocked ok want s = some (r, s')) :
    (r = 0 ∧ want < s'.extSecretMetricsCap ∧ ∃ n,
        s' = { s with
          extSecretMetrics := s.extSecretMetrics ++ List.replicate n ExtSecretMetric.zero }) ∨
      (r = -1 ∧ ok = false ∧ s.extSecretMetricsCap ≤ want ∧ s' = s) := by
  unfold extMetricsReserveLocked at h
  split at h
  · rename_i hlt
    cases h
    exact Or.inl ⟨rfl, hlt, 0, by simp⟩
  · rename_i hge
    dsimp only at h
    split at h
    · exact absurd h (by simp)
    · rename_i newCap hcap
      have hmore := not_more_of_doubleWhile hcap
      simp only [decide_eq_false_iff_not, not_le] at hmore
      split at h
      · cases h
        refine Or.inl ⟨rfl, ?_, _, rfl⟩
        simp only [ExtStore.extSecretMetricsCap, List.length_append,
          List.length_replicate] at hge ⊢
        push_cast
        omega
      · rename_i hok
        cases h
        exact Or.inr ⟨rfl, by simpa using hok, not_lt.mp hge, rfl⟩

/-- `ext_reserve_locked` fails exactly when it has to grow and `realloc` fails. -/
theorem extReserveLocked_neg_iff {ok : Bool} (h : extReserveLocked ok want s = some (r, s')) :
    r < 0 ↔ ok = false ∧ s.extSecretCap < want := by
  unfold extReserveLocked at h
  split at h
  · rename_i hle
    cases h
    simp [not_lt.mpr hle]
  · rename_i hgt
    dsimp only at h
    split at h
    · exact absurd h (by simp)
    · split at h
      · rename_i hok
        cases h
        simp [hok]
      · rename_i hok
        cases h
        simp [hok, not_le.mp hgt]

/-- `ext_metrics_reserve_locked` fails exactly when it has to grow and `calloc` fails. -/
theorem extMetricsReserveLocked_neg_iff {ok : Bool}
    (h : extMetricsReserveLocked ok want s = some (r, s')) :
    r < 0 ↔ ok = false ∧ s.extSecretMetricsCap ≤ want := by
  unfold extMetricsReserveLocked at h
  split at h
  · rename_i hlt
    cases h
    simp [not_le.mpr hlt]
  · rename_i hge
    dsimp only at h
    split at h
    · exact absurd h (by simp)
    · split at h
      · rename_i hok
        cases h
        simp [hok]
      · rename_i hok
        cases h
        simp [hok, not_lt.mp hge]

/-- A doubling loop ends with an `int`. -/
theorem isInt32_of_doubleWhile {more : ℤ → Bool} :
    ∀ {fuel : ℕ} {cap c : ℤ}, IsInt32 cap → doubleWhile more fuel cap = some c → IsInt32 c := by
  intro fuel
  induction fuel with
  | zero => intro cap c _ h; exact absurd h (by simp [doubleWhile])
  | succ fuel ih =>
    intro cap c hcap h
    rw [doubleWhile] at h
    split at h
    · exact ih (isInt32_wrap32 _) h
    · rw [← Option.some.inj h]
      exact hcap

/-- The capacity stays an `int`. -/
theorem cap_int_of_metricsReserve {ok : Bool} (hcap : s.extSecretMetricsCap < 2 ^ 31)
    (h : extMetricsReserveLocked ok want s = some (r, s')) :
    s'.extSecretMetricsCap < 2 ^ 31 := by
  unfold extMetricsReserveLocked at h
  split at h
  · cases h
    exact hcap
  · dsimp only at h
    split at h
    · exact absurd h (by simp)
    · rename_i newCap hnew
      have hpos : 0 ≤ s.extSecretMetricsCap := by simp [ExtStore.extSecretMetricsCap]
      have hint : IsInt32 newCap := by
        refine isInt32_of_doubleWhile ?_ hnew
        split
        · exact ⟨by omega, hcap⟩
        · exact ⟨by norm_num, by norm_num⟩
      split at h
      · cases h
        have := hint.2
        simp only [ExtStore.extSecretMetricsCap, List.length_append,
          List.length_replicate] at hpos hcap ⊢
        push_cast
        omega
      · cases h
        exact hcap

/-- What a successful reservation of metrics leaves: everything but the capacity, and
room for the wanted id. -/
theorem metricsReserve_spec (hr : extMetricsReserveLocked true want s = some (r, s')) :
    r = 0 ∧ s.extSecretMetricsCap ≤ s'.extSecretMetricsCap ∧ want < s'.extSecretMetricsCap ∧
      ∃ n, s' = { s with
        extSecretMetrics := s.extSecretMetrics ++ List.replicate n ExtSecretMetric.zero } := by
  rcases extMetricsReserveLocked_cases hr with ⟨hr0, hlt, n, hs'⟩ | ⟨-, hfalse, -⟩
  · refine ⟨hr0, ?_, hlt, n, hs'⟩
    rw [hs']
    simp [ExtStore.extSecretMetricsCap]
  · exact absurd hfalse (by decide)

/-- Zero cells at the end of the array do not change what is read. -/
theorem metric_append_zero (s : ExtStore) (n : ℕ) (j : ℤ) :
    ({ s with extSecretMetrics := s.extSecretMetrics ++
      List.replicate n ExtSecretMetric.zero } : ExtStore).metric j = s.metric j := by
  unfold ExtStore.metric
  simp only [List.getD_eq_getElem?_getD, List.getElem?_append, List.getElem?_replicate]
  split
  · rfl
  · rename_i hge
    rw [List.getElem?_eq_none (not_lt.mp hge)]
    split <;> rfl

@[simp] theorem extSecretMetricsCap_setMetric (s : ExtStore) (id : ℤ) (m : ExtSecretMetric) :
    (s.setMetric id m).extSecretMetricsCap = s.extSecretMetricsCap := by
  simp [ExtStore.setMetric, ExtStore.extSecretMetricsCap]

/-- A cell reads back what was assigned to it. -/
theorem metric_setMetric_self {s : ExtStore} {id : ℤ} (h0 : 0 ≤ id)
    (hcap : id < s.extSecretMetricsCap) (m : ExtSecretMetric) :
    (s.setMetric id m).metric id = m := by
  have hlt : id.toNat < s.extSecretMetrics.length := by
    unfold ExtStore.extSecretMetricsCap at hcap
    omega
  unfold ExtStore.metric ExtStore.setMetric
  simp [hlt]

/-- The other cells keep their values. -/
theorem metric_setMetric_of_ne {s : ExtStore} {id j : ℤ} (h0 : 0 ≤ id) (hj : 0 ≤ j)
    (hne : j ≠ id) (m : ExtSecretMetric) : (s.setMetric id m).metric j = s.metric j := by
  have hne' : id.toNat ≠ j.toNat := by omega
  unfold ExtStore.metric ExtStore.setMetric
  simp [List.getD_eq_getElem?_getD, List.getElem?_set_ne hne']

/-- Reserving entries ends when fewer than `2^30` are wanted. -/
theorem extReserveLocked_isSome (ok : Bool) {want : ℤ} {s : ExtStore}
    (hcap : 0 ≤ s.extSecretCap) (hwant : want ≤ 2 ^ 30) :
    (extReserveLocked ok want s).isSome = true := by
  unfold extReserveLocked
  split
  · rfl
  · rename_i hlt
    have hcap₀ : 0 < (if s.extSecretCap ≠ 0 then wrap32 (s.extSecretCap * 2) else 64) ∧
        (if s.extSecretCap ≠ 0 then wrap32 (s.extSecretCap * 2) else 64) < 2 ^ 31 := by
      split
      · rw [wrap32_of_isInt32 ⟨by omega, by omega⟩]
        omega
      · omega
    dsimp only
    set cap₀ := if s.extSecretCap ≠ 0 then wrap32 (s.extSecretCap * 2) else 64
    have hmore : ∀ c : ℤ, decide (c < want) = true → c < 2 ^ 30 := by
      intro c hc
      have := of_decide_eq_true hc
      omega
    have hsome : (doubleWhile (fun c => c < want) doubleFuel cap₀).isSome = true :=
      doubleWhile_isSome hmore hcap₀.1 hcap₀.2 (by unfold doubleFuel; omega)
    obtain ⟨c, hc⟩ := Option.isSome_iff_exists.mp hsome
    rw [hc]
    dsimp only
    split <;> rfl

/-- Reserving metrics ends for an id below `2^30`. -/
theorem extMetricsReserveLocked_isSome (ok : Bool) {want : ℤ} {s : ExtStore}
    (hcap : s.extSecretMetricsCap < 2 ^ 31) (hwant : want < 2 ^ 30) :
    (extMetricsReserveLocked ok want s).isSome = true := by
  have hpos : 0 ≤ s.extSecretMetricsCap := by simp [ExtStore.extSecretMetricsCap]
  unfold extMetricsReserveLocked
  split
  · rfl
  · have hcap₀ : 0 < (if s.extSecretMetricsCap ≠ 0 then s.extSecretMetricsCap else 64) ∧
        (if s.extSecretMetricsCap ≠ 0 then s.extSecretMetricsCap else 64) < 2 ^ 31 := by
      split <;> omega
    dsimp only
    set cap₀ := if s.extSecretMetricsCap ≠ 0 then s.extSecretMetricsCap else 64
    have hmore : ∀ c : ℤ, decide (c ≤ want) = true → c < 2 ^ 30 := by
      intro c hc
      have := of_decide_eq_true hc
      omega
    have hsome : (doubleWhile (fun c => c ≤ want) doubleFuel cap₀).isSome = true :=
      doubleWhile_isSome hmore hcap₀.1 hcap₀.2 (by unfold doubleFuel; omega)
    obtain ⟨c, hc⟩ := Option.isSome_iff_exists.mp hsome
    rw [hc]
    dsimp only
    split <;> rfl

end MtprotoProxy
