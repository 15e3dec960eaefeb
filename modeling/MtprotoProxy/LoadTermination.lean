/-
# Where the loader of the state file ends

`tcp_rpcs_load_secrets_state` once more, with every access to `ext_secrets` and
`ext_secret_metrics` checked against the allocated arrays (`loadStateChecked`).  From an
allocated store it is the loader of `SecretLoad` (`loadStateChecked_eq`), so no access is out
of bounds.

What can go wrong is the doubling loop of `ext_metrics_reserve_locked`: an `int` that is
doubled never gets past an id from `2^30` on, and the file may ask for one.
`load_terminates_iff` says that this is the only way not to return.
-/
import MtprotoProxy.StoreRun
import MtprotoProxy.ExtLists

namespace MtprotoProxy

open CLib

/-! ## The arrays -/

/-- A capacity that starts at 64 and is doubled. -/
def Grown (cap : ℤ) : Prop := cap = 0 ∨ ∃ k ≤ 24, cap = 64 * 2 ^ k

/-- **The arrays as the program allocates them:** capacities that were doubled, and room for the
entries. -/
structure Allocated (s : ExtStore) : Prop where
  cnt_le : s.extSecretCnt ≤ s.extSecretCap
  cap_grown : Grown s.extSecretCap
  metrics_grown : Grown s.extSecretMetricsCap

/-- `ext_secrets[i]` lies in the array. -/
def ExtStore.HasPosition (s : ExtStore) (i : ℤ) : Prop := 0 ≤ i ∧ i < s.extSecretCap

instance (s : ExtStore) (i : ℤ) : Decidable (s.HasPosition i) :=
  inferInstanceAs (Decidable (_ ∧ _))

/-- `ext_secret_metrics[id]` lies in the array. -/
def ExtStore.HasCell (s : ExtStore) (id : ℤ) : Prop := 0 ≤ id ∧ id < s.extSecretMetricsCap

instance (s : ExtStore) (id : ℤ) : Decidable (s.HasCell id) :=
  inferInstanceAs (Decidable (_ ∧ _))

/-- The positions of a loop over the entries. -/
def ExtStore.HasEntries (s : ExtStore) : Prop := ∀ i < s.extSecrets.length, s.HasPosition i

instance (s : ExtStore) : Decidable s.HasEntries :=
  inferInstanceAs (Decidable (∀ i < s.extSecrets.length, s.HasPosition i))

/-! ## The loader with checked accesses -/

/-- The result of a call that may never return. -/
def returned {α : Type} : Option α → Except Fault α
  | none => .error .endless
  | some a => .ok a

@[simp] theorem returned_some {α : Type} (a : α) : returned (some a) = .ok a := rfl

/-- The counters and the id counter after a line. -/
def recordMetricsChecked (l : LoadedLine) (id : ℤ) (s : ExtStore) : Except Fault ExtStore := do
  require (l.hasMetrics = true → s.HasCell id) .badPointer
  return recordMetrics l id s

/-- A line whose secret is in the store, at index `idx`. -/
def loadExistingChecked (mem : LoadMem) (l : LoadedLine) (idx : ℕ) (E : ExtSecretEntry)
    (s : ExtStore) : Except Fault LoadStep := do
  require (s.HasPosition idx) .badPointer
  let t := takeId (freeParsedId s (some idx) l.parsedId) E.id s
  let s₁ := t.2.modifyEntry idx (fillEntry l t.1)
  if t.1 ≤ 0 then return .next s₁
  else
    let (r, s₂) ← returned (extMetricsReserveLocked mem.callocOk t.1 s₁)
    if r < 0 then return .next s₂
    else
      let s₃ ← recordMetricsChecked l t.1 s₂
      return .next s₃

/-- A line whose secret is not in the store. -/
def loadNewChecked (mem : LoadMem) (l : LoadedLine) (secret : Secret) (s : ExtStore) :
    Except Fault LoadStep := do
  let parsedId := freeParsedId s none l.parsedId
  let (r, s₀) ← returned (extReserveLocked mem.reallocOk (s.extSecretCnt + 1) s)
  if r < 0 then return .stop s₀
  else
    require (s₀.HasPosition s₀.extSecretCnt) .badPointer
    let t := takeId parsedId 0 s₀
    let s₁ := { t.2 with extSecrets := t.2.extSecrets ++ [fillEntry l t.1 (blankEntry secret)] }
    if t.1 ≤ 0 then return .next s₁
    else
      let (r, s₂) ← returned (extMetricsReserveLocked mem.callocOk t.1 s₁)
      if r < 0 then return .stop { s₂ with extSecrets := s₂.extSecrets.dropLast }
      else
        let s₃ ← recordMetricsChecked l t.1 s₂
        return .next s₃

/-- A line whose columns and secret were read: the secret and the parsed id are searched among
the entries. -/
def loadSecretLineChecked (mem : LoadMem) (l : LoadedLine) (secret : Secret) (s : ExtStore) :
    Except Fault LoadStep := do
  require s.HasEntries .badPointer
  match extFindIdxLocked s secret with
  | none => loadNewChecked mem l secret s
  | some idx =>
    match s.extSecrets[idx]? with
    | none => return .next s
    | some E => loadExistingChecked mem l idx E s

/-- The columns and the secret of a line, if it is one of an entry. -/
def lineEntry (line : Bytes) : Option (LoadedLine × Secret) :=
  if line.length ≤ 1 ∨ byteAt line 0 = 35 then none
  else if (v3Tag ++ [9]).isPrefixOf line || (v2Tag ++ [9]).isPrefixOf line then none
  else if v1Tag.isPrefixOf line then none
  else (parseCols (extSplitTsvLine line 16)).bind fun l =>
    (extSecret16FromHex l.hex).map fun secret => (l, secret)

/-- The loop body for one line. -/
def loadLineChecked (mem : LoadMem) (line : Bytes) (s : ExtStore) : Except Fault LoadStep :=
  match lineEntry line with
  | some (l, secret) => loadSecretLineChecked mem l secret s
  | none => returned (loadLine mem line s)

/-- The loop over the lines, numbered from `i`. -/
def loadLinesChecked (mem : ℕ → LoadMem) : ℕ → List Bytes → ExtStore → Except Fault ExtStore
  | _, [], s => .ok s
  | i, line :: lines, s => do
    match ← loadLineChecked (mem i) line s with
    | .stop s' => return s'
    | .next s' => loadLinesChecked mem (i + 1) lines s'

/-- The end of the loader: the sums read the entries, and the cells of the ids that pass the
loop's own check. -/
def finishLoadChecked (s : ExtStore) : Except Fault ExtStore := do
  require s.HasEntries .badPointer
  require (∀ E ∈ s.extSecrets, ¬ (E.id ≤ 0 ∨ s.extSecretMetricsCap ≤ E.id) → s.HasCell E.id)
    .badPointer
  return finishLoad s

/-- `tcp_rpcs_load_secrets_state`. -/
def loadStateChecked (fopenOk : Bool) (mem : ℕ → LoadMem) (s : ExtStore) (file : Option Bytes) :
    Except Fault (ℤ × ExtStore) :=
  if s.extSecretStateFile = [] then .ok (0, s)
  else
    match file with
    | none => .ok (0, s)
    | some text =>
      if fopenOk = false then .ok (-1, s)
      else do
        let s' ← loadLinesChecked mem 0 (getlines text) s
        let s'' ← finishLoadChecked s'
        return (0, s'')

/-! ## Doubling an `int` -/

/-- The values of a capacity that is doubled from 64 on: it wraps around, and stays zero. -/
def Doubled (cap : ℤ) : Prop := (∃ k ≤ 24, cap = 64 * 2 ^ k) ∨ cap = -2 ^ 31 ∨ cap = 0

theorem Doubled.le {cap : ℤ} (h : Doubled cap) : cap ≤ 2 ^ 30 := by
  rcases h with ⟨k, hk, rfl⟩ | rfl | rfl
  · have hpow : (2 : ℤ) ^ k ≤ 2 ^ 24 := pow_le_pow_right₀ (by norm_num) hk
    omega
  · norm_num
  · norm_num

theorem Doubled.step {cap : ℤ} (h : Doubled cap) : Doubled (wrap32 (cap * 2)) := by
  rcases h with ⟨k, hk, rfl⟩ | rfl | rfl
  -- the 25th doubling wraps around to the least `int`, and the next one to zero
  · by_cases hlast : k = 24
    · subst hlast
      exact Or.inr (Or.inl (by decide))
    · have hpow : (2 : ℤ) ^ (k + 1) ≤ 2 ^ 24 := pow_le_pow_right₀ (by norm_num) (by omega)
      have hpos : (0 : ℤ) < 2 ^ (k + 1) := by positivity
      have hdouble : (64 : ℤ) * 2 ^ k * 2 = 64 * 2 ^ (k + 1) := by ring
      refine Or.inl ⟨k + 1, by omega, ?_⟩
      rw [hdouble, wrap32_of_isInt32 ⟨by omega, by omega⟩]
  · exact Or.inr (Or.inr (by decide))
  · exact Or.inr (Or.inr (by decide))

/-- What a doubling loop ends with is one of these values. -/
theorem Doubled.of_doubleWhile {more : ℤ → Bool} :
    ∀ {fuel : ℕ} {cap c : ℤ}, Doubled cap → doubleWhile more fuel cap = some c → Doubled c := by
  intro fuel
  induction fuel with
  | zero => intro cap c _ h; exact absurd h (by simp [doubleWhile])
  | succ fuel ih =>
    intro cap c hcap h
    rw [doubleWhile] at h
    split at h
    · exact ih hcap.step h
    · rw [← Option.some.inj h]
      exact hcap

/-- **A loop whose guard takes all of them never ends,** whatever the fuel. -/
theorem Doubled.doubleWhile_eq_none {more : ℤ → Bool} (hmore : ∀ c, Doubled c → more c = true) :
    ∀ {fuel : ℕ} {cap : ℤ}, Doubled cap → doubleWhile more fuel cap = none := by
  intro fuel
  induction fuel with
  | zero => intro cap _; rfl
  | succ fuel ih =>
    intro cap hcap
    rw [doubleWhile, if_pos (hmore cap hcap)]
    exact ih hcap.step

theorem Grown.le {cap : ℤ} (h : Grown cap) : cap ≤ 2 ^ 30 := by
  rcases h with rfl | h
  · norm_num
  · exact Doubled.le (Or.inl h)

theorem Grown.nonneg {cap : ℤ} (h : Grown cap) : 0 ≤ cap := by
  rcases h with rfl | ⟨k, -, rfl⟩
  · norm_num
  · positivity

/-- A positive value of the doubling is a capacity. -/
theorem Doubled.grown {cap : ℤ} (h : Doubled cap) (hpos : 0 < cap) : Grown cap := by
  rcases h with h | rfl | rfl
  · exact Or.inr h
  · exact absurd hpos (by norm_num)
  · exact absurd hpos (by norm_num)

/-- The capacity that `ext_reserve_locked` starts to double. -/
theorem Grown.doubled_twice {cap : ℤ} (h : Grown cap) :
    Doubled (if cap ≠ 0 then wrap32 (cap * 2) else 64) := by
  split
  · rename_i hne
    exact Doubled.step (Or.inl (h.resolve_left hne))
  · exact Or.inl ⟨0, by omega, by norm_num⟩

/-- The capacity that `ext_metrics_reserve_locked` starts to double. -/
theorem Grown.doubled {cap : ℤ} (h : Grown cap) : Doubled (if cap ≠ 0 then cap else 64) := by
  split
  · rename_i hne
    exact Or.inl (h.resolve_left hne)
  · exact Or.inl ⟨0, by omega, by norm_num⟩

/-- **Room for entries** is found exactly for at most `2^30` of them. -/
theorem extReserveLocked_isSome_iff (ok : Bool) {want : ℤ} {s : ExtStore}
    (h : Grown s.extSecretCap) :
    (extReserveLocked ok want s).isSome = true ↔ want ≤ 2 ^ 30 := by
  refine ⟨fun hsome => ?_, extReserveLocked_isSome ok h.nonneg⟩
  by_contra hwant
  have hle := h.le
  unfold extReserveLocked at hsome
  rw [if_neg (by omega)] at hsome
  dsimp only at hsome
  rw [Doubled.doubleWhile_eq_none (fun c hc => decide_eq_true (by have := hc.le; omega))
    h.doubled_twice] at hsome
  exact absurd hsome (by simp)

/-- **A metric cell** is found exactly for an id below `2^30`. -/
theorem extMetricsReserveLocked_isSome_iff (ok : Bool) {want : ℤ} {s : ExtStore}
    (h : Grown s.extSecretMetricsCap) :
    (extMetricsReserveLocked ok want s).isSome = true ↔ want < 2 ^ 30 := by
  have hle := h.le
  refine ⟨fun hsome => ?_, extMetricsReserveLocked_isSome ok (by omega)⟩
  by_contra hwant
  unfold extMetricsReserveLocked at hsome
  rw [if_neg (by omega)] at hsome
  dsimp only at hsome
  rw [Doubled.doubleWhile_eq_none (fun c hc => decide_eq_true (by have := hc.le; omega))
    h.doubled] at hsome
  exact absurd hsome (by simp)

/-! ## The arrays stay allocated -/

/-- Nothing but the lengths of the arrays matters. -/
theorem Allocated.of_le {s s' : ExtStore} (h : Allocated s)
    (hlen : s'.extSecrets.length ≤ s.extSecrets.length)
    (hcap : s'.extSecretCap = s.extSecretCap)
    (hmet : s'.extSecretMetrics.length = s.extSecretMetrics.length) : Allocated s' where
  cnt_le := by
    have hcnt := h.cnt_le
    unfold ExtStore.extSecretCnt at hcnt ⊢
    omega
  cap_grown := by rw [hcap]; exact h.cap_grown
  metrics_grown := by
    unfold ExtStore.extSecretMetricsCap
    rw [hmet]
    exact h.metrics_grown

/-- The positions of all entries lie in the array. -/
theorem Allocated.hasEntries {s : ExtStore} (h : Allocated s) : s.HasEntries := by
  intro i hi
  have hcnt := h.cnt_le
  unfold ExtStore.extSecretCnt at hcnt
  exact ⟨Int.natCast_nonneg i, by omega⟩

/-- Reserving entries leaves room for them. -/
theorem Allocated.reserve {ok : Bool} {want r : ℤ} {s s' : ExtStore} (h : Allocated s)
    (hr : extReserveLocked ok want s = some (r, s')) :
    Allocated s' ∧ (¬ r < 0 → want ≤ s'.extSecretCap) := by
  unfold extReserveLocked at hr
  split at hr
  · rename_i hle
    cases hr
    exact ⟨h, fun _ => hle⟩
  · rename_i hgt
    dsimp only at hr
    split at hr
    · exact absurd hr (by simp)
    · rename_i newCap hnew
      have hmore := not_more_of_doubleWhile hnew
      simp only [decide_eq_false_iff_not, not_lt] at hmore
      have hnonneg := h.cap_grown.nonneg
      have hgrown : Grown newCap :=
        (Doubled.of_doubleWhile h.cap_grown.doubled_twice hnew).grown (by omega)
      split at hr
      · cases hr
        refine ⟨⟨?_, hgrown, h.metrics_grown⟩, fun _ => hmore⟩
        have hcnt := h.cnt_le
        show s.extSecretCnt ≤ newCap
        omega
      · cases hr
        exact ⟨h, fun hneg => absurd (by norm_num : (-1 : ℤ) < 0) hneg⟩

/-- Reserving metrics leaves a cell for the id. -/
theorem Allocated.metricsReserve {ok : Bool} {want r : ℤ} {s s' : ExtStore} (h : Allocated s)
    (hr : extMetricsReserveLocked ok want s = some (r, s')) :
    Allocated s' ∧ s'.extSecrets = s.extSecrets ∧ (¬ r < 0 → want < s'.extSecretMetricsCap) := by
  have hnonneg := h.metrics_grown.nonneg
  unfold extMetricsReserveLocked at hr
  split at hr
  · rename_i hlt
    cases hr
    exact ⟨h, rfl, fun _ => hlt⟩
  · rename_i hge
    dsimp only at hr
    split at hr
    · exact absurd hr (by simp)
    · rename_i newCap hnew
      have hmore := not_more_of_doubleWhile hnew
      simp only [decide_eq_false_iff_not, not_le] at hmore
      have hgrown : Grown newCap :=
        (Doubled.of_doubleWhile h.metrics_grown.doubled hnew).grown (by omega)
      split at hr
      · cases hr
        have hcap : ((s.extSecretMetrics ++ List.replicate (newCap - s.extSecretMetricsCap).toNat
            ExtSecretMetric.zero).length : ℤ) = newCap := by
          rw [List.length_append, List.length_replicate]
          unfold ExtStore.extSecretMetricsCap at hge hnonneg ⊢
          push_cast
          omega
        refine ⟨⟨h.cnt_le, h.cap_grown, ?_⟩, rfl, fun _ => ?_⟩
        · exact (congrArg Grown hcap).mpr hgrown
        · exact hmore.trans_eq hcap.symm
      · cases hr
        exact ⟨h, rfl, fun hneg => absurd (by norm_num : (-1 : ℤ) < 0) hneg⟩

/-- `takeId` leaves the arrays alone. -/
theorem takeId_arrays (parsedId current : ℤ) (s : ExtStore) :
    (takeId parsedId current s).2.extSecrets = s.extSecrets ∧
      (takeId parsedId current s).2.extSecretCap = s.extSecretCap ∧
      (takeId parsedId current s).2.extSecretMetrics = s.extSecretMetrics := by
  unfold takeId
  split
  · exact ⟨rfl, rfl, rfl⟩
  · split <;> exact ⟨rfl, rfl, rfl⟩

/-- So does the end of a line. -/
theorem Allocated.recordMetrics {s : ExtStore} (h : Allocated s) (l : LoadedLine) (id : ℤ) :
    Allocated (recordMetrics l id s) := by
  have hset : Allocated (s.setMetric id ⟨l.bytesIn, l.bytesOut, l.connections⟩) :=
    h.of_le le_rfl rfl (List.length_set ..)
  have hnext : ∀ t : ExtStore, Allocated t → Allocated
      (if t.extSecretNextId ≤ id then { t with extSecretNextId := wrap32 (id + 1) } else t) := by
    intro t ht
    split
    · exact ht.of_le le_rfl rfl rfl
    · exact ht
  unfold MtprotoProxy.recordMetrics
  split
  · exact hnext _ hset
  · exact hnext _ h

/-- The entry of a line that was found in the store. -/
theorem Allocated.fillExisting {s : ExtStore} (h : Allocated s) (l : LoadedLine) (idx : ℕ)
    (parsedId current : ℤ) :
    Allocated ((takeId parsedId current s).2.modifyEntry idx
      (fillEntry l (takeId parsedId current s).1)) := by
  obtain ⟨hent, hcap, hmet⟩ := takeId_arrays parsedId current s
  refine h.of_le ?_ hcap (congrArg List.length hmet)
  simp only [ExtStore.modifyEntry, List.length_modify, hent, le_refl]

/-- The entry of a line that was not, once there is room for it. -/
theorem Allocated.fillNew {s : ExtStore} (h : Allocated s) (hroom : s.extSecretCnt + 1 ≤ s.extSecretCap)
    (l : LoadedLine) (secret : Secret) (parsedId : ℤ) :
    Allocated { (takeId parsedId 0 s).2 with
      extSecrets := (takeId parsedId 0 s).2.extSecrets ++
        [fillEntry l (takeId parsedId 0 s).1 (blankEntry secret)] } := by
  obtain ⟨hent, hcap, hmet⟩ := takeId_arrays parsedId 0 s
  -- only the number of entries grows
  refine ⟨?_, ?_, ?_⟩
  · unfold ExtStore.extSecretCnt at hroom ⊢
    simp only [List.length_append, List.length_singleton, hent, hcap]
    push_cast
    exact hroom
  · show Grown (takeId parsedId 0 s).2.extSecretCap
    rw [hcap]
    exact h.cap_grown
  · unfold ExtStore.extSecretMetricsCap
    simp only [hmet]
    exact h.metrics_grown

/-! ## The checks never fail -/

theorem recordMetricsChecked_eq {l : LoadedLine} {id : ℤ} {s : ExtStore} (hpos : 0 < id)
    (hlt : id < s.extSecretMetricsCap) :
    recordMetricsChecked l id s = .ok (recordMetrics l id s) := by
  unfold recordMetricsChecked
  rw [require_ok (fun _ => ⟨hpos.le, hlt⟩), ok_bind, pure_eq_ok]

variable {mem : LoadMem} {l : LoadedLine}

/-- A line for a known secret. -/
theorem loadExistingChecked_eq {idx : ℕ} {E : ExtSecretEntry}
    {s : ExtStore} (h : Allocated s) (hidx : idx < s.extSecrets.length) :
    loadExistingChecked mem l idx E s = returned (loadExisting mem l idx E s) := by
  unfold loadExistingChecked loadExisting
  rw [require_ok (h.hasEntries idx hidx), ok_bind]
  dsimp only
  split
  · rfl
  · rename_i hid
    cases hr : extMetricsReserveLocked mem.callocOk _ _ with
    | none => rfl
    | some p =>
      obtain ⟨r, s₂⟩ := p
      obtain ⟨-, -, hcell⟩ := (h.fillExisting l idx _ _).metricsReserve hr
      rw [returned_some, ok_bind]
      dsimp only
      split
      · rfl
      · rename_i hneg
        rw [recordMetricsChecked_eq (not_le.mp hid) (hcell hneg), ok_bind]
        rfl

/-- A line for a new secret. -/
theorem loadNewChecked_eq {secret : Secret} {s : ExtStore}
    (h : Allocated s) : loadNewChecked mem l secret s = returned (loadNew mem l secret s) := by
  unfold loadNewChecked loadNew
  dsimp only
  cases hr : extReserveLocked mem.reallocOk (s.extSecretCnt + 1) s with
  | none => rfl
  | some p =>
    obtain ⟨r, s₀⟩ := p
    obtain ⟨h₀, hroom⟩ := h.reserve hr
    rw [returned_some, ok_bind]
    dsimp only
    split
    · rfl
    · rename_i hneg
      have hcnt : s₀.extSecretCnt = s.extSecretCnt := by
        rcases extReserveLocked_cases hr with ⟨-, cap, -, rfl⟩ | ⟨-, -, rfl⟩ <;> rfl
      have hroom₀ : s₀.extSecretCnt + 1 ≤ s₀.extSecretCap := hcnt ▸ hroom hneg
      have hposition : s₀.HasPosition s₀.extSecretCnt := ⟨Int.natCast_nonneg _, by omega⟩
      rw [require_ok hposition, ok_bind]
      split
      · rfl
      · rename_i hid
        cases hm : extMetricsReserveLocked mem.callocOk _ _ with
        | none => rfl
        | some p =>
          obtain ⟨r, s₂⟩ := p
          obtain ⟨-, -, hcell⟩ := (h₀.fillNew hroom₀ l secret _).metricsReserve hm
          rw [returned_some, ok_bind]
          dsimp only
          split
          · rfl
          · rename_i hneg₂
            rw [recordMetricsChecked_eq (not_le.mp hid) (hcell hneg₂), ok_bind]
            rfl

/-- A line of an entry. -/
theorem loadSecretLineChecked_eq {secret : Secret} {s : ExtStore}
    (h : Allocated s) :
    loadSecretLineChecked mem l secret s = returned (loadSecretLine mem l secret s) := by
  unfold loadSecretLineChecked loadSecretLine
  rw [require_ok h.hasEntries, ok_bind]
  cases hidx : extFindIdxLocked s secret with
  | none => exact loadNewChecked_eq h
  | some idx =>
    obtain ⟨hlt, -⟩ := extFindIdxLocked_eq_some hidx
    dsimp only
    rw [List.getElem?_eq_getElem hlt]
    exact loadExistingChecked_eq h hlt

/-- What the loop body does with a line of an entry. -/
theorem loadLine_of_entry {mem : LoadMem} {line : Bytes} {l : LoadedLine} {secret : Secret}
    {s : ExtStore} (hline : lineEntry line = some (l, secret)) :
    loadLine mem line s = loadSecretLine mem l secret s := by
  unfold lineEntry at hline
  split_ifs at hline with h₁ h₂ h₃
  obtain ⟨l', hcols, hsecret⟩ := Option.bind_eq_some_iff.mp hline
  obtain ⟨secret', hhex, heq⟩ := Option.map_eq_some_iff.mp hsecret
  obtain ⟨rfl, rfl⟩ := Prod.mk.inj heq
  unfold loadLine
  rw [if_neg h₁, if_neg h₂, if_neg h₃]
  unfold loadEntryLine
  rw [hcols]
  dsimp only
  rw [hhex]

/-- What it does with another line. -/
theorem loadLine_of_no_entry {line : Bytes} (hline : lineEntry line = none) (mem : LoadMem)
    (s : ExtStore) :
    loadLine mem line s = some (.next s) ∨ loadLine mem line s = some (.next (loadHeaderLine line s)) := by
  unfold lineEntry at hline
  unfold loadLine
  split_ifs at hline ⊢ with h₁ h₂ h₃
  · exact Or.inl rfl
  · exact Or.inr rfl
  · exact Or.inl rfl
  · left
    unfold loadEntryLine
    cases hcols : parseCols (extSplitTsvLine line 16) with
    | none => rfl
    | some l =>
      rw [hcols, Option.bind_some, Option.map_eq_none_iff] at hline
      dsimp only
      rw [hline]

/-- One line. -/
theorem loadLineChecked_eq {mem : LoadMem} {line : Bytes} {s : ExtStore} (h : Allocated s) :
    loadLineChecked mem line s = returned (loadLine mem line s) := by
  unfold loadLineChecked
  cases hline : lineEntry line with
  | none => rfl
  | some p =>
    rw [loadLine_of_entry hline]
    exact loadSecretLineChecked_eq h

/-- A new secret leaves the arrays allocated. -/
theorem Allocated.loadNew {secret : Secret} {s : ExtStore}
    {st : LoadStep} (h : Allocated s) (hres : loadNew mem l secret s = some st) :
    Allocated st.store := by
  unfold MtprotoProxy.loadNew at hres
  dsimp only at hres
  split at hres
  · exact absurd hres (by simp)
  rename_i r s₀ hr
  obtain ⟨h₀, hroom⟩ := h.reserve hr
  have hcnt : s₀.extSecretCnt = s.extSecretCnt := by
    rcases extReserveLocked_cases hr with ⟨-, cap, -, rfl⟩ | ⟨-, -, rfl⟩ <;> rfl
  split at hres
  · cases hres
    exact h₀
  rename_i hneg
  have hnew := fun parsedId => h₀.fillNew (hcnt ▸ hroom hneg) l secret parsedId
  split at hres
  · cases hres
    exact hnew _
  split at hres
  · exact absurd hres (by simp)
  rename_i hm
  have h₂ := ((hnew _).metricsReserve hm).1
  split at hres
  · cases hres
    exact h₂.of_le (by simp [LoadStep.store]) rfl rfl
  · cases hres
    exact h₂.recordMetrics l _

/-- So does a secret that is there already. -/
theorem Allocated.loadExisting {idx : ℕ} {E : ExtSecretEntry}
    {s : ExtStore} {st : LoadStep} (h : Allocated s)
    (hres : loadExisting mem l idx E s = some st) : Allocated st.store := by
  unfold MtprotoProxy.loadExisting at hres
  dsimp only at hres
  split at hres
  · cases hres
    exact h.fillExisting l _ _ _
  split at hres
  · exact absurd hres (by simp)
  rename_i hm
  have h₂ := ((h.fillExisting l _ _ _).metricsReserve hm).1
  split at hres
  · cases hres
    exact h₂
  · cases hres
    exact h₂.recordMetrics l _

/-- A line leaves the arrays allocated. -/
theorem Allocated.loadLine {mem : LoadMem} {line : Bytes} {s : ExtStore} {st : LoadStep}
    (h : Allocated s) (hres : loadLine mem line s = some st) : Allocated st.store := by
  cases hline : lineEntry line with
  | none =>
    rcases loadLine_of_no_entry hline mem s with heq | heq
    · rw [heq] at hres
      cases hres
      exact h
    · rw [heq] at hres
      cases hres
      show Allocated (loadHeaderLine line s)
      unfold loadHeaderLine
      split
      · exact h
      · split
        · exact h.of_le le_rfl rfl rfl
        · exact h
  | some p =>
    obtain ⟨l, secret⟩ := p
    rw [loadLine_of_entry hline] at hres
    unfold loadSecretLine at hres
    split at hres
    · exact h.loadNew hres
    · split at hres
      · cases hres
        exact h
      · exact h.loadExisting hres

/-- The loop over the lines. -/
theorem loadLinesChecked_eq {mem : ℕ → LoadMem} :
    ∀ {lines : List Bytes} {i : ℕ} {s : ExtStore}, Allocated s →
      loadLinesChecked mem i lines s = returned (loadLines mem i lines s) ∧
        ∀ s', loadLines mem i lines s = some s' → Allocated s' := by
  intro lines
  induction lines with
  | nil =>
    intro i s h
    refine ⟨rfl, fun s' hs' => ?_⟩
    cases hs'
    exact h
  | cons line lines ih =>
    intro i s h
    -- the next line finds an allocated store again
    rw [loadLinesChecked, loadLines, loadLineChecked_eq h]
    cases hline : loadLine (mem i) line s with
    | none => exact ⟨rfl, fun s' hs' => by cases hs'⟩
    | some st =>
      have hst := h.loadLine hline
      rw [returned_some, ok_bind]
      cases st with
      | stop s₁ =>
        refine ⟨rfl, fun s' hs' => ?_⟩
        cases hs'
        exact hst
      | next s₁ => exact ih hst

theorem finishLoadChecked_eq {s : ExtStore} (h : Allocated s) :
    finishLoadChecked s = .ok (finishLoad s) := by
  unfold finishLoadChecked
  rw [require_ok h.hasEntries, ok_bind, require_ok, ok_bind, pure_eq_ok]
  intro E _ hguard
  rw [not_or, not_le, not_le] at hguard
  exact ⟨hguard.1.le, hguard.2⟩

variable {file : Option Bytes}

/-- **The loader uses no position outside the arrays:** with the checks it is the loader. -/
theorem loadStateChecked_eq {fopenOk : Bool} {mem : ℕ → LoadMem} {s : ExtStore}
    (h : Allocated s) :
    loadStateChecked fopenOk mem s file = returned (tcpRpcsLoadSecretsState fopenOk mem s file) := by
  unfold loadStateChecked tcpRpcsLoadSecretsState
  split
  · rfl
  cases file with
  | none => rfl
  | some text =>
    dsimp only
    split
    · rfl
    have hloop : loadLinesChecked mem 0 (getlines text) s
        = returned (loadLines mem 0 (getlines text) s) ∧
          ∀ s', loadLines mem 0 (getlines text) s = some s' → Allocated s' :=
      loadLinesChecked_eq h
    obtain ⟨hlines, hstore⟩ := hloop
    rw [hlines]
    cases hrun : loadLines mem 0 (getlines text) s with
    | none => rfl
    | some s' =>
      rw [returned_some, ok_bind, finishLoadChecked_eq (hstore s' hrun), ok_bind]
      rfl

/-! ## The arrays of a running process -/

theorem allocated_init (stateFile : Bytes) : Allocated (ExtStore.init stateFile) :=
  ⟨le_rfl, Or.inl rfl, Or.inl rfl⟩

theorem Allocated.finish {env : OpEnv} {persist : Bool} {s : ExtStore} (h : Allocated s) :
    Allocated (finish env persist s file).store := by
  rw [finish_store]
  exact h

theorem Allocated.modifyEntry {s : ExtStore} (h : Allocated s) (idx : ℕ)
    (f : ExtSecretEntry → ExtSecretEntry) : Allocated (s.modifyEntry idx f) :=
  h.of_le (List.length_modify ..).le rfl rfl

theorem Allocated.mapEntries {s : ExtStore} (h : Allocated s)
    (f : ExtSecretEntry → ExtSecretEntry) :
    Allocated { s with extSecrets := s.extSecrets.map f } := by
  refine h.of_le ?_ rfl rfl
  show (s.extSecrets.map f).length ≤ s.extSecrets.length
  rw [List.length_map]

/-- An id for an entry. -/
theorem Allocated.ensureId {env : OpEnv} {idx : ℕ} {s s₁ : ExtStore} {r : ℤ} (h : Allocated s)
    (hres : extEnsureId env idx s = some (r, s₁)) : Allocated s₁ := by
  unfold extEnsureId at hres
  split at hres
  · cases hres
    exact h
  split at hres
  · exact absurd hres (by simp)
  rename_i hm
  have h₂ := (h.metricsReserve hm).1
  split at hres
  · cases hres
    exact h₂
  · cases hres
    exact (h₂.modifyEntry _ _).of_le le_rfl rfl rfl

/-- A new secret. -/
theorem Allocated.addNew {env : OpEnv} {secret : Secret} {label : Bytes} {expiresAt : Int64}
    {enabled : ℤ} {persist : Bool} {s : ExtStore} {res : OpResult}
    (h : Allocated s)
    (hres : extAddNew env secret label expiresAt enabled persist s file = some res) :
    Allocated res.store := by
  unfold extAddNew at hres
  split at hres
  · exact absurd hres (by simp)
  rename_i r s₁ hr
  obtain ⟨h₁, hroom⟩ := h.reserve hr
  have hcnt : s₁.extSecretCnt = s.extSecretCnt := by
    rcases extReserveLocked_cases hr with ⟨-, cap, -, rfl⟩ | ⟨-, -, rfl⟩ <;> rfl
  split at hres
  · cases hres
    exact h₁
  rename_i hneg
  split at hres
  · exact absurd hres (by simp)
  rename_i r₂ s₂ hm
  obtain ⟨h₂, hent, -⟩ := h₁.metricsReserve hm
  have hcap : s₂.extSecretCap = s₁.extSecretCap := by
    rcases extMetricsReserveLocked_cases hm with ⟨-, -, n, rfl⟩ | ⟨-, -, -, rfl⟩ <;> rfl
  split at hres
  · cases hres
    exact h₂
  · cases hres
    refine Allocated.finish ⟨?_, h₂.cap_grown, h₂.metrics_grown⟩
    have hroom₁ : s₁.extSecretCnt + 1 ≤ s₁.extSecretCap := hcnt ▸ hroom hneg
    unfold ExtStore.extSecretCnt at hroom₁ ⊢
    simp only [ExtStore.bumpNextId, List.length_append, List.length_singleton, hent, hcap]
    push_cast
    exact hroom₁

/-- `ext_add_locked`. -/
theorem Allocated.add {env : OpEnv} {secret : Secret} {label : Bytes} {expiresAt : Int64}
    {enabled : ℤ} {failIfExists persist : Bool} {s : ExtStore} {res : OpResult} (h : Allocated s)
    (hres : extAddLocked env secret label expiresAt enabled failIfExists persist s file
      = some res) : Allocated res.store := by
  unfold extAddLocked at hres
  split at hres
  · split at hres
    · exact absurd hres (by simp)
    rename_i r s₁ hensure
    have h₁ := h.ensureId hensure
    split at hres
    · cases hres
      exact h₁
    split at hres
    · cases hres
      exact h₁
    · cases hres
      exact (h₁.modifyEntry _ _).finish
  · exact h.addNew hres

/-- The commands. -/
theorem Allocated.run {env : OpEnv} {op : AdminOp} {s : ExtStore} {res : OpResult} (h : Allocated s)
    (hres : op.run env s file = some res) :
    Allocated res.store := by
  have hentry : ∀ {hex : Bytes} {change : ℕ → ExtStore → ExtStore},
      (∀ idx, Allocated (change idx s)) → Allocated (extCmdOnEntry env hex change s file).store := by
    intro hex change hchange
    rcases extCmdOnEntry_cases env hex change s file with heq | ⟨secret, idx, -, -, heq⟩
    · rw [heq]
      exact h
    · rw [heq]
      exact (hchange idx).finish
  cases op with
  | add hex label expiresAt enabled =>
    unfold AdminOp.run extCmdAdd at hres
    dsimp only at hres
    split at hres
    · cases hres
      exact h
    · exact h.add hres
  | remove hex =>
    cases hres
    exact hentry (fun idx => h.of_le (length_swapRemove_le _ idx) rfl rfl)
  | setEnabled hex enabled =>
    cases hres
    exact hentry (fun idx => h.modifyEntry idx _)
  | update hex label expiresAt enabled =>
    cases hres
    exact hentry (fun idx => h.modifyEntry idx _)
  | disableExpired now =>
    cases hres
    show Allocated (extCmdDisableExpired env now s file).store
    unfold extCmdDisableExpired
    exact (h.mapEntries _).finish

/-- An accepted handshake. -/
theorem Allocated.attach {s : ExtStore} (h : Allocated s) (now : TimeT) (C : PeerAddr)
    (extraInt2 secretId : ℤ) :
    Allocated (extMetricsAttachSecretToConnection now C extraInt2 secretId s).2 := by
  -- at most one entry and one cell are changed in place
  rcases extMetricsAttach_cases now C extraInt2 secretId s with
    heq | ⟨-, s', heq, hent, -, hcap, -, -, -, -, hmet⟩
  · rw [heq]
    exact h
  · rw [heq]
    refine h.of_le ?_ hcap ?_
    · rcases hent with hsame | ⟨idx, hidx⟩
      · exact (congrArg List.length hsame).le
      · rw [hidx]
        exact (List.length_modify ..).le
    · rw [hmet]
      split
      · exact List.length_set ..
      · rfl

theorem Allocated.noteTraffic {s : ExtStore} (h : Allocated s) (secretId bytesIn bytesOut : ℤ) :
    Allocated (tcpRpcsNoteConnectionTraffic secretId bytesIn bytesOut s) := by
  rcases tcpRpcsNoteConnectionTraffic_cases secretId bytesIn bytesOut s with heq | ⟨-, -, heq⟩
  · rw [heq]
    exact h
  · rw [heq]
    exact h.of_le le_rfl rfl (List.length_set ..)

/-- The loader. -/
theorem Allocated.load {fopenOk : Bool} {mem : ℕ → LoadMem} {s s' : ExtStore}
    {r : ℤ} (h : Allocated s)
    (hres : tcpRpcsLoadSecretsState fopenOk mem s file = some (r, s')) : Allocated s' := by
  unfold tcpRpcsLoadSecretsState at hres
  split at hres
  · cases hres
    exact h
  · split at hres
    · cases hres
      exact h
    · split at hres
      · cases hres
        exact h
      · obtain ⟨t, ht, heq⟩ := Option.map_eq_some_iff.mp hres
        cases heq
        exact ((loadLinesChecked_eq h).2 t ht).of_le le_rfl rfl rfl

theorem Allocated.bootAll :
    ∀ {boot : List (OpEnv × Secret)} {s s' : ExtStore}, Allocated s →
      bootAll boot s = some s' → Allocated s' := by
  intro boot
  induction boot with
  | nil =>
    intro s s' h hboot
    cases hboot
    exact h
  | cons b boot ih =>
    intro s s' h hboot
    obtain ⟨env, secret⟩ := b
    rw [MtprotoProxy.bootAll] at hboot
    split at hboot
    · exact absurd hboot (by simp)
    · rename_i res hres
      exact ih (h.add hres) hboot

/-- **Every event leaves the arrays allocated,** also when allocations fail. -/
theorem Allocated.step {p p' : Process} {e : StoreEvent} (h : Allocated p.store)
    (hstep : p.step e = some p') : Allocated p'.store := by
  cases e with
  | bootstrap env secret =>
    obtain ⟨res, hres, rfl⟩ := Option.map_eq_some_iff.mp hstep
    exact h.add hres
  | load fopenOk mem text =>
    obtain ⟨⟨r, s'⟩, hres, rfl⟩ := Option.map_eq_some_iff.mp hstep
    exact h.load hres
  | admin env op =>
    obtain ⟨res, hres, rfl⟩ := Option.map_eq_some_iff.mp hstep
    exact h.run hres
  | flush io =>
    cases hstep
    exact h
  | handshake c mallocOk now =>
    cases hstep
    exact h
  | accept c i now peer =>
    unfold Process.step at hstep
    dsimp only at hstep
    split at hstep
    · cases hstep
      exact h
    · cases hstep
      exact h.attach now peer _ _
  | traffic c bytesIn bytesOut =>
    cases hstep
    exact h.noteTraffic _ _ _
  | restart boot fopenOk mem =>
    unfold Process.step at hstep
    dsimp only at hstep
    split at hstep
    · exact absurd hstep (by simp)
    · rename_i s hboot
      obtain ⟨⟨r, s'⟩, hres, rfl⟩ := Option.map_eq_some_iff.mp hstep
      exact ((allocated_init _).bootAll hboot).load hres

/-- **The arrays of every store that a process can have** are allocated. -/
theorem allocated_of_run {stateFile : Bytes} {es : List StoreEvent}
    {p : Process}
    (hrun : Runs.run Process.step (Process.start stateFile file) es = some p) :
    Allocated p.store := by
  have hstep : ∀ (q : Process) (e : StoreEvent) (q' : Process), Allocated q.store →
      True → Process.step q e = some q' → Allocated q'.store :=
    fun _ _ _ hq _ hq' => hq.step hq'
  exact Runs.run_invariant (P := fun q : Process => Allocated q.store) hstep (allocated_init _)
    (Runs.along_of_forall (fun _ _ => trivial)) hrun

/-! ## The lines whose ids are in reach -/

/-- The id that the entry of a line gets: the one of the line if it is positive and free, else
the entry's own, else the next one. -/
def lineId (l : LoadedLine) (secret : Secret) (s : ExtStore) : ℤ :=
  match extFindIdxLocked s secret with
  | none => (takeId (freeParsedId s none l.parsedId) 0 s).1
  | some idx =>
    match s.extSecrets[idx]? with
    | none => 0
    | some E => (takeId (freeParsedId s (some idx) l.parsedId) E.id s).1

/-- **The entry of a line is in reach of the doubling loops.**  An id matters only when there is
an entry for it: a line for a new secret may find no memory. -/
structure EntryInReach (mem : LoadMem) (l : LoadedLine) (secret : Secret) (s : ExtStore) :
    Prop where
  room : extFindIdxLocked s secret = none → s.extSecretCnt < 2 ^ 30
  id_lt : (extFindIdxLocked s secret = none → mem.reallocOk = true ∨
    s.extSecretCnt < s.extSecretCap) → lineId l secret s < 2 ^ 30

/-- The condition on a line: if it is one of an entry, this is in reach. -/
def LineInReach (mem : LoadMem) (line : Bytes) (s : ExtStore) : Prop :=
  ∀ l secret, lineEntry line = some (l, secret) → EntryInReach mem l secret s

/-- The condition on a file, line by line, at the store that each line finds. -/
def LinesInReach (mem : ℕ → LoadMem) : ℕ → List Bytes → ExtStore → Prop
  | _, [], _ => True
  | i, line :: lines, s => LineInReach (mem i) line s ∧
      ∀ s', loadLine (mem i) line s = some (.next s') → LinesInReach mem (i + 1) lines s'

/-- The id of a line for a known secret. -/
theorem loadExisting_isSome_iff {idx : ℕ} {E : ExtSecretEntry}
    {s : ExtStore} (h : Allocated s) :
    (loadExisting mem l idx E s).isSome = true ↔
      (takeId (freeParsedId s (some idx) l.parsedId) E.id s).1 < 2 ^ 30 := by
  have hfill := h.fillExisting l idx (freeParsedId s (some idx) l.parsedId) E.id
  unfold loadExisting
  dsimp only
  split
  · rename_i hid
    exact iff_of_true rfl (by omega)
  -- no id, no cell: only a positive id goes through the doubling loop
  · rw [← extMetricsReserveLocked_isSome_iff mem.callocOk hfill.metrics_grown]
    split
    · rename_i hnone
      rw [hnone]
      exact Bool.eq_iff_iff.mp rfl
    · rename_i r s₂ hr
      rw [hr]
      split <;> exact iff_of_true rfl rfl

/-- The id of a line for a new secret does not depend on the reserved room. -/
theorem takeId_cap (parsedId current : ℤ) (s : ExtStore) (cap : ℤ) :
    (takeId parsedId current { s with extSecretCap := cap }).1 = (takeId parsedId current s).1 := by
  unfold takeId
  split
  · rfl
  · split <;> rfl

/-- A line for a new secret. -/
theorem loadNew_isSome_iff {secret : Secret} {s : ExtStore}
    (h : Allocated s) :
    (loadNew mem l secret s).isSome = true ↔ s.extSecretCnt < 2 ^ 30 ∧
      (mem.reallocOk = true ∨ s.extSecretCnt < s.extSecretCap →
        (takeId (freeParsedId s none l.parsedId) 0 s).1 < 2 ^ 30) := by
  have hroom : (extReserveLocked mem.reallocOk (s.extSecretCnt + 1) s).isSome = true ↔ _ :=
    extReserveLocked_isSome_iff mem.reallocOk h.cap_grown
  unfold loadNew
  dsimp only
  cases hr : extReserveLocked mem.reallocOk (s.extSecretCnt + 1) s with
  | none =>
    rw [hr] at hroom
    have hfull : ¬ s.extSecretCnt < 2 ^ 30 := fun hlt =>
      Bool.false_ne_true (hroom.mpr (by omega))
    exact iff_of_false Bool.false_ne_true (fun hc => hfull hc.1)
  | some p =>
    obtain ⟨r, s₀⟩ := p
    rw [hr] at hroom
    have hlt : s.extSecretCnt < 2 ^ 30 := by
      have := hroom.mp rfl
      omega
    rw [and_iff_right hlt]
    obtain ⟨h₀, hfits⟩ := h.reserve hr
    have hneg : ¬ r < 0 ↔ mem.reallocOk = true ∨ s.extSecretCnt < s.extSecretCap := by
      rw [extReserveLocked_neg_iff hr, not_and_or, Bool.not_eq_false, not_lt,
        Int.add_one_le_iff]
    -- there is room: the id decides; there is none: the line is the last one
    rcases extReserveLocked_cases hr with ⟨rfl, cap, -, rfl⟩ | ⟨rfl, -, rfl⟩
    · have hgranted := hneg.mp (lt_irrefl _)
      have hnew := h₀.fillNew (hfits (lt_irrefl _)) l secret (freeParsedId s none l.parsedId)
      dsimp only
      rw [if_neg (lt_irrefl _), imp_iff_right hgranted, ← takeId_cap _ _ s cap,
        ← extMetricsReserveLocked_isSome_iff mem.callocOk hnew.metrics_grown]
      split
      · rename_i hid
        apply iff_of_true rfl
        exact (extMetricsReserveLocked_isSome_iff mem.callocOk hnew.metrics_grown).mpr (by omega)
      · split
        · rename_i hnone
          rw [hnone]
          exact Bool.eq_iff_iff.mp rfl
        · rename_i hm
          rw [hm]
          split <;> exact iff_of_true rfl rfl
    · dsimp only
      rw [if_pos (by norm_num)]
      exact iff_of_true rfl (fun hgranted => absurd (by norm_num) (hneg.mpr hgranted))

/-- **A line ends exactly when it is in reach.** -/
theorem loadLine_isSome_iff {mem : LoadMem} {line : Bytes} {s : ExtStore} (h : Allocated s) :
    (loadLine mem line s).isSome = true ↔ LineInReach mem line s := by
  unfold LineInReach
  cases hline : lineEntry line with
  | none =>
    refine iff_of_true ?_ nofun
    rcases loadLine_of_no_entry hline mem s with heq | heq <;> rw [heq] <;> rfl
  | some p =>
    obtain ⟨l, secret⟩ := p
    rw [loadLine_of_entry hline]
    have hone : (∀ l' secret', some (l, secret) = some (l', secret') →
        EntryInReach mem l' secret' s) ↔ EntryInReach mem l secret s := by
      refine ⟨fun hall => hall l secret rfl, fun hreach l' secret' heq => ?_⟩
      cases heq
      exact hreach
    rw [hone]
    unfold loadSecretLine
    cases hidx : extFindIdxLocked s secret with
    | none =>
      dsimp only
      rw [loadNew_isSome_iff h]
      constructor
      · rintro ⟨hroom, hid⟩
        refine ⟨fun _ => hroom, fun hgranted => ?_⟩
        unfold lineId
        rw [hidx]
        exact hid (hgranted hidx)
      · rintro ⟨hroom, hid⟩
        unfold lineId at hid
        rw [hidx] at hid
        exact ⟨hroom hidx, fun hgranted => hid (fun _ => hgranted)⟩
    | some idx =>
      obtain ⟨hlt, -⟩ := extFindIdxLocked_eq_some hidx
      have hE := List.getElem?_eq_getElem hlt
      dsimp only
      rw [hE]
      dsimp only
      rw [loadExisting_isSome_iff h]
      constructor
      · intro hid
        refine ⟨fun hnone => absurd (hidx.symm.trans hnone) (by simp), fun _ => ?_⟩
        unfold lineId
        rw [hidx]
        dsimp only
        rw [hE]
        exact hid
      · rintro ⟨-, hid⟩
        unfold lineId at hid
        rw [hidx] at hid
        dsimp only at hid
        rw [hE] at hid
        exact hid nofun

/-- The loop over the lines. -/
theorem loadLines_isSome_iff {mem : ℕ → LoadMem} :
    ∀ {lines : List Bytes} {i : ℕ} {s : ExtStore}, Allocated s →
      ((loadLines mem i lines s).isSome = true ↔ LinesInReach mem i lines s) := by
  intro lines
  induction lines with
  | nil => intro i s _; exact iff_of_true rfl trivial
  | cons line lines ih =>
    intro i s h
    have hone : (loadLine (mem i) line s).isSome = true ↔ LineInReach (mem i) line s :=
      loadLine_isSome_iff h
    rw [loadLines, LinesInReach, ← hone]
    cases hline : loadLine (mem i) line s with
    | none => exact iff_of_false Bool.false_ne_true (fun hc => Bool.false_ne_true hc.1)
    | some st =>
      cases st with
      | stop s₁ => exact iff_of_true rfl ⟨rfl, fun s' hs' => by cases hs'⟩
      | next s₁ =>
        have hst : Allocated s₁ := h.loadLine hline
        dsimp only
        rw [ih hst]
        refine ⟨fun hrest => ⟨rfl, fun s' hs' => ?_⟩, fun hall => hall.2 s₁ rfl⟩
        cases hs'
        exact hrest

/-! ## The result -/

/-- The loader opens the state file. -/
def OpensStateFile (fopenOk : Bool) (s : ExtStore) : Prop :=
  s.extSecretStateFile ≠ [] ∧ fopenOk = true

/-- The loader, in terms of its loop. -/
theorem loadStateChecked_isSome_iff {fopenOk : Bool} {mem : ℕ → LoadMem} {s : ExtStore}
    (h : Allocated s) :
    (tcpRpcsLoadSecretsState fopenOk mem s file).isSome = true ↔
      ∀ text, OpensStateFile fopenOk s → file = some text →
        LinesInReach mem 0 (getlines text) s := by
  unfold tcpRpcsLoadSecretsState OpensStateFile
  split
  · rename_i hno
    exact iff_of_true rfl (fun _ hopen _ => absurd hno hopen.1)
  · rename_i hfile
    cases file with
    | none => exact iff_of_true rfl nofun
    | some text =>
      dsimp only
      split
      · rename_i hclosed
        exact iff_of_true rfl (fun _ hopen _ => absurd hopen.2 (by rw [hclosed]; decide))
      · rename_i hopen
        rw [Option.isSome_map, loadLines_isSome_iff h]
        refine ⟨fun hreach text' _ heq => ?_, fun hall =>
          hall text ⟨hfile, Bool.not_eq_false _ ▸ hopen⟩ rfl⟩
        cases heq
        exact hreach

/-- **Exactly when the loader returns.**  Whatever the file holds and whatever the process did
before, the loader stays inside the arrays; and it returns if and only if the file is not
opened or every entry line it reaches gets an id below `2^30` (and finds fewer than `2^30`
entries).  A greater id, which the file may spell, is never reached by doubling. -/
theorem load_terminates_iff {stateFile : Bytes} {file₀ : Option Bytes} {es : List StoreEvent}
    {p : Process} (hrun : Runs.run Process.step (Process.start stateFile file₀) es = some p)
    (fopenOk : Bool) (mem : ℕ → LoadMem) (file : Option Bytes) :
    loadStateChecked fopenOk mem p.store file ≠ .error .badPointer ∧
      ((∃ res, loadStateChecked fopenOk mem p.store file = .ok res) ↔
        ∀ text, OpensStateFile fopenOk p.store → file = some text →
          LinesInReach mem 0 (getlines text) p.store) := by
  have h := allocated_of_run hrun
  rw [loadStateChecked_eq h, ← loadStateChecked_isSome_iff h]
  cases tcpRpcsLoadSecretsState fopenOk mem p.store file with
  | none => exact ⟨by decide, iff_of_false nofun Bool.false_ne_true⟩
  | some res => exact ⟨nofun, iff_of_true ⟨res, rfl⟩ rfl⟩

/-- A line of the state file with a secret, an enabled flag, no times, and this id. -/
def idLine (id : Bytes) : Bytes :=
  tsvLine [extSecret16ToHex (Secret.fill 7), [49], [48], [48], [48], id, [48], [48], [48], [120]]

/-- The id `5` is in reach. -/
theorem load_terminates_start :
    ∃ res, loadStateChecked true (fun _ => ⟨true, true⟩) (ExtStore.init [115])
      (some (idLine [53])) = .ok res := by
  have hrun : Runs.run Process.step (Process.start [115] none) [] =
      some (Process.start [115] none) := rfl
  refine (load_terminates_iff hrun true (fun _ => ⟨true, true⟩) (some (idLine [53]))).2.mpr ?_
  rintro text - htext
  rw [← Option.some.inj htext]
  have hlines : getlines (idLine [53]) = [idLine [53]] := by decide +kernel
  have hentry : (lineEntry (idLine [53])).map (fun e => lineId e.1 e.2 (ExtStore.init [115]))
      = some 5 := by decide +kernel
  rw [hlines]
  refine ⟨fun l secret hline => ⟨fun _ => by decide, fun _ => ?_⟩, fun _ _ => trivial⟩
  rw [hline] at hentry
  have hid : lineId l secret (ExtStore.init [115]) = 5 := Option.some.inj hentry
  show lineId l secret (ExtStore.init [115]) < 2 ^ 30
  omega

/-- **The id `2^30` is never reached:** with such a line in the file a fresh process does not get
past the loader. -/
theorem not_load_terminates :
    ¬ ∀ text, ∃ res, loadStateChecked true (fun _ => ⟨true, true⟩) (ExtStore.init [115])
      (some text) = .ok res := by
  intro hall
  obtain ⟨res, hres⟩ := hall (idLine [49, 48, 55, 51, 55, 52, 49, 56, 50, 52])
  have hendless : loadStateChecked true (fun _ => ⟨true, true⟩) (ExtStore.init [115])
      (some (idLine [49, 48, 55, 51, 55, 52, 49, 56, 50, 52])) = .error .endless := by
    decide +kernel
  rw [hendless] at hres
  cases hres

end MtprotoProxy
