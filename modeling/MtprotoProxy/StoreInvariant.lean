/-
# The representation invariant of the secret store

`StoreInv` is what holds of the store between two operations, whatever bootstrap
additions, loads of state files and admin commands came before
(`storeInv_of_run`), as long as allocations succeed.

The operations are taken apart into a few kinds of change, each with its lemma: growing
an array (`StoreInv.reserve`, `StoreInv.metricsReserve`), writing fields of one entry
that are no keys (`StoreInv.modifyEntry`), appending an entry with the next id
(`StoreInv.append`), removal (`StoreInv.remove`).  The loader is the only place that
assigns ids out of order, and has its own lemmas (`StoreInv.loadExisting`,
`StoreInv.loadNew`).
-/
import MtprotoProxy.SecretAdmin
import MtprotoProxy.SecretLoad

namespace MtprotoProxy

open CLib

/-! ## The invariant -/

/-- What holds of one entry by itself. -/
structure EntryOk (E : ExtSecretEntry) : Prop where
  hex_eq : E.hex = extSecret16ToHex E.secret
  enabled01 : E.enabled = 0 ∨ E.enabled = 1
  label_fixed : extSanitizeLabel E.label = E.label
  ip_fixed : extSanitizeIp E.lastIp = E.lastIp
  lastSeen_nonneg : 0 ≤ E.lastSeenAt

/-- The representation invariant. -/
structure StoreInv (s : ExtStore) : Prop where
  secrets_nodup : (s.extSecrets.map (·.secret)).Nodup
  ids_nodup : (s.extSecrets.map (·.id)).Nodup
  entries_ok : ∀ E ∈ s.extSecrets, EntryOk E
  id_pos : ∀ E ∈ s.extSecrets, 0 < E.id
  id_lt_next : ∀ E ∈ s.extSecrets, E.id < s.extSecretNextId
  id_lt_cap : ∀ E ∈ s.extSecrets, E.id < s.extSecretMetricsCap
  next_pos : 1 ≤ s.extSecretNextId
  next_int : s.extSecretNextId < 2 ^ 31
  cap_int : s.extSecretMetricsCap < 2 ^ 31
  secretCap_nonneg : 0 ≤ s.extSecretCap

theorem storeInv_init (stateFile : Bytes) : StoreInv (ExtStore.init stateFile) where
  secrets_nodup := List.nodup_nil
  ids_nodup := List.nodup_nil
  entries_ok := by simp [ExtStore.init]
  id_pos := by simp [ExtStore.init]
  id_lt_next := by simp [ExtStore.init]
  id_lt_cap := by simp [ExtStore.init]
  next_pos := le_rfl
  next_int := by norm_num [ExtStore.init]
  cap_int := by norm_num [ExtStore.init, ExtStore.extSecretMetricsCap]
  secretCap_nonneg := le_rfl

theorem boolInt_eq (b : Bool) : boolInt b = 0 ∨ boolInt b = 1 := by
  cases b
  · exact Or.inl rfl
  · exact Or.inr rfl

/-! ## Growing the arrays -/

/-- The invariant looks at the entries, the id counter and the metrics capacity only,
and lets the capacity grow. -/
theorem StoreInv.of_eq {s s' : ExtStore} (h : StoreInv s)
    (hent : s'.extSecrets = s.extSecrets) (hnext : s'.extSecretNextId = s.extSecretNextId)
    (hcap : s.extSecretMetricsCap ≤ s'.extSecretMetricsCap)
    (hint : s'.extSecretMetricsCap < 2 ^ 31) (hsc : 0 ≤ s'.extSecretCap) : StoreInv s' where
  secrets_nodup := by rw [hent]; exact h.secrets_nodup
  ids_nodup := by rw [hent]; exact h.ids_nodup
  entries_ok := by rw [hent]; exact h.entries_ok
  id_pos := by rw [hent]; exact h.id_pos
  id_lt_next := by rw [hent, hnext]; exact h.id_lt_next
  id_lt_cap := by
    rw [hent]
    intro E hE
    exact lt_of_lt_of_le (h.id_lt_cap E hE) hcap
  next_pos := by rw [hnext]; exact h.next_pos
  next_int := by rw [hnext]; exact h.next_int
  cap_int := hint
  secretCap_nonneg := hsc

theorem StoreInv.reserve {ok : Bool} {want r : ℤ} {s s' : ExtStore} (h : StoreInv s)
    (hr : extReserveLocked ok want s = some (r, s')) : StoreInv s' := by
  rcases extReserveLocked_cases hr with ⟨-, cap, hcap, rfl⟩ | ⟨-, -, rfl⟩
  · exact h.of_eq rfl rfl le_rfl h.cap_int (h.secretCap_nonneg.trans hcap)
  · exact h

theorem StoreInv.metricsReserve {ok : Bool} {want r : ℤ} {s s' : ExtStore} (h : StoreInv s)
    (hr : extMetricsReserveLocked ok want s = some (r, s')) : StoreInv s' := by
  have hint := cap_int_of_metricsReserve h.cap_int hr
  rcases extMetricsReserveLocked_cases hr with ⟨-, -, n, rfl⟩ | ⟨-, -, -, rfl⟩
  · refine h.of_eq rfl rfl ?_ hint h.secretCap_nonneg
    simp [ExtStore.extSecretMetricsCap]
  · exact h

/-! ## Changes to the entries -/

variable {s : ExtStore}

/-- Writing fields of one entry that are no keys. -/
theorem StoreInv.modifyEntry (h : StoreInv s) (idx : ℕ)
    {f : ExtSecretEntry → ExtSecretEntry} (hsecret : ∀ E, (f E).secret = E.secret)
    (hid : ∀ E, (f E).id = E.id) (hok : ∀ E, EntryOk E → EntryOk (f E)) :
    StoreInv (s.modifyEntry idx f) := by
  have hold : ∀ E, s.extSecrets[idx]? = some E → E ∈ s.extSecrets :=
    fun E hE => List.mem_of_getElem? hE
  refine ⟨?_, ?_, ?_, ?_, ?_, ?_, h.next_pos, h.next_int, h.cap_int, h.secretCap_nonneg⟩
  · show ((s.extSecrets.modify idx f).map (·.secret)).Nodup
    rw [map_modify_of_key_eq hsecret]
    exact h.secrets_nodup
  · show ((s.extSecrets.modify idx f).map (·.id)).Nodup
    rw [map_modify_of_key_eq hid]
    exact h.ids_nodup
  · exact forall_mem_modify h.entries_ok (fun E hE => hok E (h.entries_ok E (hold E hE)))
  · refine forall_mem_modify h.id_pos (fun E hE => ?_)
    rw [hid]
    exact h.id_pos E (hold E hE)
  · refine forall_mem_modify h.id_lt_next (fun E hE => ?_)
    rw [hid]
    exact h.id_lt_next E (hold E hE)
  · refine forall_mem_modify h.id_lt_cap (fun E hE => ?_)
    rw [hid]
    exact h.id_lt_cap E (hold E hE)

/-- The same change to all entries (`ext_cmd_disable_expired`). -/
theorem StoreInv.map (h : StoreInv s) {f : ExtSecretEntry → ExtSecretEntry}
    (hsecret : ∀ E, (f E).secret = E.secret) (hid : ∀ E, (f E).id = E.id)
    (hok : ∀ E, EntryOk E → EntryOk (f E)) :
    StoreInv { s with extSecrets := s.extSecrets.map f } := by
  refine ⟨?_, ?_, ?_, ?_, ?_, ?_, h.next_pos, h.next_int, h.cap_int, h.secretCap_nonneg⟩
  · have hkeys : (s.extSecrets.map f).map (·.secret) = s.extSecrets.map (·.secret) := by
      rw [List.map_map]
      exact List.map_congr_left (fun E _ => hsecret E)
    show ((s.extSecrets.map f).map (·.secret)).Nodup
    rw [hkeys]
    exact h.secrets_nodup
  · have hkeys : (s.extSecrets.map f).map (·.id) = s.extSecrets.map (·.id) := by
      rw [List.map_map]
      exact List.map_congr_left (fun E _ => hid E)
    show ((s.extSecrets.map f).map (·.id)).Nodup
    rw [hkeys]
    exact h.ids_nodup
  · exact List.forall_mem_map.mpr (fun E hE => hok E (h.entries_ok E hE))
  · exact List.forall_mem_map.mpr (fun E hE => by rw [hid]; exact h.id_pos E hE)
  · exact List.forall_mem_map.mpr (fun E hE => by rw [hid]; exact h.id_lt_next E hE)
  · exact List.forall_mem_map.mpr (fun E hE => by rw [hid]; exact h.id_lt_cap E hE)

/-- Removal of one entry. -/
theorem StoreInv.remove (h : StoreInv s) {idx : ℕ}
    (hidx : idx < s.extSecrets.length) :
    StoreInv { s with extSecrets := swapRemove s.extSecrets idx } where
  secrets_nodup := nodup_map_swapRemove hidx h.secrets_nodup
  ids_nodup := nodup_map_swapRemove hidx h.ids_nodup
  entries_ok := fun E hE => h.entries_ok E (mem_of_mem_swapRemove hidx hE)
  id_pos := fun E hE => h.id_pos E (mem_of_mem_swapRemove hidx hE)
  id_lt_next := fun E hE => h.id_lt_next E (mem_of_mem_swapRemove hidx hE)
  id_lt_cap := fun E hE => h.id_lt_cap E (mem_of_mem_swapRemove hidx hE)
  next_pos := h.next_pos
  next_int := h.next_int
  cap_int := h.cap_int
  secretCap_nonneg := h.secretCap_nonneg

/-- Incrementing the id counter is exact while the counter is below the capacity. -/
theorem wrap32_next {n cap : ℤ} (hn : 1 ≤ n) (hlt : n < cap) (hcap : cap < 2 ^ 31) :
    wrap32 (n + 1) = n + 1 :=
  wrap32_of_isInt32 ⟨by omega, by omega⟩

variable {E : ExtSecretEntry}

/-- An entry with a new secret and the next id, and the counter moved past it. -/
theorem StoreInv.append (h : StoreInv s) (hE : EntryOk E)
    (hnew : ∀ F ∈ s.extSecrets, F.secret ≠ E.secret) (hid : E.id = s.extSecretNextId)
    (hroom : s.extSecretNextId < s.extSecretMetricsCap) :
    StoreInv ({ s with extSecrets := s.extSecrets ++ [E] } : ExtStore).bumpNextId := by
  have hnext := wrap32_next h.next_pos hroom h.cap_int
  have hcap := h.cap_int
  refine ⟨?_, ?_, ?_, ?_, ?_, ?_, ?_, ?_, h.cap_int, h.secretCap_nonneg⟩
  · exact nodup_map_concat h.secrets_nodup hnew
  · refine nodup_map_concat h.ids_nodup (fun F hF => ?_)
    have := h.id_lt_next F hF
    omega
  · exact List.forall_mem_append.mpr ⟨h.entries_ok, List.forall_mem_singleton.mpr hE⟩
  · refine List.forall_mem_append.mpr ⟨h.id_pos, List.forall_mem_singleton.mpr ?_⟩
    rw [hid]
    exact h.next_pos
  · show ∀ F ∈ s.extSecrets ++ [E], F.id < wrap32 (s.extSecretNextId + 1)
    rw [hnext]
    refine List.forall_mem_append.mpr ⟨fun F hF => ?_, List.forall_mem_singleton.mpr ?_⟩
    · have := h.id_lt_next F hF
      omega
    · omega
  · refine List.forall_mem_append.mpr ⟨h.id_lt_cap, List.forall_mem_singleton.mpr ?_⟩
    rw [hid]
    exact hroom
  · show 1 ≤ wrap32 (s.extSecretNextId + 1)
    have := h.next_pos
    omega
  · show wrap32 (s.extSecretNextId + 1) < 2 ^ 31
    omega

/-! ## The admin operations -/

/-- With a positive id nothing is left for `ext_add_locked` to repair. -/
theorem extEnsureId_of_pos {env : OpEnv} {idx : ℕ} (h : 0 < s.idAt idx) :
    extEnsureId env idx s = some (0, s) := if_pos h

theorem StoreInv.idAt_pos (h : StoreInv s) {idx : ℕ}
    (hidx : idx < s.extSecrets.length) : 0 < s.idAt idx := by
  unfold ExtStore.idAt
  rw [List.getElem?_eq_getElem hidx]
  exact h.id_pos _ (List.getElem_mem hidx)

theorem entryOk_newEntry (now : Int64) (secret : Secret) (label : Bytes) (expiresAt : Int64)
    (enabled id : ℤ) : EntryOk (newEntry now secret label expiresAt enabled id) where
  hex_eq := rfl
  enabled01 := boolInt_eq _
  label_fixed := extSanitizeLabel_idem label
  ip_fixed := rfl
  lastSeen_nonneg := Int64.le_refl 0

theorem entryOk_refreshEntry (h : EntryOk E) (now : Int64) (label : Bytes)
    (expiresAt : Int64) (enabled : ℤ) :
    EntryOk (refreshEntry now label expiresAt enabled E) where
  hex_eq := h.hex_eq
  enabled01 := boolInt_eq _
  label_fixed := by
    show extSanitizeLabel (if _ then _ else _) = if _ then _ else _
    split
    · exact extSanitizeLabel_idem label
    · exact h.label_fixed
  ip_fixed := h.ip_fixed
  lastSeen_nonneg := h.lastSeen_nonneg

/-- `ext_add_locked` keeps the invariant. -/
theorem StoreInv.add {env : OpEnv} {secret : Secret}
    {label : Bytes} {expiresAt : Int64} {enabled : ℤ} {failIfExists persist : Bool}
    {file : Option Bytes} {res : OpResult} (h : StoreInv s)
    (hres : extAddLocked env secret label expiresAt enabled failIfExists persist s file
      = some res) : StoreInv res.store := by
  unfold extAddLocked at hres
  split at hres
  · rename_i idx hidx
    obtain ⟨hlt, -⟩ := extFindIdxLocked_eq_some hidx
    rw [extEnsureId_of_pos (h.idAt_pos hlt)] at hres
    dsimp only at hres
    rw [if_neg (lt_irrefl _)] at hres
    split at hres
    · cases hres
      exact h
    · cases hres
      rw [finish_store]
      exact h.modifyEntry idx (fun _ => rfl) (fun _ => rfl)
        (fun E hE => entryOk_refreshEntry hE _ _ _ _)
  · rename_i hidx
    have hnew := extFindIdxLocked_eq_none hidx
    unfold extAddNew at hres
    split at hres
    · exact absurd hres (by simp)
    · rename_i r₁ s₁ hr₁
      have h₁ : StoreInv s₁ := h.reserve hr₁
      have hent₁ : s₁.extSecrets = s.extSecrets := by
        rcases extReserveLocked_cases hr₁ with ⟨-, cap, -, rfl⟩ | ⟨-, -, rfl⟩ <;> rfl
      split at hres
      · cases hres
        exact h₁
      · split at hres
        · exact absurd hres (by simp)
        · rename_i r₂ s₂ hr₂
          have h₂ : StoreInv s₂ := h₁.metricsReserve hr₂
          split at hres
          · cases hres
            exact h₂
          rename_i hok
          rcases extMetricsReserveLocked_cases hr₂ with ⟨-, hroom, n, hs₂⟩ | ⟨hneg, -, -, -⟩
          · cases hres
            rw [finish_store]
            refine h₂.append (entryOk_newEntry _ _ _ _ _ _) ?_ rfl ?_
            · intro F hF
              rw [hs₂] at hF
              exact hnew F (hent₁ ▸ hF)
            · rw [hs₂] at hroom ⊢
              exact hroom
          · exact absurd (by rw [hneg]; decide) hok

/-- A command on one entry keeps the invariant when its change does. -/
theorem StoreInv.onEntry {env : OpEnv} {hex : Bytes} {change : ℕ → ExtStore → ExtStore}
    {file : Option Bytes} (h : StoreInv s)
    (hchange : ∀ idx, idx < s.extSecrets.length → StoreInv (change idx s)) :
    StoreInv (extCmdOnEntry env hex change s file).store := by
  rcases extCmdOnEntry_cases env hex change s file with heq | ⟨secret, idx, -, hidx, heq⟩
  · rw [heq]
    exact h
  · obtain ⟨hlt, -⟩ := extFindIdxLocked_eq_some hidx
    rw [heq, finish_store]
    exact hchange idx hlt

theorem entryOk_setEnabledEntry (h : EntryOk E) (now : Int64)
    (enabled : ℤ) : EntryOk (setEnabledEntry now enabled E) where
  hex_eq := h.hex_eq
  enabled01 := boolInt_eq _
  label_fixed := h.label_fixed
  ip_fixed := h.ip_fixed
  lastSeen_nonneg := h.lastSeen_nonneg

theorem entryOk_updateEntry (h : EntryOk E) (now : Int64)
    (label : Option Bytes) (expiresAt : Option Int64) (enabled : Option ℤ) :
    EntryOk (updateEntry now label expiresAt enabled E) where
  hex_eq := h.hex_eq
  enabled01 := by
    cases enabled with
    | none => exact h.enabled01
    | some x => exact boolInt_eq _
  label_fixed := by
    cases label with
    | none => exact h.label_fixed
    | some l => exact extSanitizeLabel_idem l
  ip_fixed := h.ip_fixed
  lastSeen_nonneg := h.lastSeen_nonneg

theorem disableEntry_keys (now : Int64) (E : ExtSecretEntry) :
    (disableEntry now E).secret = E.secret ∧ (disableEntry now E).id = E.id := by
  unfold disableEntry
  split <;> exact ⟨rfl, rfl⟩

theorem entryOk_disableEntry (h : EntryOk E) (now : Int64) :
    EntryOk (disableEntry now E) := by
  unfold disableEntry
  split
  · exact ⟨h.hex_eq, Or.inl rfl, h.label_fixed, h.ip_fixed, h.lastSeen_nonneg⟩
  · exact h

/-- **Every admin command keeps the invariant**, whether it succeeds or not. -/
theorem StoreInv.run {env : OpEnv} {op : AdminOp}
    {file : Option Bytes} {res : OpResult} (h : StoreInv s)
    (hres : op.run env s file = some res) : StoreInv res.store := by
  cases op with
  | add hex label expiresAt enabled =>
    unfold AdminOp.run extCmdAdd at hres
    dsimp only at hres
    split at hres
    · cases hres
      exact h
    · exact h.add hres
  | remove hex =>
    cases hres
    exact h.onEntry (fun idx hlt => h.remove hlt)
  | setEnabled hex enabled =>
    cases hres
    exact h.onEntry (fun idx _ => h.modifyEntry idx (fun _ => rfl) (fun _ => rfl)
      (fun E hE => entryOk_setEnabledEntry hE _ _))
  | update hex label expiresAt enabled =>
    cases hres
    exact h.onEntry (fun idx _ => h.modifyEntry idx (fun _ => rfl) (fun _ => rfl)
      (fun E hE => entryOk_updateEntry hE _ _ _ _))
  | disableExpired now =>
    cases hres
    unfold extCmdDisableExpired
    rw [finish_store]
    exact h.map (fun E => (disableEntry_keys _ E).1) (fun E => (disableEntry_keys _ E).2)
      (fun E hE => entryOk_disableEntry hE _)

/-! ## The loader -/

/-- An id that survives the search is the parsed one, and no other entry has it. -/
theorem freeParsedId_pos {idx : Option ℕ} {parsedId : ℤ}
    (h : 0 < freeParsedId s idx parsedId) :
    ∀ (j : ℕ) (F : ExtSecretEntry), s.extSecrets[j]? = some F → some j ≠ idx →
      F.id ≠ freeParsedId s idx parsedId := by
  unfold freeParsedId at h ⊢
  split at h
  · exact absurd h (lt_irrefl 0)
  · rename_i hany
    intro j F hF hj heq
    rw [if_neg hany] at heq
    apply hany
    rw [Bool.and_eq_true, decide_eq_true_eq, List.any_eq_true]
    refine ⟨h, (F, j), List.mem_zipIdx_iff_getElem?.mpr hF, ?_⟩
    simp [hj, heq]

theorem entryOk_fillEntry (h : EntryOk E) (l : LoadedLine) (id : ℤ) :
    EntryOk (fillEntry l id E) where
  hex_eq := h.hex_eq
  enabled01 := boolInt_eq _
  label_fixed := extSanitizeLabel_idem l.label
  ip_fixed := by
    show extSanitizeIp (if _ then _ else _) = if _ then _ else _
    split
    · exact extSanitizeIp_idem l.lastIp
    · exact h.ip_fixed
  lastSeen_nonneg := by
    show 0 ≤ if 0 < l.lastSeenAt then l.lastSeenAt else E.lastSeenAt
    split
    · rename_i hpos
      exact Int64.le_of_lt hpos
    · exact h.lastSeen_nonneg

theorem entryOk_blankEntry (secret : Secret) : EntryOk (blankEntry secret) where
  hex_eq := rfl
  enabled01 := Or.inl rfl
  label_fixed := rfl
  ip_fixed := rfl
  lastSeen_nonneg := Int64.le_refl 0

/-- What the spec of a line leaves to show for the invariant: distinct keys, good
entries, and no id that is neither an old one nor the one just taken. -/
theorem StoreInv.lineLoaded {l : LoadedLine} {id next : ℤ} {entries : List ExtSecretEntry}
    {s s' : ExtStore} (h : StoreInv s) (hl : LineLoaded l id next entries s s') (hid : 0 < id)
    (hnext : s.extSecretNextId ≤ next ∧ next < 2 ^ 31)
    (hsecrets : (entries.map (·.secret)).Nodup) (hids : (entries.map (·.id)).Nodup)
    (hok : ∀ E ∈ entries, EntryOk E)
    (hold : ∀ E ∈ entries, E.id = id ∨ ∃ F ∈ s.extSecrets, F.id = E.id) : StoreInv s' := by
  have hcap := hl.cap_int h.cap_int
  have hroom := hl.id_lt_cap
  have hwrap : wrap32 (id + 1) = id + 1 := wrap32_of_isInt32 ⟨by omega, by omega⟩
  have hnext' : s'.extSecretNextId = max next (id + 1) := by
    rw [hl.next_eq, hwrap]
    split <;> omega
  have hpos := h.next_pos
  have hent : ∀ E ∈ entries, 0 < E.id ∧ E.id < s'.extSecretNextId ∧
      E.id < s'.extSecretMetricsCap := by
    intro E hE
    rcases hold E hE with heq | ⟨F, hF, heq⟩
    · omega
    · have h1 := h.id_pos F hF
      have h2 := h.id_lt_next F hF
      have h3 := h.id_lt_cap F hF
      have h4 := hl.cap_le
      omega
  have hE := hl.entries_eq
  refine ⟨?_, ?_, ?_, ?_, ?_, ?_, by omega, by omega, hcap, ?_⟩
  · rw [hE]
    exact hsecrets
  · rw [hE]
    exact hids
  · rw [hE]
    exact hok
  · rw [hE]
    exact fun E hmem => (hent E hmem).1
  · rw [hE]
    exact fun E hmem => (hent E hmem).2.1
  · rw [hE]
    exact fun E hmem => (hent E hmem).2.2
  · exact h.secretCap_nonneg.trans hl.secretCap_le

/-- The id a line gives to a known entry: positive, and not the id of another entry. -/
theorem StoreInv.takeId_existing (h : StoreInv s) (parsedId : ℤ) {idx : ℕ}
    (hE : s.extSecrets[idx]? = some E) :
    ∃ id, takeId (freeParsedId s (some idx) parsedId) E.id s = (id, s) ∧ 0 < id ∧
      ∀ (j : ℕ) (F : ExtSecretEntry), s.extSecrets[j]? = some F → j ≠ idx → F.id ≠ id := by
  have hpos := h.id_pos E (List.mem_of_getElem? hE)
  unfold takeId
  by_cases hp : 0 < freeParsedId s (some idx) parsedId
  · refine ⟨_, if_pos hp, hp, fun j F hF hj => freeParsedId_pos hp j F hF ?_⟩
    simpa using hj
  · rw [if_neg hp, if_neg (not_le.mpr hpos)]
    refine ⟨E.id, rfl, hpos, fun j F hF hj hkey => hj ?_⟩
    exact index_eq_of_key_eq h.ids_nodup hF hE hkey

/-- The id a line gives to a new entry: positive, and not the id of an entry; it is
parsed, or the next one. -/
theorem StoreInv.takeId_new (h : StoreInv s) (parsedId : ℤ) :
    ∃ id t, takeId (freeParsedId s none parsedId) 0 s = (id, t) ∧ 0 < id ∧
      (∀ F ∈ s.extSecrets, F.id ≠ id) ∧
      (t = s ∨ (id = s.extSecretNextId ∧ t = s.bumpNextId)) := by
  rw [MtprotoProxy.takeId_new]
  by_cases hp : 0 < freeParsedId s none parsedId
  · refine ⟨_, s, if_pos hp, hp, fun F hF => ?_, Or.inl rfl⟩
    obtain ⟨j, hj, rfl⟩ := List.mem_iff_getElem.mp hF
    exact freeParsedId_pos hp j _ (List.getElem?_eq_getElem hj) (by simp)
  · refine ⟨s.extSecretNextId, s.bumpNextId, if_neg hp, ?_, fun F hF => ?_, Or.inr ⟨rfl, rfl⟩⟩
    · have := h.next_pos
      omega
    · have := h.id_lt_next F hF
      omega

/-- A line for a known secret keeps the invariant. -/
theorem StoreInv.loadExisting {mem : LoadMem} (hcalloc : mem.callocOk = true) {l : LoadedLine}
    {idx : ℕ} {st : LoadStep} (h : StoreInv s)
    (hE : s.extSecrets[idx]? = some E) (hres : loadExisting mem l idx E s = some st) :
    StoreInv st.store := by
  obtain ⟨id, htake, hid, hother⟩ := h.takeId_existing l.parsedId hE
  obtain ⟨s', rfl, hl⟩ := loadExisting_spec hcalloc hid htake hres
  have hkey : ∀ F : ExtSecretEntry, (fillEntry l id F).secret = F.secret := fun _ => rfl
  refine h.lineLoaded hl hid ⟨le_rfl, h.next_int⟩ ?_ ?_ ?_ ?_
  · rw [map_modify_of_key_eq hkey]
    exact h.secrets_nodup
  · exact nodup_map_modify h.ids_nodup hE hother
  · exact forall_mem_modify h.entries_ok (fun F hF =>
      entryOk_fillEntry (h.entries_ok F (List.mem_of_getElem? hF)) l id)
  · exact forall_mem_modify (fun F hF => Or.inr ⟨F, hF, rfl⟩) (fun _ _ => Or.inl rfl)

/-- A line for a new secret keeps the invariant. -/
theorem StoreInv.loadNew {mem : LoadMem} (hmem : mem.reallocOk = true ∧ mem.callocOk = true)
    {l : LoadedLine} {secret : Secret} {st : LoadStep} (h : StoreInv s)
    (hnew : ∀ F ∈ s.extSecrets, F.secret ≠ secret)
    (hres : loadNew mem l secret s = some st) : StoreInv st.store := by
  obtain ⟨id, t, htake, hid, hother, ht⟩ := h.takeId_new l.parsedId
  obtain ⟨s', rfl, hl⟩ := loadNew_spec hmem hid htake hres
  have hnext : s.extSecretNextId ≤ t.extSecretNextId ∧ t.extSecretNextId < 2 ^ 31 := by
    rcases ht with rfl | ⟨heq, rfl⟩
    · exact ⟨le_rfl, h.next_int⟩
    · -- the next id is below the capacity, so it does not wrap
      have hroom := hl.id_lt_cap
      have hcap := hl.cap_int h.cap_int
      have hint := h.next_int
      show _ ≤ wrap32 (s.extSecretNextId + 1) ∧ wrap32 (s.extSecretNextId + 1) < _
      rw [wrap32_next h.next_pos (heq ▸ hroom) hcap]
      omega
  refine h.lineLoaded hl hid hnext ?_ ?_ ?_ ?_
  · exact nodup_map_concat h.secrets_nodup hnew
  · exact nodup_map_concat h.ids_nodup hother
  · exact List.forall_mem_append.mpr ⟨h.entries_ok, List.forall_mem_singleton.mpr
      (entryOk_fillEntry (entryOk_blankEntry secret) l id)⟩
  · exact List.forall_mem_append.mpr ⟨fun F hF => Or.inr ⟨F, hF, rfl⟩,
      List.forall_mem_singleton.mpr (Or.inl rfl)⟩

/-- A header line moves the id counter upwards, to an `int`. -/
theorem StoreInv.loadHeaderLine (h : StoreInv s) (line : Bytes) :
    StoreInv (loadHeaderLine line s) := by
  unfold MtprotoProxy.loadHeaderLine
  split
  · exact h
  · rename_i nextId _
    split
    · rename_i hlt
      refine ⟨h.secrets_nodup, h.ids_nodup, h.entries_ok, h.id_pos, fun E hE => ?_, h.id_lt_cap,
        ?_, (isInt32_atoi nextId).2, h.cap_int, h.secretCap_nonneg⟩
      · exact (h.id_lt_next E hE).trans hlt
      · exact h.next_pos.trans hlt.le
    · exact h

/-- **One line of the state file keeps the invariant**, whatever the line is. -/
theorem StoreInv.loadLine {mem : LoadMem} (hmem : mem.reallocOk = true ∧ mem.callocOk = true)
    {line : Bytes}
    {st : LoadStep} (h : StoreInv s) (hres : loadLine mem line s = some st) :
    StoreInv st.store := by
  unfold MtprotoProxy.loadLine at hres
  split at hres
  · cases hres
    exact h
  split at hres
  · cases hres
    exact h.loadHeaderLine line
  split at hres
  · cases hres
    exact h
  unfold loadEntryLine at hres
  split at hres
  · cases hres
    exact h
  split at hres
  · cases hres
    exact h
  unfold loadSecretLine at hres
  split at hres
  · rename_i hidx
    exact h.loadNew hmem (extFindIdxLocked_eq_none hidx) hres
  · split at hres
    · cases hres
      exact h
    · rename_i hE
      exact h.loadExisting hmem.2 hE hres

/-- All lines, by induction on them. -/
theorem StoreInv.loadLines {mem : ℕ → LoadMem}
    (hmem : ∀ i, (mem i).reallocOk = true ∧ (mem i).callocOk = true) :
    ∀ {lines : List Bytes} {i : ℕ} {s s' : ExtStore}, StoreInv s →
      loadLines mem i lines s = some s' → StoreInv s' := by
  intro lines
  induction lines with
  | nil =>
    intro i s s' h hres
    cases hres
    exact h
  | cons line lines ih =>
    intro i s s' h hres
    rw [MtprotoProxy.loadLines] at hres
    split at hres
    · exact absurd hres (by simp)
    · rename_i t hline
      cases hres
      exact h.loadLine (hmem i) hline
    · rename_i t hline
      exact ih (h.loadLine (hmem i) hline) hres

/-- **A load keeps the invariant**, for every file. -/
theorem StoreInv.load {fopenOk : Bool} {mem : ℕ → LoadMem}
    (hmem : ∀ i, (mem i).reallocOk = true ∧ (mem i).callocOk = true)
    {file : Option Bytes} {s s' : ExtStore} {r : ℤ} (h : StoreInv s)
    (hres : tcpRpcsLoadSecretsState fopenOk mem s file = some (r, s')) : StoreInv s' := by
  unfold tcpRpcsLoadSecretsState at hres
  split at hres
  · cases hres
    exact h
  split at hres
  · cases hres
    exact h
  split at hres
  · cases hres
    exact h
  · rename_i text _ _
    obtain ⟨t, ht, heq⟩ := Option.map_eq_some_iff.mp hres
    cases heq
    have h' : StoreInv t := h.loadLines hmem ht
    unfold finishLoad
    have hnext : (if t.extSecretNextId < 1 then 1 else t.extSecretNextId) = t.extSecretNextId :=
      if_neg (not_lt.mpr h'.next_pos)
    exact h'.of_eq rfl hnext le_rfl h'.cap_int h'.secretCap_nonneg

end MtprotoProxy
