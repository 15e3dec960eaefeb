/-
# What a failure leaves behind

Two promises about failures, each with the exact condition under which the code keeps it.

* The state file is persisted atomically: complete after success, untouched after a
  failure.  `ext_persist_locked` does not look at the results of `fprintf`, `fflush`,
  `fsync` and `fclose`, so it keeps the promise only when these cannot hurt
  (`persistIsAtomic_iff`).
* An admin command that returns a negative code leaves the list of secrets as it was.
  The commands change the list before they persist and do not take the change back when
  persisting fails; only `ext_add_locked` rolls back, and only after a failed
  allocation (`unchangedOnFailure_iff`).
-/
import MtprotoProxy.SecretAdmin

namespace MtprotoProxy

open CLib

/-! ## The state file -/

/-- Some library call of a run fails: one before the first `fprintf`, a write of the
serialization, or one of the four calls at the end. -/
def PersistIo.AnyCallFails (io : PersistIo) (s : ExtStore) : Prop :=
  io.SetupFails s ∨ (∃ i < (persistTexts s).length, io.fprintf i ≠ .ok) ∨
    io.fflush ≠ .ok ∨ io.fsync = false ∨ io.fclose ≠ .ok ∨ io.rename = false

/-- The promise for one run: after `0` the state file is the complete serialization,
and after a failing call it is what it was. -/
def PersistIsAtomic (io : PersistIo) (s : ExtStore) (file : Option Bytes) : Prop :=
  s.extSecretStateFile ≠ [] →
    ((extPersistLocked io s file).1 = 0 → (extPersistLocked io s file).2 = some (serialize s)) ∧
      (io.AnyCallFails s → (extPersistLocked io s file).2 = file)

/-- When the promise is kept: nothing is configured, a checked call fails, no call
fails, or the failures lost nothing and the file was up to date already. -/
def PersistIo.Harmless (io : PersistIo) (s : ExtStore) (file : Option Bytes) : Prop :=
  s.extSecretStateFile = [] ∨ io.Fails s ∨ ¬ io.AnyCallFails s ∨
    (io.LosesNothing s ∧ file = some (serialize s))

/-- Writes that succeed keep everything. -/
theorem fprintfKeeps_of_ok (io : PersistIo) :
    ∀ (texts : List Bytes) (i : ℕ), (∀ j < texts.length, io.fprintf (i + j) = .ok) →
      FprintfKeeps io i texts := by
  intro texts
  induction texts with
  | nil => intro i _; trivial
  | cons text texts ih =>
    intro i h
    refine ⟨?_, ih (i + 1) (fun j hj => ?_)⟩
    · have h0 := h 0 (by simp)
      rw [Nat.add_zero] at h0
      rw [h0]
      rfl
    · rw [Nat.add_assoc, Nat.add_comm 1 j]
      exact h (j + 1) (by simpa using hj)

theorem losesNothing_of_not_anyCallFails {io : PersistIo} {s : ExtStore}
    (h : ¬ io.AnyCallFails s) : io.LosesNothing s := by
  unfold PersistIo.AnyCallFails at h
  push Not at h
  obtain ⟨-, hprint, -, -, hclose, -⟩ := h
  refine ⟨fprintfKeeps_of_ok io _ 0 (fun j hj => ?_), ?_⟩
  · rw [Nat.zero_add]
    exact hprint j hj
  · rw [hclose]
    rfl

/-- A checked call that fails is a call that fails. -/
theorem anyCallFails_of_fails {io : PersistIo} {s : ExtStore} (h : io.Fails s) :
    io.AnyCallFails s := by
  rcases h.2 with hsetup | hrename
  · exact Or.inl hsetup
  · exact Or.inr (Or.inr (Or.inr (Or.inr (Or.inr hrename))))

/-- **Persisting is atomic exactly when its failures are harmless.** -/
theorem persistIsAtomic_iff (io : PersistIo) (s : ExtStore) (file : Option Bytes) :
    PersistIsAtomic io s file ↔ io.Harmless s file := by
  unfold PersistIsAtomic PersistIo.Harmless
  rcases extPersistLocked_cases io s file with ⟨hpath, -⟩ | ⟨hfails, heq⟩ | ⟨hpath, hnf, heq⟩
  · simp [hpath]
  · -- a checked call failed: the temporary file is unlinked, the state file stays
    rw [heq]
    constructor
    · intro _
      exact Or.inr (Or.inl hfails)
    · intro _ _
      exact ⟨fun h => absurd h (show (-1 : ℤ) ≠ 0 by decide), fun _ => rfl⟩
  · -- the temporary file took the place of the state file
    rw [heq]
    constructor
    · intro h
      obtain ⟨hfull, hsame⟩ := h hpath
      have htmp : tmpContents io s = serialize s := Option.some.inj (hfull rfl)
      by_cases hany : io.AnyCallFails s
      · refine Or.inr (Or.inr (Or.inr ⟨?_, ?_⟩))
        · exact (tmpContents_eq_serialize_iff io s).mp htmp
        · rw [← htmp]
          exact (hsame hany).symm
      · exact Or.inr (Or.inr (Or.inl hany))
    · intro h _
      rcases h with h | h | h | ⟨hlose, hfile⟩
      · exact absurd h hpath
      · exact absurd h hnf
      · have hfull := (tmpContents_eq_serialize_iff io s).mpr (losesNothing_of_not_anyCallFails h)
        exact ⟨fun _ => congrArg some hfull, fun hany => absurd hany h⟩
      · have hfull := (tmpContents_eq_serialize_iff io s).mpr hlose
        exact ⟨fun _ => congrArg some hfull, fun _ => by rw [hfile, hfull]⟩

/-- A full disk: no byte of an `fprintf` is kept, and nothing else fails. -/
def PersistIo.fullDisk : PersistIo := { PersistIo.allOk with fprintf := fun _ => .fail 0 }

/-- With a full disk the run returns `0` and leaves an empty state file. -/
theorem not_persistIsAtomic_fullDisk :
    ¬ PersistIsAtomic PersistIo.fullDisk (ExtStore.init [115]) (some [118, 51, 10]) := by
  intro h
  have hempty : extPersistLocked PersistIo.fullDisk (ExtStore.init [115]) (some [118, 51, 10])
      = (0, some []) := rfl
  obtain ⟨hfull, -⟩ := h (by decide)
  rw [hempty] at hfull
  have hnil : serialize (ExtStore.init [115]) = [] := (Option.some.inj (hfull rfl)).symm
  unfold serialize persistTexts tsvLine at hnil
  simp at hnil

/-! ## The commands -/

/-- The promise for one command: after a negative code the list of secrets is what it
was. -/
def UnchangedOnFailure (s : ExtStore) (res : OpResult) : Prop :=
  res.ret < 0 → res.store.extSecrets = s.extSecrets

/-- When a command on one entry keeps the promise: its secret is not spelled correctly
or not found, persisting succeeds, or the change `f` is none. -/
def EntryCommandClean (env : OpEnv) (hex : Bytes) (f : ExtSecretEntry → ExtSecretEntry)
    (s : ExtStore) : Prop :=
  ∀ secret idx, extSecret16FromHex hex = some secret → extFindIdxLocked s secret = some idx →
    ¬ env.io.Fails s ∨ ∀ E, s.extSecrets[idx]? = some E → f E = E

/-- When an addition keeps the promise: the entry that is there has an id or cannot get
a different one; a new entry can be persisted, or an allocation for it fails. -/
def AddClean (env : OpEnv) (hex : Bytes) (s : ExtStore) : Prop :=
  ∀ secret, extSecret16FromHex hex = some secret →
    match extFindIdxLocked s secret with
    | some idx =>
      0 < s.idAt idx ∨ s.idAt idx = s.extSecretNextId ∨
        (env.callocOk = false ∧ s.extSecretMetricsCap ≤ s.extSecretNextId)
    | none =>
      ¬ env.io.Fails s ∨ (env.reallocOk = false ∧ s.extSecretCap < s.extSecretCnt + 1) ∨
        (env.callocOk = false ∧ s.extSecretMetricsCap ≤ s.extSecretNextId)

/-- When a command keeps the promise. -/
def FailsCleanly (env : OpEnv) (s : ExtStore) : AdminOp → Prop
  | .add hex _ _ _ => AddClean env hex s
  | .remove hex =>
    ∀ secret idx, extSecret16FromHex hex = some secret → extFindIdxLocked s secret = some idx →
      ¬ env.io.Fails s
  | .setEnabled hex enabled => EntryCommandClean env hex (setEnabledEntry env.now.val enabled) s
  | .update hex label expiresAt enabled =>
    EntryCommandClean env hex (updateEntry env.now.val label expiresAt enabled) s
  | .disableExpired now =>
    ¬ env.io.Fails s ∨
      ∀ E ∈ s.extSecrets, isExpired (if now ≤ 0 then env.now.val else now) E = false

/-- A change that ends in `ext_persist_locked` keeps the promise exactly when persisting
succeeds or nothing changed. -/
theorem unchangedOnFailure_finish (env : OpEnv) (s t : ExtStore) (file : Option Bytes)
    (hfile : t.extSecretStateFile = s.extSecretStateFile) :
    UnchangedOnFailure s (finish env true t file) ↔
      ¬ env.io.Fails s ∨ t.extSecrets = s.extSecrets := by
  unfold UnchangedOnFailure
  rw [finish_store, finish_ret_neg_iff, env.io.fails_congr hfile]
  tauto

/-- A command on one entry: only its last step can fail after the change. -/
theorem unchangedOnFailure_onEntry (env : OpEnv) (hex : Bytes)
    (change : ℕ → ExtStore → ExtStore) (s : ExtStore) (file : Option Bytes)
    (hfile : ∀ idx, (change idx s).extSecretStateFile = s.extSecretStateFile) :
    UnchangedOnFailure s (extCmdOnEntry env hex change s file) ↔
      ∀ secret idx, extSecret16FromHex hex = some secret →
        extFindIdxLocked s secret = some idx →
        ¬ env.io.Fails s ∨ (change idx s).extSecrets = s.extSecrets := by
  unfold extCmdOnEntry
  cases hhex : extSecret16FromHex hex with
  | none => exact iff_of_true (fun _ => rfl) (fun _ _ h => absurd h (by simp))
  | some secret =>
    dsimp only
    cases hidx : extFindIdxLocked s secret with
    | none =>
      refine iff_of_true (fun _ => rfl) (fun secret' idx' h h' => ?_)
      rw [← Option.some.inj h, hidx] at h'
      exact absurd h' (by simp)
    | some idx =>
      dsimp only
      rw [unchangedOnFailure_finish env s (change idx s) file (hfile idx)]
      constructor
      · intro h secret' idx' hsecret' hidx'
        rw [← Option.some.inj hsecret', hidx] at hidx'
        rw [← Option.some.inj hidx']
        exact h
      · intro h
        exact h secret idx rfl hidx

/-- An assignment to the entry. -/
theorem unchangedOnFailure_modify (env : OpEnv) (hex : Bytes)
    (f : ExtSecretEntry → ExtSecretEntry) (s : ExtStore) (file : Option Bytes) :
    UnchangedOnFailure s (extCmdOnEntry env hex (fun idx s => s.modifyEntry idx f) s file) ↔
      EntryCommandClean env hex f s := by
  have hmod : ∀ idx, (s.modifyEntry idx f).extSecrets = s.extSecrets ↔
      ∀ E, s.extSecrets[idx]? = some E → f E = E := fun _ => modify_eq_self_iff
  rw [unchangedOnFailure_onEntry env hex _ s file (fun _ => rfl)]
  unfold EntryCommandClean
  simp only [hmod]

theorem unchangedOnFailure_remove (env : OpEnv) (hex : Bytes) (s : ExtStore)
    (file : Option Bytes) :
    UnchangedOnFailure s (extCmdRemove env hex s file) ↔ FailsCleanly env s (.remove hex) := by
  unfold extCmdRemove
  rw [unchangedOnFailure_onEntry env hex _ s file (fun _ => rfl)]
  -- a removal shortens the list
  have hne : ∀ secret idx, extFindIdxLocked s secret = some idx →
      swapRemove s.extSecrets idx ≠ s.extSecrets := by
    intro secret idx hidx heq
    have hlen := length_swapRemove (extFindIdxLocked_eq_some hidx).1
    rw [heq] at hlen
    omega
  constructor
  · intro h secret idx hsecret hidx
    exact (h secret idx hsecret hidx).resolve_right (hne secret idx hidx)
  · intro h secret idx hsecret hidx
    exact Or.inl (h secret idx hsecret hidx)

theorem isExpired_false_iff (now : Int64) (E : ExtSecretEntry) :
    isExpired now E = false ↔ disableEntry now E = E := by
  unfold disableEntry
  cases hexp : isExpired now E with
  | false => simp
  | true =>
    rw [if_pos rfl]
    constructor
    · intro h
      exact absurd h (by decide)
    · intro h
      have hzero : E.enabled = 0 := by rw [← h]
      simp [isExpired, hzero] at hexp

theorem unchangedOnFailure_disableExpired (env : OpEnv) (now : Int64) (s : ExtStore)
    (file : Option Bytes) :
    UnchangedOnFailure s (extCmdDisableExpired env now s file).toOpResult ↔
      FailsCleanly env s (.disableExpired now) := by
  set t := if now ≤ 0 then env.now.val else now
  have hmap : s.extSecrets.map (disableEntry t) = s.extSecrets ↔
      ∀ E ∈ s.extSecrets, isExpired t E = false := by
    rw [map_eq_self_iff]
    constructor
    · exact fun h E hE => (isExpired_false_iff t E).mpr (h E hE)
    · exact fun h E hE => (isExpired_false_iff t E).mp (h E hE)
  show _ ↔ ¬ env.io.Fails s ∨ ∀ E ∈ s.extSecrets, isExpired t E = false
  rw [← hmap]
  exact unchangedOnFailure_finish env s
    { s with extSecrets := s.extSecrets.map (disableEntry t) } file rfl

/-- An addition of a secret that is not in the store: both failed allocations are
followed by a rollback, a failure to persist is not. -/
theorem unchangedOnFailure_addNew {env : OpEnv} {secret : Secret} {label : Bytes}
    {expiresAt : Int64} {enabled : ℤ} {s : ExtStore} {file : Option Bytes} {res : OpResult}
    (hres : extAddNew env secret label expiresAt enabled true s file = some res) :
    UnchangedOnFailure s res ↔
      ¬ env.io.Fails s ∨ (env.reallocOk = false ∧ s.extSecretCap < s.extSecretCnt + 1) ∨
        (env.callocOk = false ∧ s.extSecretMetricsCap ≤ s.extSecretNextId) := by
  unfold extAddNew at hres
  split at hres
  · exact absurd hres (by simp)
  rename_i r₁ s₁ hr₁
  have hneg₁ := extReserveLocked_neg_iff hr₁
  obtain ⟨cap, hs₁⟩ : ∃ cap, s₁ = { s with extSecretCap := cap } := by
    rcases extReserveLocked_cases hr₁ with ⟨-, cap, -, hs₁⟩ | ⟨-, -, hs₁⟩
    · exact ⟨cap, hs₁⟩
    · exact ⟨s.extSecretCap, hs₁⟩
  subst hs₁
  split at hres
  · rename_i hr
    cases hres
    exact iff_of_true (fun _ => rfl) (Or.inr (Or.inl (hneg₁.mp hr)))
  rename_i hr
  have hno₁ : ¬ (env.reallocOk = false ∧ s.extSecretCap < s.extSecretCnt + 1) :=
    fun h => hr (hneg₁.mpr h)
  split at hres
  · exact absurd hres (by simp)
  rename_i r₂ s₂ hr₂
  have hneg₂ := extMetricsReserveLocked_neg_iff hr₂
  have hs₂ : s₂.extSecrets = s.extSecrets ∧ s₂.extSecretStateFile = s.extSecretStateFile := by
    rcases extMetricsReserveLocked_cases hr₂ with ⟨-, -, n, rfl⟩ | ⟨-, -, -, rfl⟩ <;>
      exact ⟨rfl, rfl⟩
  split at hres
  · rename_i hr'
    cases hres
    exact iff_of_true (fun _ => hs₂.1) (Or.inr (Or.inr (hneg₂.mp hr')))
  rename_i hr'
  have hno₂ : ¬ (env.callocOk = false ∧ s.extSecretMetricsCap ≤ s.extSecretNextId) :=
    fun h => hr' (hneg₂.mpr h)
  cases hres
  set E := newEntry env.now.val secret label expiresAt enabled s₂.extSecretNextId
  have hiff := unchangedOnFailure_finish env s
    ({ s₂ with extSecrets := s₂.extSecrets ++ [E] } : ExtStore).bumpNextId file hs₂.2
  -- the list has grown by one entry
  have hne : s₂.extSecrets ++ [E] ≠ s.extSecrets := by
    rw [hs₂.1]
    exact fun h => by simpa using congrArg List.length h
  rw [hiff]
  constructor
  · intro h
    exact Or.inl (h.resolve_right hne)
  · rintro (h | h | h)
    · exact Or.inl h
    · exact absurd h hno₁
    · exact absurd h hno₂

/-- An addition of a secret that is in the store fails; it may have given the entry an
id by then. -/
theorem unchangedOnFailure_addExisting {env : OpEnv} {secret : Secret} {label : Bytes}
    {expiresAt : Int64} {enabled : ℤ} {s : ExtStore} {file : Option Bytes} {res : OpResult}
    {idx : ℕ} (hidx : extFindIdxLocked s secret = some idx)
    (hres : extAddLocked env secret label expiresAt enabled true true s file = some res) :
    UnchangedOnFailure s res ↔
      0 < s.idAt idx ∨ s.idAt idx = s.extSecretNextId ∨
        (env.callocOk = false ∧ s.extSecretMetricsCap ≤ s.extSecretNextId) := by
  obtain ⟨hlt, -⟩ := extFindIdxLocked_eq_some hidx
  unfold extAddLocked at hres
  rw [hidx] at hres
  dsimp only at hres
  have hret : ∀ {r : ℤ} {s₁ : ExtStore}, extEnsureId env idx s = some (r, s₁) →
      res = ⟨-1, s₁, file⟩ := by
    intro r s₁ hens
    rw [hens] at hres
    dsimp only at hres
    rw [if_pos rfl, ite_self] at hres
    exact (Option.some.inj hres).symm
  cases hens : extEnsureId env idx s with
  | none =>
    rw [hens] at hres
    exact absurd hres (by simp)
  | some rs =>
    obtain ⟨r, s₁⟩ := rs
    rw [hret hens]
    unfold extEnsureId at hens
    split at hens
    · rename_i hpos
      cases hens
      exact iff_of_true (fun _ => rfl) (Or.inl hpos)
    rename_i hpos
    split at hens
    · exact absurd hens (by simp)
    rename_i r' s' hr'
    have hneg := extMetricsReserveLocked_neg_iff hr'
    have hs' : s'.extSecrets = s.extSecrets ∧ s'.extSecretNextId = s.extSecretNextId := by
      rcases extMetricsReserveLocked_cases hr' with ⟨-, -, n, rfl⟩ | ⟨-, -, -, rfl⟩ <;>
        exact ⟨rfl, rfl⟩
    split at hens
    · rename_i hlt'
      cases hens
      exact iff_of_true (fun _ => hs'.1) (Or.inr (Or.inr (hneg.mp hlt')))
    rename_i hge
    cases hens
    have hget : s.extSecrets[idx]? = some s.extSecrets[idx] := List.getElem?_eq_getElem hlt
    have hid : s.idAt idx = s.extSecrets[idx].id := by
      unfold ExtStore.idAt
      rw [hget]
      rfl
    -- the entry is unchanged exactly when it had the id it is given
    have hmod : s'.extSecrets.modify idx (fun E => { E with id := s'.extSecretNextId })
        = s.extSecrets ↔ s.idAt idx = s.extSecretNextId := by
      rw [hs'.1, hs'.2, modify_eq_self_iff, hget, hid]
      constructor
      · intro h
        exact (congrArg ExtSecretEntry.id (h _ rfl)).symm
      · rintro h E hE
        rw [← Option.some.inj hE, ← h]
    constructor
    · intro h
      exact Or.inr (Or.inl (hmod.mp (h (show (-1 : ℤ) < 0 by decide))))
    · rintro (h | h | h) _
      · exact absurd h hpos
      · exact hmod.mpr h
      · exact absurd (hneg.mpr h) hge

theorem unchangedOnFailure_add {env : OpEnv} {hex label : Bytes} {expiresAt : Int64}
    {enabled : ℤ} {s : ExtStore} {file : Option Bytes} {res : OpResult}
    (hres : extCmdAdd env hex label expiresAt enabled s file = some res) :
    UnchangedOnFailure s res ↔ AddClean env hex s := by
  unfold extCmdAdd at hres
  unfold AddClean
  cases hhex : extSecret16FromHex hex with
  | none =>
    rw [hhex] at hres
    cases hres
    exact iff_of_true (fun _ => rfl) (fun _ h => absurd h (by simp))
  | some secret =>
    rw [hhex] at hres
    dsimp only at hres
    have hone : ∀ {P : Secret → Prop}, (∀ secret', some secret = some secret' → P secret') ↔
        P secret := by
      intro P
      constructor
      · exact fun h => h secret rfl
      · rintro h secret' heq
        rw [← Option.some.inj heq]
        exact h
    rw [hone]
    cases hidx : extFindIdxLocked s secret with
    | some idx => exact unchangedOnFailure_addExisting hidx hres
    | none =>
      unfold extAddLocked at hres
      rw [hidx] at hres
      exact unchangedOnFailure_addNew hres

/-- **A command keeps the promise exactly when it fails cleanly.** -/
theorem unchangedOnFailure_iff {env : OpEnv} {op : AdminOp} {s : ExtStore}
    {file : Option Bytes} {res : OpResult} (hres : op.run env s file = some res) :
    UnchangedOnFailure s res ↔ FailsCleanly env s op := by
  cases op with
  | add hex label expiresAt enabled => exact unchangedOnFailure_add hres
  | remove hex =>
    cases hres
    exact unchangedOnFailure_remove env hex s file
  | setEnabled hex enabled =>
    cases hres
    exact unchangedOnFailure_modify env hex _ s file
  | update hex label expiresAt enabled =>
    cases hres
    exact unchangedOnFailure_modify env hex _ s file
  | disableExpired now =>
    cases hres
    exact unchangedOnFailure_disableExpired env now s file

/-- A store with one entry, and a directory in which nothing can be renamed. -/
def oneSecretStore : ExtStore :=
  { ExtStore.init [115] with
    extSecrets := [newEntry 1 (Secret.fill 0) [97] 0 1 1]
    extSecretNextId := 2
    extSecretMetrics := List.replicate 64 ExtSecretMetric.zero }

@[inherit_doc oneSecretStore] def renameFails : OpEnv :=
  { OpEnv.healthy with io := { PersistIo.allOk with rename := false } }

/-- The removal of a secret that is not there fails and changes nothing. -/
theorem unchangedOnFailure_iff_remove :
    (extCmdRemove renameFails (List.replicate 32 49) oneSecretStore none).ret < 0 ∧
      (extCmdRemove renameFails (List.replicate 32 49) oneSecretStore none).store.extSecrets
        = oneSecretStore.extSecrets := by
  have hrun : AdminOp.run renameFails (.remove (List.replicate 32 49)) oneSecretStore none =
      some (extCmdRemove renameFails (List.replicate 32 49) oneSecretStore none) := rfl
  have hfails : (extCmdRemove renameFails (List.replicate 32 49) oneSecretStore none).ret < 0 := by
    decide +kernel
  refine ⟨hfails, (unchangedOnFailure_iff hrun).mpr (fun secret idx hhex hidx => ?_) hfails⟩
  have hnone : (extSecret16FromHex (List.replicate 32 49)).bind (extFindIdxLocked oneSecretStore)
      = none := by decide +kernel
  rw [hhex, Option.bind_some, hidx] at hnone
  cases hnone

/-- A removal that cannot be persisted returns `-1` and has removed the entry. -/
theorem not_unchangedOnFailure_remove :
    ¬ UnchangedOnFailure oneSecretStore
      (extCmdRemove renameFails (List.replicate 32 48) oneSecretStore none) := by
  have hret : (extCmdRemove renameFails (List.replicate 32 48) oneSecretStore none).ret = -1 := by
    decide +kernel
  have hnil : (extCmdRemove renameFails (List.replicate 32 48) oneSecretStore
      none).store.extSecrets = [] := by
    decide +kernel
  intro h
  have heq := h (by rw [hret]; decide)
  rw [hnil] at heq
  exact absurd heq.symm (List.cons_ne_nil _ _)

end MtprotoProxy
