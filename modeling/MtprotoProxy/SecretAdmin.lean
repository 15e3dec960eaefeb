/-
# The admin operations on the secret store

`ext_add_locked`, `tcp_rpcs_set_ext_secret` and the commands `ext_cmd_add`,
`ext_cmd_remove`, `ext_cmd_set_enabled`, `ext_cmd_update`, `ext_cmd_disable_expired` of
`net/net-tcp-rpc-ext-server.c`.

An operation takes the outcomes of the outside world (`OpEnv`: the clock, the two
allocations, the calls of `ext_persist_locked`), the store and the state file, and gives
back its return value, the store and the file (`OpResult`).  The pairs `(has_x, x)` of
`ext_cmd_update` are options.
-/
import MtprotoProxy.CArray
import MtprotoProxy.SecretPersist

namespace MtprotoProxy

open CLib

/-- What the outside world answers during one operation. -/
structure OpEnv where
  now : TimeT
  reallocOk : Bool
  callocOk : Bool
  io : PersistIo

/-- Every call succeeds, at time `1`. -/
def OpEnv.healthy : OpEnv := ⟨⟨1, by decide⟩, true, true, PersistIo.allOk⟩

/-- A return value, and the state it leaves. -/
structure OpResult where
  ret : ℤ
  store : ExtStore
  file : Option Bytes

/-- `return persist ? ext_persist_locked () : 0`. -/
def finish (env : OpEnv) (persist : Bool) (s : ExtStore) (file : Option Bytes) : OpResult :=
  if persist then
    let r := extPersistLocked env.io s file
    ⟨r.1, s, r.2⟩
  else ⟨0, s, file⟩

/-- The id of the entry at an index. -/
def ExtStore.idAt (s : ExtStore) (idx : ℕ) : ℤ := (s.extSecrets[idx]?).elim 0 (·.id)

/-! ## `ext_add_locked` -/

/-- The part of `ext_add_locked` that gives an existing entry an id. -/
def extEnsureId (env : OpEnv) (idx : ℕ) (s : ExtStore) : Option (ℤ × ExtStore) :=
  if 0 < s.idAt idx then some (0, s)
  else
    match extMetricsReserveLocked env.callocOk s.extSecretNextId s with
    | none => none
    | some (r, s₁) =>
      if r < 0 then some (-1, s₁)
      else some (0,
        (s₁.modifyEntry idx (fun E => { E with id := s₁.extSecretNextId })).bumpNextId)

/-- The fields `ext_add_locked` writes to an existing entry. -/
def refreshEntry (now : Int64) (label : Bytes) (expiresAt : Int64) (enabled : ℤ)
    (E : ExtSecretEntry) : ExtSecretEntry :=
  { E with
    label := if cstr label ≠ [] then extSanitizeLabel label else E.label
    expiresAt := if 0 ≤ expiresAt then expiresAt else E.expiresAt
    enabled := boolInt (enabled ≠ 0)
    updatedAt := now }

/-- The entry `ext_add_locked` appends. -/
def newEntry (now : Int64) (secret : Secret) (label : Bytes) (expiresAt : Int64) (enabled : ℤ)
    (id : ℤ) : ExtSecretEntry where
  secret := secret
  hex := extSecret16ToHex secret
  label := extSanitizeLabel label
  lastIp := []
  id := id
  enabled := boolInt (enabled ≠ 0)
  createdAt := now
  updatedAt := now
  expiresAt := if 0 < expiresAt then expiresAt else 0
  lastSeenAt := 0

/-- `ext_add_locked` for a secret that is not in the store. -/
def extAddNew (env : OpEnv) (secret : Secret) (label : Bytes) (expiresAt : Int64)
    (enabled : ℤ) (persist : Bool) (s : ExtStore) (file : Option Bytes) : Option OpResult :=
  match extReserveLocked env.reallocOk (s.extSecretCnt + 1) s with
  | none => none
  | some (r₁, s₁) =>
    if r₁ < 0 then some ⟨-1, s₁, file⟩
    else
      match extMetricsReserveLocked env.callocOk s₁.extSecretNextId s₁ with
      | none => none
      | some (r₂, s₂) =>
        -- the zeroed slot taken at the end of the array is given back (`ext_secret_cnt--`)
        if r₂ < 0 then some ⟨-1, s₂, file⟩
        else
          let E := newEntry env.now.val secret label expiresAt enabled s₂.extSecretNextId
          let s₃ := ({ s₂ with extSecrets := s₂.extSecrets ++ [E] } : ExtStore).bumpNextId
          some (finish env persist s₃ file)

/-- `ext_add_locked`. -/
def extAddLocked (env : OpEnv) (secret : Secret) (label : Bytes) (expiresAt : Int64)
    (enabled : ℤ) (failIfExists persist : Bool) (s : ExtStore) (file : Option Bytes) :
    Option OpResult :=
  match extFindIdxLocked s secret with
  | some idx =>
    match extEnsureId env idx s with
    | none => none
    | some (r, s₁) =>
      if r < 0 then some ⟨-1, s₁, file⟩
      else if failIfExists then some ⟨-1, s₁, file⟩
      else
        let s₂ := s₁.modifyEntry idx (refreshEntry env.now.val label expiresAt enabled)
        some (finish env persist s₂ file)
  | none => extAddNew env secret label expiresAt enabled persist s file

/-- `"bootstrap"`. -/
def bootstrapLabel : Bytes := [98, 111, 111, 116, 115, 116, 114, 97, 112]

/-- `tcp_rpcs_set_ext_secret`. -/
def tcpRpcsSetExtSecret (env : OpEnv) (secret : Secret) (s : ExtStore) (file : Option Bytes) :
    Option OpResult :=
  extAddLocked env secret bootstrapLabel 0 1 false false s file

/-! ## The commands -/

/-- `ext_cmd_add`. -/
def extCmdAdd (env : OpEnv) (hex label : Bytes) (expiresAt : Int64) (enabled : ℤ)
    (s : ExtStore) (file : Option Bytes) : Option OpResult :=
  match extSecret16FromHex hex with
  | none => some ⟨-2, s, file⟩
  | some secret => extAddLocked env secret label expiresAt enabled true true s file

/-- What `ext_cmd_remove`, `ext_cmd_set_enabled` and `ext_cmd_update` share: spell the
secret, find its entry, change the store, persist. -/
def extCmdOnEntry (env : OpEnv) (hex : Bytes) (change : ℕ → ExtStore → ExtStore)
    (s : ExtStore) (file : Option Bytes) : OpResult :=
  match extSecret16FromHex hex with
  | none => ⟨-2, s, file⟩
  | some secret =>
    match extFindIdxLocked s secret with
    | none => ⟨-3, s, file⟩
    | some idx => finish env true (change idx s) file

/-- `ext_cmd_remove`: `ext_secrets[idx] = ext_secrets[ext_secret_cnt - 1];
ext_secret_cnt--`. -/
def extCmdRemove (env : OpEnv) (hex : Bytes) (s : ExtStore) (file : Option Bytes) : OpResult :=
  extCmdOnEntry env hex
    (fun idx s => { s with extSecrets := swapRemove s.extSecrets idx }) s file

/-- The fields `ext_cmd_set_enabled` writes. -/
def setEnabledEntry (now : Int64) (enabled : ℤ) (E : ExtSecretEntry) : ExtSecretEntry :=
  { E with enabled := boolInt (enabled ≠ 0), updatedAt := now }

/-- `ext_cmd_set_enabled`. -/
def extCmdSetEnabled (env : OpEnv) (hex : Bytes) (enabled : ℤ) (s : ExtStore)
    (file : Option Bytes) : OpResult :=
  extCmdOnEntry env hex
    (fun idx s => s.modifyEntry idx (setEnabledEntry env.now.val enabled)) s file

/-- The fields `ext_cmd_update` writes. -/
def updateEntry (now : Int64) (label : Option Bytes) (expiresAt : Option Int64)
    (enabled : Option ℤ) (E : ExtSecretEntry) : ExtSecretEntry :=
  { E with
    label := label.elim E.label extSanitizeLabel
    expiresAt := expiresAt.elim E.expiresAt (fun x => if 0 < x then x else 0)
    enabled := enabled.elim E.enabled (fun x => boolInt (x ≠ 0))
    updatedAt := now }

/-- `ext_cmd_update`. -/
def extCmdUpdate (env : OpEnv) (hex : Bytes) (label : Option Bytes) (expiresAt : Option Int64)
    (enabled : Option ℤ) (s : ExtStore) (file : Option Bytes) : OpResult :=
  extCmdOnEntry env hex
    (fun idx s => s.modifyEntry idx (updateEntry env.now.val label expiresAt enabled)) s file

/-- The entries `ext_cmd_disable_expired` disables. -/
def isExpired (now : Int64) (E : ExtSecretEntry) : Bool :=
  E.enabled ≠ 0 && 0 < E.expiresAt && E.expiresAt ≤ now

/-- One round of the loop of `ext_cmd_disable_expired`. -/
def disableEntry (now : Int64) (E : ExtSecretEntry) : ExtSecretEntry :=
  if isExpired now E then { E with enabled := 0, updatedAt := now } else E

/-- `ext_cmd_disable_expired` with its output parameters. -/
structure DisableExpiredResult extends OpResult where
  checked : ℕ
  disabled : ℕ
  nowOut : Int64

/-- `ext_cmd_disable_expired`. -/
def extCmdDisableExpired (env : OpEnv) (now : Int64) (s : ExtStore) (file : Option Bytes) :
    DisableExpiredResult :=
  let now := if now ≤ 0 then env.now.val else now
  let s₁ := { s with extSecrets := s.extSecrets.map (disableEntry now) }
  { finish env true s₁ file with
    checked := s.extSecrets.length
    disabled := s.extSecrets.countP (isExpired now)
    nowOut := now }

/-! ## All commands as one type -/

/-- An admin command with its arguments. -/
inductive AdminOp : Type where
  | add (hex label : Bytes) (expiresAt : Int64) (enabled : ℤ) : AdminOp
  | remove (hex : Bytes) : AdminOp
  | setEnabled (hex : Bytes) (enabled : ℤ) : AdminOp
  | update (hex : Bytes) (label : Option Bytes) (expiresAt : Option Int64)
      (enabled : Option ℤ) : AdminOp
  | disableExpired (now : Int64) : AdminOp

/-- Run a command. -/
def AdminOp.run (env : OpEnv) (op : AdminOp) (s : ExtStore) (file : Option Bytes) :
    Option OpResult :=
  match op with
  | .add hex label expiresAt enabled => extCmdAdd env hex label expiresAt enabled s file
  | .remove hex => some (extCmdRemove env hex s file)
  | .setEnabled hex enabled => some (extCmdSetEnabled env hex enabled s file)
  | .update hex label expiresAt enabled =>
    some (extCmdUpdate env hex label expiresAt enabled s file)
  | .disableExpired now => some (extCmdDisableExpired env now s file).toOpResult

@[simp] theorem finish_store (env : OpEnv) (persist : Bool) (s : ExtStore)
    (file : Option Bytes) : (finish env persist s file).store = s := by
  unfold finish
  cases persist <;> rfl

/-- A run that ends in `ext_persist_locked` fails exactly when a checked call of it does. -/
theorem finish_ret_neg_iff (env : OpEnv) (s : ExtStore) (file : Option Bytes) :
    (finish env true s file).ret < 0 ↔ env.io.Fails s :=
  extPersistLocked_neg_iff env.io s file

/-- **What a command on one entry can do**: nothing, or change the entry and persist. -/
theorem extCmdOnEntry_cases (env : OpEnv) (hex : Bytes) (change : ℕ → ExtStore → ExtStore)
    (s : ExtStore) (file : Option Bytes) :
    (extCmdOnEntry env hex change s file).store = s ∨
      ∃ secret idx, extSecret16FromHex hex = some secret ∧
        extFindIdxLocked s secret = some idx ∧
        extCmdOnEntry env hex change s file = finish env true (change idx s) file := by
  unfold extCmdOnEntry
  cases hhex : extSecret16FromHex hex with
  | none => exact Or.inl rfl
  | some secret =>
    cases hidx : extFindIdxLocked s secret with
    | none => exact Or.inl (by simp [hidx])
    | some idx => exact Or.inr ⟨secret, idx, rfl, hidx, by simp [hidx]⟩

end MtprotoProxy
