/-
# Adding a secret over HTTP

The `POST /v1/secrets` branch of `ext_admin_handle_http` in
`net/net-tcp-rpc-ext-server.c`, from the request body to the reply, over the getters of
`AdminJson` and the command `ext_cmd_add`.

`char secret[64]` and `char label[EXT_SECRET_LABEL_MAX]` live on the stack: their bytes
behind the first one are whatever was there before (`PostStack`).

A rejected string value is promised to leave the buffer alone, so that the label stored
is the sanitised member or empty.  The copy loop writes before it knows whether the
literal is closed and fits, and the handler ignores the answer for the label:

* `getString_unchanged_iff`: when a rejected value leaves the buffer alone;
* `postKeepsLabel_iff`: when the handler keeps its part for every content of the stack.
-/
import MtprotoProxy.AdminJson
import MtprotoProxy.SecretAdmin

namespace MtprotoProxy

open CLib

/-! ## The handler -/

/-- What `ext_http_send_error` and `ext_http_send_json` send. -/
inductive HttpReply : Type where
  | error (code : ℕ) (msg : String) : HttpReply
  | json (code : ℕ) (body : String) : HttpReply
  deriving DecidableEq

/-- The bytes of `secret` and `label` before the handler clears their first ones. -/
structure PostStack where
  secret : Bytes
  label : Bytes
  length_secret : secret.length = 64
  length_label : label.length = extSecretLabelMax

/-- The arguments of `ext_cmd_add`. -/
structure AddArgs where
  secret : Bytes
  label : Bytes
  expires : Int64
  enabled : ℤ
  deriving DecidableEq

/-- `"secret"`. -/
def secretKey : Bytes := [115, 101, 99, 114, 101, 116]

/-- `"label"`. -/
def labelKey : Bytes := [108, 97, 98, 101, 108]

/-- `"expires"`. -/
def expiresKey : Bytes := [101, 120, 112, 105, 114, 101, 115]

/-- `"expires_at"`. -/
def expiresAtKey : Bytes := [101, 120, 112, 105, 114, 101, 115, 95, 97, 116]

/-- `"enabled"`. -/
def enabledKey : Bytes := [101, 110, 97, 98, 108, 101, 100]

/-- The expiry time: `expires` when the body has it, else `expires_at`. -/
def postExpires (body : Bytes) : Except HttpReply (Option Int64) :=
  match extHttpJsonGetInt64 body expiresKey with
  | none => .error (.error 400 "invalid expires")
  | some (some v) => .ok (some v)
  | some none =>
    match extHttpJsonGetInt64 body expiresAtKey with
    | none => .error (.error 400 "invalid expires_at")
    | some found => .ok found

/-- The handler up to the call of `ext_cmd_add`: its arguments, or the error sent. -/
def postArgs (stack : PostStack) (body : Bytes) : Except HttpReply AddArgs :=
  match extHttpJsonGetString body secretKey (stack.secret.set 0 0) with
  | (false, _) => .error (.error 400 "secret is required")
  | (true, secret) =>
    -- the return value for the label is not looked at
    let (_, label) := extHttpJsonGetString body labelKey (stack.label.set 0 0)
    match postExpires body with
    | .error e => .error e
    | .ok expires =>
      match extHttpJsonGetBool body enabledKey with
      | none => .error (.error 400 "invalid enabled")
      | some enabled => .ok ⟨secret, label, expires.getD 0, enabled.getD 1⟩

/-- The strings handed to `ext_cmd_add` end inside their buffers. -/
def AddArgs.Terminated (args : AddArgs) : Prop := 0 ∈ args.secret ∧ 0 ∈ args.label

instance (args : AddArgs) : Decidable args.Terminated := inferInstanceAs (Decidable (_ ∧ _))

/-- The reply to the return value of `ext_cmd_add`. -/
def addReply (rc : ℤ) : HttpReply :=
  if rc = -2 then .error 400 "invalid secret format"
  else if rc < 0 then .error 409 "add failed"
  else .json 201 "\x7b\"ok\":true\x7d"

/-- How a request ends. -/
inductive PostOutcome : Type where
  /-- A reply is sent; the store and the state file are these. -/
  | replied (reply : HttpReply) (store : ExtStore) (file : Option Bytes) : PostOutcome
  /-- `ext_cmd_add` gets a string that does not end inside its buffer. -/
  | unterminated (args : AddArgs) : PostOutcome
  /-- `ext_cmd_add` does not return. -/
  | hangs : PostOutcome

/-- The `POST /v1/secrets` branch of `ext_admin_handle_http`. -/
def postSecrets (env : OpEnv) (stack : PostStack) (body : Bytes) (s : ExtStore)
    (file : Option Bytes) : PostOutcome :=
  match postArgs stack body with
  | .error e => .replied e s file
  | .ok args =>
    if args.Terminated then
      match extCmdAdd env args.secret args.label args.expires args.enabled s file with
      | none => .hangs
      | some r => .replied (addReply r.ret) r.store r.file
    else .unterminated args

/-! ## The promise about one call of the getter -/

/-- If the getter returns `0`, the buffer is as the caller left it. -/
def RejectLeavesBuffer (body key out : Bytes) : Prop :=
  (extHttpJsonGetString body key out).1 = false → (extHttpJsonGetString body key out).2 = out

instance (body key out : Bytes) : Decidable (RejectLeavesBuffer body key out) :=
  inferInstanceAs (Decidable (_ → _))

/-- The key's value opens a string literal that is not closed or does not fit, and the
characters that fit are not what the buffer starts with anyway. -/
def LeavesTrace (body key out : Bytes) : Prop :=
  ∃ p ∈ literalAt body key, out ≠ [] ∧ ¬ LiteralFits p out.length ∧
    ¬ (literalChars p).take (out.length - 1) <+: out

theorem overwrite_zero_eq_iff {out cs : Bytes} : overwrite out 0 cs = out ↔ cs <+: out := by
  unfold overwrite
  rw [List.take_zero, List.nil_append, Nat.zero_add]
  constructor
  · intro h
    exact ⟨_, h⟩
  · rintro ⟨t, rfl⟩
    rw [List.drop_left]

/-- **A rejected string value leaves no trace** exactly when no character that differs
from the buffer's was copied. -/
theorem getString_unchanged_iff (body key out : Bytes) :
    RejectLeavesBuffer body key out ↔ ¬ LeavesTrace body key out := by
  unfold RejectLeavesBuffer LeavesTrace
  cases hlit : literalAt body key with
  | none => simp [getString_of_none hlit]
  | some p =>
    by_cases hout : out = []
    · have hnil : extHttpJsonGetString body key [] = (false, []) := by
        unfold extHttpJsonGetString
        split
        · rfl
        · split <;> rfl
      subst out
      simp [hnil]
    · rw [getString_of_literal hlit hout]
      by_cases hfits : LiteralFits p out.length
      · simp [hfits]
      · simp [hfits, hout, overwrite_zero_eq_iff]

/-! ## The strings of the handler -/

/-- The sanitizers look at a string only up to its first zero. -/
theorem sanitize_append_zero (f : UInt8 → Option UInt8) (rest : Bytes) :
    ∀ (cs : Bytes) (room : ℕ), (0 : UInt8) ∉ cs →
      sanitize f room (cs ++ 0 :: rest) = sanitize f room cs := by
  intro cs
  induction cs with
  | nil =>
    intro room _
    cases room <;> simp [sanitize]
  | cons c cs ih =>
    intro room hz
    have hc : c ≠ 0 := fun h => hz (by simp [h])
    have hcs : (0 : UInt8) ∉ cs := fun h => hz (List.mem_cons_of_mem _ h)
    cases room with
    | zero => simp [sanitize]
    | succ room =>
      simp only [List.cons_append, sanitize, if_neg hc]
      cases f c with
      | none => exact ih (room + 1) hcs
      | some c' => exact congrArg (c' :: ·) (ih room hcs)

/-- A string the getter accepts ends inside its buffer. -/
theorem zero_mem_of_getString {body key out : Bytes} {buf : Bytes}
    (h : extHttpJsonGetString body key out = (true, buf)) : 0 ∈ buf := by
  cases hlit : literalAt body key with
  | none =>
    rw [getString_of_none hlit] at h
    exact absurd (Prod.mk.inj h).1 (by decide)
  | some p =>
    by_cases hout : out = []
    · subst out
      unfold extHttpJsonGetString at h
      split at h
      · exact absurd (Prod.mk.inj h).1 (by decide)
      · split at h <;> exact absurd (Prod.mk.inj h).1 (by decide)
    · rw [getString_of_literal hlit hout] at h
      split at h
      · rw [← (Prod.mk.inj h).2]
        simp [overwrite]
      · exact absurd (Prod.mk.inj h).1 (by decide)

/-! ## The promise about a request -/

/-- The value of a string member, when the literal found for the key is closed. -/
def memberString (body key : Bytes) : Option Bytes :=
  match literalAt body key with
  | none => none
  | some p => if literalRest p = [] then none else some (literalChars p)

/-- The entry stored for a secret has the sanitised label of the body, or none. -/
def LabelStored (body : Bytes) (secret : Secret) (s : ExtStore) : Prop :=
  (∃ E ∈ s.extSecrets, E.secret = secret) ∧
    ∀ E ∈ s.extSecrets, E.secret = secret →
      E.label = [] ∨ ∃ v ∈ memberString body labelKey, E.label = extSanitizeLabel v

/-- For every content of the stack and every state of the store: each string handed on
ends inside its buffer, and an accepted request stores the right label. -/
def PostKeepsLabel (body : Bytes) : Prop :=
  ∀ (env : OpEnv) (stack : PostStack) (s : ExtStore) (file : Option Bytes),
    (∀ args, postArgs stack body = .ok args → args.Terminated) ∧
      ∀ code text s' file', postSecrets env stack body s file
          = .replied (.json code text) s' file' →
        ∃ args secret, postArgs stack body = .ok args ∧
          extSecret16FromHex args.secret = some secret ∧ LabelStored body secret s'

/-- The label's literal is rejected after a character of it was copied. -/
def LabelTrace (body : Bytes) : Prop :=
  ∃ p ∈ literalAt body labelKey, ¬ LiteralFits p extSecretLabelMax ∧ literalChars p ≠ []

/-- The body passes every check the handler makes before it calls `ext_cmd_add`. -/
def PassesChecks (body : Bytes) : Prop :=
  (∃ p ∈ literalAt body secretKey, LiteralFits p 64) ∧ (postExpires body).isOk ∧
    (extHttpJsonGetBool body enabledKey).isSome

/-- What the arguments of an accepted request are made of. -/
theorem postArgs_eq_ok {stack : PostStack} {body : Bytes} {args : AddArgs}
    (h : postArgs stack body = .ok args) :
    extHttpJsonGetString body secretKey (stack.secret.set 0 0) = (true, args.secret) ∧
      args.label = (extHttpJsonGetString body labelKey (stack.label.set 0 0)).2 := by
  unfold postArgs at h
  split at h
  · exact absurd h (by simp)
  · rename_i secret hsecret
    dsimp only at h
    split at h
    · exact absurd h (by simp)
    · split at h
      · exact absurd h (by simp)
      · cases h
        exact ⟨hsecret, rfl⟩

/-- **The handler reaches `ext_cmd_add` exactly when the body passes its checks**,
whatever the stack holds. -/
theorem postArgs_isOk_iff (stack : PostStack) (body : Bytes) :
    (∃ args, postArgs stack body = .ok args) ↔ PassesChecks body := by
  have hlen : (stack.secret.set 0 0).length = 64 := by
    rw [List.length_set, stack.length_secret]
  have hne : stack.secret.set 0 0 ≠ [] := List.ne_nil_of_length_eq_add_one hlen
  have hsecret : (extHttpJsonGetString body secretKey (stack.secret.set 0 0)).1 = true ↔
      ∃ p ∈ literalAt body secretKey, LiteralFits p 64 := by
    cases hlit : literalAt body secretKey with
    | none => simp [getString_of_none hlit]
    | some p =>
      rw [getString_of_literal hlit hne, hlen]
      split <;> simp_all
  unfold PassesChecks
  rw [← hsecret]
  unfold postArgs
  obtain ⟨ok, secret⟩ := extHttpJsonGetString body secretKey (stack.secret.set 0 0)
  cases ok with
  | false => simp
  | true =>
    cases postExpires body with
    | error e => simp [Except.isOk, Except.toBool]
    | ok expires =>
      cases extHttpJsonGetBool body enabledKey with
      | none => simp
      | some enabled => simp [Except.isOk, Except.toBool]

/-- The label buffer of a request whose label leaves no trace: the value of the label
member, or nothing, and its terminating zero. -/
theorem labelBuffer_of_not_labelTrace {body : Bytes} (h : ¬ LabelTrace body) {label : Bytes}
    (hlen : label.length = extSecretLabelMax) :
    ∃ cs rest, (extHttpJsonGetString body labelKey (label.set 0 0)).2 = cs ++ 0 :: rest ∧
      (0 : UInt8) ∉ cs ∧ (cs = [] ∨ memberString body labelKey = some cs) := by
  obtain ⟨c, rest, rfl⟩ : ∃ c rest, label = c :: rest :=
    List.exists_cons_of_ne_nil (List.ne_nil_of_length_eq_add_one hlen)
  rw [List.set_cons_zero]
  have hlen' : ((0 : UInt8) :: rest).length = extSecretLabelMax := hlen
  cases hlit : literalAt body labelKey with
  | none => exact ⟨[], rest, by rw [getString_of_none hlit]; rfl, by simp, Or.inl rfl⟩
  | some p =>
    rw [getString_of_literal hlit (by simp), hlen']
    by_cases hfits : LiteralFits p extSecretLabelMax
    · refine ⟨literalChars p, (0 :: rest).drop (literalChars p ++ [0]).length, ?_, ?_, Or.inr ?_⟩
      · rw [if_pos hfits]
        simp [overwrite]
      · exact fun hz => zero_notMem_literalAt hlit (mem_of_mem_literalChars hz)
      · unfold memberString
        rw [hlit]
        exact if_neg hfits.1
    -- rejected, but nothing was copied: the cleared first byte still ends the label
    · have hnil : literalChars p = [] := by
        by_contra hne
        exact h ⟨p, hlit, hfits, hne⟩
      refine ⟨[], rest, ?_, by simp, Or.inl rfl⟩
      rw [if_neg hfits, hnil, List.take_nil, overwrite_nil]
      rfl

/-- A stack whose bytes are all ones. -/
def PostStack.ones : PostStack where
  secret := List.replicate 64 1
  label := List.replicate extSecretLabelMax 1
  length_secret := List.length_replicate
  length_label := List.length_replicate

/-- **A label that leaves a trace** is handed on without a terminating zero when the
stack holds none. -/
theorem labelBuffer_of_labelTrace {body : Bytes} (h : LabelTrace body) :
    (0 : UInt8) ∉ (extHttpJsonGetString body labelKey (PostStack.ones.label.set 0 0)).2 := by
  obtain ⟨p, hlit, hfits, hne⟩ := h
  obtain ⟨c, cs, hcs⟩ := List.exists_cons_of_ne_nil hne
  have hz : (0 : UInt8) ∉ literalChars p :=
    fun hz => zero_notMem_literalAt hlit (mem_of_mem_literalChars hz)
  -- the first byte is the only zero of the buffer, and the copy overwrites it
  have hones : PostStack.ones.label.set 0 0 = 0 :: List.replicate 95 1 := rfl
  rw [hones, getString_of_literal hlit (by simp)]
  have hlen : ((0 : UInt8) :: List.replicate 95 1).length = extSecretLabelMax := rfl
  rw [hlen, if_neg hfits]
  intro hmem
  rcases List.mem_append.mp hmem with hmem | hmem
  · rw [List.take_zero, List.nil_append] at hmem
    exact hz (List.mem_of_mem_take hmem)
  · -- the first byte, the only zero, is overwritten
    rw [hcs, show extSecretLabelMax - 1 = 94 + 1 from rfl, List.take_succ_cons,
      List.length_cons, Nat.zero_add, List.drop_succ_cons] at hmem
    have := List.eq_of_mem_replicate (List.mem_of_mem_drop hmem)
    exact absurd this (by decide)

/-- A command that added a secret: it was not in the store, and it is the new last
entry. -/
theorem extCmdAdd_stored {env : OpEnv} {hex label : Bytes} {expiresAt : Int64} {enabled : ℤ}
    {s : ExtStore} {file : Option Bytes} {r : OpResult}
    (h : extCmdAdd env hex label expiresAt enabled s file = some r) (hret : 0 ≤ r.ret) :
    ∃ secret E, extSecret16FromHex hex = some secret ∧ E.secret = secret ∧
      E.label = extSanitizeLabel label ∧ (∀ F ∈ s.extSecrets, F.secret ≠ secret) ∧
      r.store.extSecrets = s.extSecrets ++ [E] := by
  unfold extCmdAdd at h
  split at h
  · cases h
    exact absurd hret (show ¬ (0 : ℤ) ≤ -2 by decide)
  rename_i secret hhex
  unfold extAddLocked at h
  split at h
  · split at h
    · exact absurd h (by simp)
    · rw [if_pos rfl, ite_self] at h
      cases h
      exact absurd hret (show ¬ (0 : ℤ) ≤ -1 by decide)
  rename_i hidx
  unfold extAddNew at h
  split at h
  · exact absurd h (by simp)
  rename_i r₁ s₁ hr₁
  have hs₁ : s₁.extSecrets = s.extSecrets := by
    rcases extReserveLocked_cases hr₁ with ⟨-, cap, -, rfl⟩ | ⟨-, -, rfl⟩ <;> rfl
  split at h
  · cases h
    exact absurd hret (show ¬ (0 : ℤ) ≤ -1 by decide)
  split at h
  · exact absurd h (by simp)
  rename_i r₂ s₂ hr₂
  have hs₂ : s₂.extSecrets = s.extSecrets := by
    rw [← hs₁]
    rcases extMetricsReserveLocked_cases hr₂ with ⟨-, -, n, rfl⟩ | ⟨-, -, -, rfl⟩ <;> rfl
  split at h
  · cases h
    exact absurd hret (show ¬ (0 : ℤ) ≤ -1 by decide)
  cases h
  refine ⟨secret, newEntry env.now.val secret label expiresAt enabled s₂.extSecretNextId, hhex,
    rfl, rfl, extFindIdxLocked_eq_none hidx, ?_⟩
  rw [finish_store, ← hs₂]
  rfl

/-- A request turned away before `ext_cmd_add` gets an error. -/
theorem postArgs_error {stack : PostStack} {body : Bytes} {e : HttpReply}
    (h : postArgs stack body = .error e) : ∃ code msg, e = .error code msg := by
  unfold postArgs at h
  split at h
  · cases h
    exact ⟨400, _, rfl⟩
  dsimp only at h
  split at h
  · rename_i e' he'
    cases h
    unfold postExpires at he'
    split at he'
    · cases he'
      exact ⟨400, _, rfl⟩
    · exact absurd he' (by simp)
    · split at he'
      · cases he'
        exact ⟨400, _, rfl⟩
      · exact absurd he' (by simp)
  · split at h
    · cases h
      exact ⟨400, _, rfl⟩
    · exact absurd h (by simp)

/-- Every reply with a JSON text is the answer to an addition that succeeded. -/
theorem postSecrets_accepted {env : OpEnv} {stack : PostStack} {body : Bytes} {s s' : ExtStore}
    {file file' : Option Bytes} {code : ℕ} {text : String}
    (h : postSecrets env stack body s file = .replied (.json code text) s' file') :
    ∃ args r, postArgs stack body = .ok args ∧
      extCmdAdd env args.secret args.label args.expires args.enabled s file = some r ∧
      0 ≤ r.ret ∧ r.store = s' := by
  unfold postSecrets at h
  split at h
  · rename_i e he
    obtain ⟨code', msg, rfl⟩ := postArgs_error he
    exact absurd h (by simp)
  · rename_i args hargs
    split at h
    · split at h
      · exact absurd h (by simp)
      · rename_i r hr
        obtain ⟨hreply, hstore, -⟩ := PostOutcome.replied.inj h
        refine ⟨args, r, hargs, hr, ?_, hstore⟩
        unfold addReply at hreply
        split at hreply
        · exact absurd hreply (by simp)
        · split at hreply
          · exact absurd hreply (by simp)
          · omega
    · exact absurd h (by simp)

/-- **When the handler keeps its promise**: the label leaves no trace, or the request is
turned away before `ext_cmd_add`. -/
theorem postKeepsLabel_iff (body : Bytes) :
    PostKeepsLabel body ↔ ¬ (LabelTrace body ∧ PassesChecks body) := by
  constructor
  · rintro h ⟨htrace, hpass⟩
    obtain ⟨args, hargs⟩ := (postArgs_isOk_iff PostStack.ones body).mpr hpass
    obtain ⟨-, hlabel⟩ := postArgs_eq_ok hargs
    have hterm := ((h OpEnv.healthy PostStack.ones (ExtStore.init []) none).1 args hargs).2
    rw [hlabel] at hterm
    exact labelBuffer_of_labelTrace htrace hterm
  · intro h env stack s file
    have hno : ∀ {args}, postArgs stack body = .ok args → ¬ LabelTrace body :=
      fun hargs htrace => h ⟨htrace, (postArgs_isOk_iff stack body).mp ⟨_, hargs⟩⟩
    constructor
    · intro args hargs
      obtain ⟨hsecret, hlabel⟩ := postArgs_eq_ok hargs
      obtain ⟨cs, rest, hbuf, -, -⟩ :=
        labelBuffer_of_not_labelTrace (hno hargs) stack.length_label
      refine ⟨zero_mem_of_getString hsecret, ?_⟩
      rw [hlabel, hbuf]
      simp
    · intro code text s' file' hpost
      obtain ⟨args, r, hargs, hadd, hret, rfl⟩ := postSecrets_accepted hpost
      obtain ⟨secret, E, hhex, hE, hElabel, hnew, hstore⟩ := extCmdAdd_stored hadd hret
      obtain ⟨-, hlabel⟩ := postArgs_eq_ok hargs
      obtain ⟨cs, rest, hbuf, hz, hcs⟩ :=
        labelBuffer_of_not_labelTrace (hno hargs) stack.length_label
      have hsan : extSanitizeLabel args.label = extSanitizeLabel cs := by
        rw [hlabel, hbuf]
        exact sanitize_append_zero labelChar rest cs _ hz
      refine ⟨args, secret, hargs, hhex, ⟨E, by simp [hstore], hE⟩, ?_⟩
      intro F hF hFsecret
      rw [hstore] at hF
      rcases List.mem_append.mp hF with hF | hF
      · exact absurd hFsecret (hnew F hF)
      · rw [List.mem_singleton.mp hF, hElabel, hsan]
        rcases hcs with rfl | hcs
        · exact Or.inl rfl
        · exact Or.inr ⟨cs, hcs, rfl⟩

/-- **A rejected string value leaves no trace**, in the caller's buffer and in the label
the handler stores, exactly when the copy loop changed nothing before it gave up. -/
theorem rejectedString_noTrace_iff (body key out : Bytes) :
    (RejectLeavesBuffer body key out ↔ ¬ LeavesTrace body key out) ∧
      (PostKeepsLabel body ↔ ¬ (LabelTrace body ∧ PassesChecks body)) :=
  ⟨getString_unchanged_iff body key out, postKeepsLabel_iff body⟩

/-- `{"secret":"00…0","label":"x`, a body that ends inside the label. -/
def cutBody : Bytes :=
  [123, 34] ++ secretKey ++ [34, 58, 34] ++ List.replicate 32 48 ++ [34, 44, 34] ++ labelKey ++
    [34, 58, 34, 120]

/-- The cut body breaks both parts of the promise. -/
theorem not_rejectedString_noTrace :
    ¬ RejectLeavesBuffer cutBody labelKey (List.replicate 96 0) ∧ ¬ PostKeepsLabel cutBody := by
  constructor
  · decide +kernel
  · rw [postKeepsLabel_iff, not_not]
    have htrace : LabelTrace cutBody :=
      ⟨[120], by decide +kernel, by decide +kernel, by decide +kernel⟩
    have hsecret : ∃ p ∈ literalAt cutBody secretKey, LiteralFits p 64 :=
      ⟨List.replicate 32 48 ++ [34, 44, 34] ++ labelKey ++ [34, 58, 34, 120],
        by decide +kernel, by decide +kernel⟩
    exact ⟨htrace, hsecret, by decide +kernel, by decide +kernel⟩

end MtprotoProxy
