/-
# Bans of the bot interface

`BanTracker` and `Handler._authenticate` of `scripts/proxybot-httpd`, for requests that
have passed the source and the rate checks.  A `float` is a rational number, a dictionary
is a function.

Every request with wrong credentials is promised to count as one failure, and enough
failures in the window to ban the address.  The comparison of the credentials may raise an
exception before the failure is registered; `bruteForceBan_iff` says when that is all that
goes wrong.
-/
import MtprotoProxy.BasicAuth

namespace MtprotoProxy

/-! ## The tracker -/

/-- The settings of the module. -/
structure BotHttpConfig where
  apiUser : PyStr
  apiPassword : PyStr
  apiKey : PyStr
  requireApiKey : Bool
  banAfterFails : ℤ
  banWindowSeconds : ℤ
  banSeconds : ℤ

/-- `class BanTracker`, without its settings. -/
structure BanTracker where
  failures : String → List ℚ
  blockedUntil : String → Option ℚ

/-- `BanTracker.__init__`. -/
def BanTracker.init : BanTracker := ⟨fun _ => [], fun _ => none⟩

/-- `BanTracker.is_blocked`. -/
def BanTracker.isBlocked (T : BanTracker) (ip : String) (now : ℚ) : Bool × BanTracker :=
  if (T.blockedUntil ip).getD 0 ≤ now then
    (false, { T with blockedUntil := Function.update T.blockedUntil ip none })
  else (true, T)

/-- `BanTracker.register_failure`. -/
def BanTracker.registerFailure (cfg : BotHttpConfig) (T : BanTracker) (ip : String) (now : ℚ) :
    BanTracker :=
  let arr := (T.failures ip).filter (fun t => now - t ≤ cfg.banWindowSeconds) ++ [now]
  if cfg.banAfterFails ≤ arr.length then
    { failures := Function.update T.failures ip []
      blockedUntil := Function.update T.blockedUntil ip (some (now + cfg.banSeconds)) }
  else { T with failures := Function.update T.failures ip arr }

/-! ## Requests -/

/-- A request, and what the clock says when `is_blocked` and when `register_failure`
read it. -/
structure BotRequest where
  ip : String
  authorization : PyStr
  apiKey : PyStr
  checkTime : ℚ
  failTime : ℚ

/-- How `_authenticate` ends; `raised` is an exception. -/
inductive AuthReply where
  | blocked | missingAuth | invalidCredentials | invalidApiKey | accepted | raised
  deriving DecidableEq

/-- The replies behind a call of `register_failure`. -/
def AuthReply.registers : AuthReply → Bool
  | .missingAuth | .invalidCredentials | .invalidApiKey => true
  | _ => false

/-- `_authenticate` behind the check for a ban. -/
def checkCredentials (cfg : BotHttpConfig) (r : BotRequest) : AuthReply :=
  match parseBasicAuth r.authorization with
  | none => .missingAuth
  | some (user, password) =>
    match compareDigest user cfg.apiUser with
    | none => .raised
    | some false => .invalidCredentials
    | some true =>
      match compareDigest password cfg.apiPassword with
      | none => .raised
      | some false => .invalidCredentials
      | some true =>
        if cfg.requireApiKey then
          match compareDigest r.apiKey cfg.apiKey with
          | none => .raised
          | some false => .invalidApiKey
          | some true => .accepted
        else .accepted

/-- What `_authenticate` leaves, with the number of calls of `register_failure`. -/
structure AuthResult where
  reply : AuthReply
  registered : ℕ
  tracker : BanTracker

/-- `_authenticate`. -/
def authenticate (cfg : BotHttpConfig) (T : BanTracker) (r : BotRequest) : AuthResult :=
  match T.isBlocked r.ip r.checkTime with
  | (true, T) => ⟨.blocked, 0, T⟩
  | (false, T) =>
    if (checkCredentials cfg r).registers then
      ⟨checkCredentials cfg r, 1, T.registerFailure cfg r.ip r.failTime⟩
    else ⟨checkCredentials cfg r, 0, T⟩

/-- A request that was handled: the tracker it found, and the result. -/
structure AuthStep where
  before : BanTracker
  request : BotRequest
  result : AuthResult

/-- Requests one after the other. -/
def authRun (cfg : BotHttpConfig) : BanTracker → List BotRequest → List AuthStep
  | _, [] => []
  | T, r :: rs => ⟨T, r, authenticate cfg T r⟩ :: authRun cfg (authenticate cfg T r).tracker rs

/-- The clock does not go back. -/
def InTime (rs : List BotRequest) : Prop :=
  (∀ r ∈ rs, r.checkTime ≤ r.failTime) ∧ rs.Pairwise (fun a b => a.failTime ≤ b.checkTime)

/-! ## What the tracker is for -/

/-- The credentials are the right ones. -/
def Authorized (cfg : BotHttpConfig) (r : BotRequest) : Prop :=
  parseBasicAuth r.authorization = some (cfg.apiUser, cfg.apiPassword) ∧
    (cfg.requireApiKey → r.apiKey = cfg.apiKey)

instance decidableAuthorized (cfg : BotHttpConfig) (r : BotRequest) :
    Decidable (Authorized cfg r) :=
  inferInstanceAs (Decidable (_ ∧ _))

/-- The address is banned when the request comes; it is refused whatever it presents. -/
def AuthStep.Banned (e : AuthStep) : Prop :=
  (e.before.isBlocked e.request.ip e.request.checkTime).1 = true

instance AuthStep.decidableBanned (e : AuthStep) : Decidable e.Banned := inferInstanceAs (Decidable (_ = _))

/-- A request from the address that presents wrong credentials or none, outside a ban. -/
def AuthStep.Fails (cfg : BotHttpConfig) (ip : String) (e : AuthStep) : Prop :=
  e.request.ip = ip ∧ ¬ e.Banned ∧ ¬ Authorized cfg e.request

instance AuthStep.decidableFails (cfg : BotHttpConfig) (ip : String) (e : AuthStep) :
    Decidable (e.Fails cfg ip) :=
  inferInstanceAs (Decidable (_ ∧ _))

/-- The request has its address banned. -/
def AuthStep.PutsBan (e : AuthStep) : Prop :=
  ¬ e.Banned ∧ (e.result.tracker.blockedUntil e.request.ip).isSome

/-- Every failing request is registered, once. -/
def FailuresRegistered (cfg : BotHttpConfig) (tr : List AuthStep) : Prop :=
  ∀ e ∈ tr, ∀ ip, e.Fails cfg ip → e.result.registered = 1

/-- When the failing requests of an address, without a ban among them, are enough and
within the window, the address is refused until the ban is over. -/
def BanEnforced (cfg : BotHttpConfig) (tr : List AuthStep) : Prop :=
  ∀ (ip : String) (pre mid : List AuthStep) (last : AuthStep) (post : List AuthStep),
    tr = pre ++ (mid ++ last :: post) → last.Fails cfg ip →
    (∀ e ∈ mid, e.request.ip = ip → ¬ e.PutsBan) →
    (∀ e ∈ mid, e.Fails cfg ip →
      last.request.failTime - e.request.failTime ≤ cfg.banWindowSeconds) →
    cfg.banAfterFails ≤ (mid ++ [last]).countP (fun e => e.Fails cfg ip) →
    ∀ e ∈ post, e.request.ip = ip →
      e.request.checkTime < last.request.failTime + cfg.banSeconds → e.result.reply = .blocked

/-- Strings that are not ASCII are compared: the user names, or behind equal user names the
passwords, or behind those the keys. -/
def ComparesNonAscii (cfg : BotHttpConfig) (r : BotRequest) : Prop :=
  ∃ p ∈ parseBasicAuth r.authorization,
    ¬ (isAsciiStr p.1 ∧ isAsciiStr cfg.apiUser) ∨
      (p.1 = cfg.apiUser ∧ (¬ (isAsciiStr p.2 ∧ isAsciiStr cfg.apiPassword) ∨
        (p.2 = cfg.apiPassword ∧ cfg.requireApiKey ∧
          ¬ (isAsciiStr r.apiKey ∧ isAsciiStr cfg.apiKey))))

/-! ## One request -/

variable {cfg : BotHttpConfig}

/-- **The comparison raises an exception** exactly for strings that are not ASCII. -/
theorem checkCredentials_raised_iff (r : BotRequest) :
    checkCredentials cfg r = .raised ↔ ComparesNonAscii cfg r := by
  unfold checkCredentials ComparesNonAscii
  cases hp : parseBasicAuth r.authorization with
  | none => simp
  | some p =>
    obtain ⟨user, password⟩ := p
    simp only [Option.mem_def, Option.some.injEq, exists_eq_left']
    cases huser : compareDigest user cfg.apiUser with
    | none => simp [compareDigest_eq_none.mp huser]
    | some ok =>
      obtain ⟨hascii, rfl⟩ := compareDigest_eq_some.mp huser
      by_cases hu : user = cfg.apiUser
      swap
      · simp [hu, hascii]
      cases hpass : compareDigest password cfg.apiPassword with
      | none => simp [hu, compareDigest_eq_none.mp hpass]
      | some ok =>
        obtain ⟨hascii', rfl⟩ := compareDigest_eq_some.mp hpass
        by_cases hw : password = cfg.apiPassword
        swap
        · simp [hu, hw, hascii, hascii']
        cases hreq : cfg.requireApiKey with
        | false => simp [hu, hw, hascii, hascii']
        | true =>
          cases hkey : compareDigest r.apiKey cfg.apiKey with
          | none => simp [hu, hw, compareDigest_eq_none.mp hkey]
          | some ok =>
            obtain ⟨hascii'', rfl⟩ := compareDigest_eq_some.mp hkey
            by_cases hk : r.apiKey = cfg.apiKey <;> simp [hu, hw, hk, hascii, hascii', hascii'']

/-- The credentials are let through exactly when they are right, and the comparison does
not raise an exception. -/
theorem checkCredentials_accepted_iff (r : BotRequest) :
    checkCredentials cfg r = .accepted ↔ Authorized cfg r ∧ ¬ ComparesNonAscii cfg r := by
  rw [← checkCredentials_raised_iff]
  unfold checkCredentials Authorized
  cases hp : parseBasicAuth r.authorization with
  | none => simp
  | some p =>
    obtain ⟨user, password⟩ := p
    simp only [Option.some.injEq, Prod.mk.injEq]
    cases huser : compareDigest user cfg.apiUser with
    | none => simp
    | some ok =>
      obtain ⟨-, rfl⟩ := compareDigest_eq_some.mp huser
      by_cases hu : user = cfg.apiUser
      swap
      · simp [hu]
      cases hpass : compareDigest password cfg.apiPassword with
      | none => simp [hu]
      | some ok =>
        obtain ⟨-, rfl⟩ := compareDigest_eq_some.mp hpass
        by_cases hw : password = cfg.apiPassword
        swap
        · simp [hu, hw]
        cases hreq : cfg.requireApiKey with
        | false => simp [hu, hw]
        | true =>
          cases hkey : compareDigest r.apiKey cfg.apiKey with
          | none => simp [hu, hw]
          | some ok =>
            obtain ⟨-, rfl⟩ := compareDigest_eq_some.mp hkey
            by_cases hk : r.apiKey = cfg.apiKey <;> simp [hu, hw, hk]

/-- Behind the check for a ban nothing is refused as banned. -/
theorem checkCredentials_ne_blocked (r : BotRequest) : checkCredentials cfg r ≠ .blocked := by
  unfold checkCredentials
  repeat' split
  all_goals exact AuthReply.noConfusion

/-- **What calls `register_failure`**: wrong credentials that can be compared. -/
theorem registers_iff (r : BotRequest) :
    (checkCredentials cfg r).registers = true ↔
      ¬ Authorized cfg r ∧ ¬ ComparesNonAscii cfg r := by
  have hsplit : (checkCredentials cfg r).registers = true ↔
      checkCredentials cfg r ≠ .accepted ∧ checkCredentials cfg r ≠ .raised := by
    have hblocked : checkCredentials cfg r ≠ .blocked := checkCredentials_ne_blocked r
    cases h : checkCredentials cfg r <;> simp_all [AuthReply.registers]
  rw [hsplit, Ne, Ne, checkCredentials_accepted_iff, checkCredentials_raised_iff]
  tauto

variable {T : BanTracker}

/-- A banned address is refused, and nothing changes. -/
theorem authenticate_banned {r : BotRequest}
    (h : (T.isBlocked r.ip r.checkTime).1 = true) : authenticate cfg T r = ⟨.blocked, 0, T⟩ := by
  unfold authenticate BanTracker.isBlocked at *
  by_cases hopen : (T.blockedUntil r.ip).getD 0 ≤ r.checkTime
  · simp [hopen] at h
  · rw [if_neg hopen]

/-- The tracker behind a check that finds no ban. -/
def BanTracker.pop (T : BanTracker) (ip : String) : BanTracker :=
  { T with blockedUntil := Function.update T.blockedUntil ip none }

/-- Outside a ban the credentials decide. -/
theorem authenticate_eq {r : BotRequest}
    (h : ¬ (T.isBlocked r.ip r.checkTime).1 = true) :
    authenticate cfg T r =
      if (checkCredentials cfg r).registers then
        ⟨checkCredentials cfg r, 1, (T.pop r.ip).registerFailure cfg r.ip r.failTime⟩
      else ⟨checkCredentials cfg r, 0, T.pop r.ip⟩ := by
  unfold authenticate BanTracker.isBlocked BanTracker.pop at *
  split_ifs at h ⊢
  all_goals simp_all

/-- A failure does not touch other addresses. -/
theorem registerFailure_of_ne {ip other : String} (h : other ≠ ip) (now : ℚ) :
    (T.registerFailure cfg other now).failures ip = T.failures ip ∧
      (T.registerFailure cfg other now).blockedUntil ip = T.blockedUntil ip := by
  unfold BanTracker.registerFailure
  dsimp only
  split_ifs <;> simp [Function.update_of_ne (Ne.symm h)]

/-- A request does not touch other addresses. -/
theorem authenticate_of_ne (T : BanTracker) {r : BotRequest} {ip : String} (h : r.ip ≠ ip) :
    (authenticate cfg T r).tracker.failures ip = T.failures ip ∧
      (authenticate cfg T r).tracker.blockedUntil ip = T.blockedUntil ip := by
  have hpop : (T.pop r.ip).failures ip = T.failures ip ∧
      (T.pop r.ip).blockedUntil ip = T.blockedUntil ip :=
    ⟨rfl, Function.update_of_ne (Ne.symm h) _ _⟩
  by_cases hban : (T.isBlocked r.ip r.checkTime).1 = true
  · rw [authenticate_banned hban]
    exact ⟨rfl, rfl⟩
  · rw [authenticate_eq hban]
    split_ifs
    · obtain ⟨hfail, huntil⟩ :
          ((T.pop r.ip).registerFailure cfg r.ip r.failTime).failures ip = (T.pop r.ip).failures ip ∧
          ((T.pop r.ip).registerFailure cfg r.ip r.failTime).blockedUntil ip
            = (T.pop r.ip).blockedUntil ip :=
        registerFailure_of_ne h r.failTime
      exact ⟨hfail.trans hpop.1, huntil.trans hpop.2⟩
    · exact hpop

/-! ## Runs -/

/-- The tracker behind the requests. -/
def authAfter (cfg : BotHttpConfig) : BanTracker → List BotRequest → BanTracker
  | T, [] => T
  | T, r :: rs => authAfter cfg (authenticate cfg T r).tracker rs

/-- Each step of a run is one call of `_authenticate`. -/
theorem result_of_mem_authRun {rs : List BotRequest} {e : AuthStep}
    (h : e ∈ authRun cfg T rs) :
    e.result = authenticate cfg e.before e.request ∧ e.request ∈ rs := by
  induction rs generalizing T with
  | nil => exact absurd h List.not_mem_nil
  | cons r rs ih =>
    rcases List.mem_cons.mp h with rfl | h
    · exact ⟨rfl, List.mem_cons_self⟩
    · exact ⟨(ih h).1, List.mem_cons_of_mem _ (ih h).2⟩

/-- The two parts of a run that is cut are runs. -/
theorem authRun_eq_append {rs : List BotRequest} {a b : List AuthStep}
    (h : authRun cfg T rs = a ++ b) :
    ∃ rs₁ rs₂, rs = rs₁ ++ rs₂ ∧ a = authRun cfg T rs₁ ∧ b = authRun cfg (authAfter cfg T rs₁) rs₂ := by
  induction a generalizing T rs with
  | nil => exact ⟨[], rs, rfl, rfl, h.symm⟩
  | cons e a ih =>
    cases rs with
    | nil => exact absurd h (by simp [authRun])
    | cons r rs =>
      rw [authRun, List.cons_append, List.cons.injEq] at h
      obtain ⟨rfl, hrest⟩ := h
      obtain ⟨rs₁, rs₂, rfl, rfl, rfl⟩ := ih hrest
      exact ⟨r :: rs₁, rs₂, rfl, rfl, rfl⟩

/-- The failures of the address that are in the window before the time `tl`. -/
def recent (cfg : BotHttpConfig) (tl : ℚ) (T : BanTracker) (ip : String) : List ℚ :=
  (T.failures ip).filter (fun t => tl - t ≤ cfg.banWindowSeconds)

/-- Pruning at an earlier time keeps what counts at the time `tl`. -/
theorem filter_prune {now tl : ℚ} (h : now ≤ tl) (ts : List ℚ) :
    (ts.filter (fun t => now - t ≤ cfg.banWindowSeconds)).filter
        (fun t => tl - t ≤ cfg.banWindowSeconds) =
      ts.filter (fun t => tl - t ≤ cfg.banWindowSeconds) := by
  rw [List.filter_filter]
  refine List.filter_congr (fun t _ => ?_)
  rw [Bool.and_eq_left_iff_imp]
  simp only [decide_eq_true_eq]
  intro ht
  linarith

/-- **A failure without a ban** is one more in every window that it is in. -/
theorem recent_registerFailure {ip : String} {now tl : ℚ} (hle : now ≤ tl)
    (hin : tl - now ≤ cfg.banWindowSeconds)
    (hno : ((T.registerFailure cfg ip now).blockedUntil ip).isSome = false) :
    (recent cfg tl (T.registerFailure cfg ip now) ip).length = (recent cfg tl T ip).length + 1 := by
  unfold BanTracker.registerFailure at hno ⊢
  dsimp only at hno ⊢
  split_ifs at hno ⊢
  · simp at hno
  · unfold recent
    dsimp only
    rw [Function.update_self, List.filter_append, filter_prune hle, List.length_append,
      List.filter_singleton, decide_eq_true hin]
    rfl

/-- **Enough failures in the window are a ban.** -/
theorem blockedUntil_registerFailure {ip : String} {now : ℚ}
    (h : cfg.banAfterFails ≤ ((recent cfg now T ip).length + 1 : ℕ)) :
    (T.registerFailure cfg ip now).blockedUntil ip = some (now + cfg.banSeconds) := by
  unfold BanTracker.registerFailure
  dsimp only
  rw [if_pos]
  · exact Function.update_self _ _ _
  · rw [List.length_append, List.length_singleton]
    exact h

/-- **Failures without a ban among them** are all in the list, as far as they are in the
window. -/
theorem countP_fails_le {ip : String} {tl : ℚ} {rs : List BotRequest}
    (hreg : FailuresRegistered cfg (authRun cfg T rs))
    (hno : ∀ e ∈ authRun cfg T rs, e.request.ip = ip → ¬ e.PutsBan)
    (hin : ∀ e ∈ authRun cfg T rs, e.Fails cfg ip →
      tl - e.request.failTime ≤ cfg.banWindowSeconds)
    (hle : ∀ r ∈ rs, r.failTime ≤ tl) :
    (recent cfg tl T ip).length + (authRun cfg T rs).countP (fun e => e.Fails cfg ip) ≤
      (recent cfg tl (authAfter cfg T rs) ip).length := by
  induction rs generalizing T with
  | nil => simp [authRun, authAfter]
  | cons r rs ih =>
    rw [authRun, List.forall_mem_cons] at hno hin
    unfold FailuresRegistered at hreg
    rw [authRun, List.forall_mem_cons] at hreg
    rw [List.forall_mem_cons] at hle
    have hrest := ih hreg.2 hno.2 hin.2 hle.2
    rw [authRun, List.countP_cons, authAfter]
    refine le_trans ?_ hrest
    -- one request
    suffices hone : (recent cfg tl T ip).length +
        (if (⟨T, r, authenticate cfg T r⟩ : AuthStep).Fails cfg ip then 1 else 0) ≤
        (recent cfg tl (authenticate cfg T r).tracker ip).length by
      simp only [decide_eq_true_eq]
      omega
    by_cases hip : r.ip = ip
    swap
    · have hsame : recent cfg tl (authenticate cfg T r).tracker ip = recent cfg tl T ip := by
        unfold recent
        rw [(authenticate_of_ne T hip).1]
      rw [hsame, if_neg (fun hf => hip hf.1), Nat.add_zero]
    subst hip
    by_cases hban : (T.isBlocked r.ip r.checkTime).1 = true
    · rw [authenticate_banned hban, if_neg (fun hf => hf.2.1 hban), Nat.add_zero]
    have hpop : (recent cfg tl (T.pop r.ip) r.ip) = recent cfg tl T r.ip := rfl
    by_cases hfail : (⟨T, r, authenticate cfg T r⟩ : AuthStep).Fails cfg r.ip
    · rw [if_pos hfail]
      have hone := hreg.1 r.ip hfail
      have hputs := hno.1 rfl
      have hwin := hin.1 hfail
      rw [authenticate_eq hban] at hone hputs ⊢
      by_cases hr : (checkCredentials cfg r).registers = true
      swap
      · simp [hr] at hone
      rw [if_pos hr] at hputs ⊢
      have hnone : (((T.pop r.ip).registerFailure cfg r.ip r.failTime).blockedUntil r.ip).isSome
          = false := by
        by_contra hsome
        exact hputs ⟨hban, Bool.eq_true_of_not_eq_false hsome⟩
      rw [recent_registerFailure hle.1 hwin hnone, hpop]
    · rw [if_neg hfail, Nat.add_zero, authenticate_eq hban, if_neg, hpop]
      intro hr
      exact hfail ⟨rfl, hban, ((registers_iff r).mp hr).1⟩

/-- **A ban holds until its end**, whatever comes in the meantime. -/
theorem reply_of_blockedUntil {ip : String} {u : ℚ} {rs : List BotRequest} (htime : InTime rs)
    (hT : T.blockedUntil ip = some u) :
    ∀ e ∈ authRun cfg T rs, e.request.ip = ip → e.request.checkTime < u →
      e.result.reply = .blocked := by
  induction rs generalizing T with
  | nil => exact fun e he => absurd he List.not_mem_nil
  | cons r rs ih =>
    obtain ⟨hcheck, horder⟩ := htime
    rw [List.forall_mem_cons] at hcheck
    rw [List.pairwise_cons] at horder
    intro e he hip hlt
    have hrest : InTime rs := ⟨hcheck.2, horder.2⟩
    -- the head of the run is not later than `e`
    have hhead : r.checkTime < u := by
      rcases List.mem_cons.mp he with rfl | he
      · exact hlt
      · have hmem := (result_of_mem_authRun he).2
        linarith [horder.1 _ hmem, hcheck.1]
    have hban : r.ip = ip → (T.isBlocked r.ip r.checkTime).1 = true := by
      rintro rfl
      unfold BanTracker.isBlocked
      rw [hT, if_neg (by simpa using hhead)]
    rcases List.mem_cons.mp he with rfl | he
    · rw [authenticate_banned (hban hip)]
    · refine ih hrest ?_ e he hip hlt
      by_cases hr : r.ip = ip
      · rw [authenticate_banned (hban hr)]
        exact hT
      · rw [(authenticate_of_ne T hr).2]
        exact hT

/-! ## The promise -/

/-- **A failing request is registered** exactly when its credentials can be compared. -/
theorem registered_iff {r : BotRequest} {ip : String}
    (hfail : (⟨T, r, authenticate cfg T r⟩ : AuthStep).Fails cfg ip) :
    (authenticate cfg T r).registered = 1 ↔ ¬ ComparesNonAscii cfg r := by
  obtain ⟨-, hban, hwrong⟩ := hfail
  rw [authenticate_eq hban]
  have hiff : (checkCredentials cfg r).registers = true ↔
      ¬ Authorized cfg r ∧ ¬ ComparesNonAscii cfg r := registers_iff r
  split_ifs with hr
  · simp [(hiff.mp hr).2]
  · by_contra hne
    rw [not_iff] at hne
    exact hr (hiff.mpr ⟨hwrong, hne.mp (by simp)⟩)

/-- Registered failures lead to bans. -/
theorem banEnforced_of_registered {rs : List BotRequest} (htime : InTime rs)
    (hreg : FailuresRegistered cfg (authRun cfg .init rs)) :
    BanEnforced cfg (authRun cfg .init rs) := by
  intro ip pre mid last post htr hlast hno hin hcount e he hip hlt
  obtain ⟨rs₀, rs', rfl, rfl, h'⟩ := authRun_eq_append htr
  obtain ⟨rs₁, rs'', rfl, rfl, h''⟩ := authRun_eq_append h'.symm
  cases rs'' with
  | nil => exact absurd h'' (by simp [authRun])
  | cons r rs₂ =>
  rw [authRun, List.cons.injEq] at h''
  obtain ⟨rfl, rfl⟩ := h''
  generalize hT₀ : authAfter cfg .init rs₀ = T₀ at *
  generalize hT₁ : authAfter cfg T₀ rs₁ = T₁ at *
  obtain ⟨hcheck, horder⟩ := htime
  rw [List.pairwise_append] at horder
  have horder₁ := List.pairwise_append.mp horder.2.1
  have horder₂ := List.pairwise_cons.mp horder₁.2.1
  have hrtime : r.checkTime ≤ r.failTime := hcheck r (by simp)
  -- the failures before the last one are in the list
  have hreg₁ : FailuresRegistered cfg (authRun cfg T₀ rs₁) :=
    fun e he => hreg e (by rw [htr]; simp [he])
  have hbefore : ∀ q ∈ rs₁, q.failTime ≤ r.failTime := fun q hq =>
    (horder₁.2.2 q hq r List.mem_cons_self).trans hrtime
  have hrecent := countP_fails_le hreg₁ hno hin hbefore
  rw [hT₁] at hrecent
  rw [List.countP_append, List.countP_singleton, if_pos (decide_eq_true hlast)] at hcount
  -- so that the last one is a ban
  have hone : (authenticate cfg T₁ r).registered = 1 :=
    hreg ⟨T₁, r, authenticate cfg T₁ r⟩ (by rw [htr]; simp) ip hlast
  obtain ⟨rfl, hban, -⟩ := hlast
  have hset : (authenticate cfg T₁ r).tracker.blockedUntil r.ip =
      some (r.failTime + cfg.banSeconds) := by
    rw [authenticate_eq hban] at hone ⊢
    by_cases hr : (checkCredentials cfg r).registers = true
    · rw [if_pos hr]
      refine blockedUntil_registerFailure (hcount.trans ?_)
      have hpop : recent cfg r.failTime (T₁.pop r.ip) r.ip = recent cfg r.failTime T₁ r.ip := rfl
      rw [hpop]
      dsimp only at hrecent ⊢
      omega
    · simp [hr] at hone
  have htime₂ : InTime rs₂ := ⟨fun q hq => hcheck q (by simp [hq]), horder₂.2⟩
  exact reply_of_blockedUntil htime₂ hset e he hip hlt

/-- **When failures are registered and addresses are banned**: exactly when no request with
wrong credentials that comes outside a ban has strings compared that are not ASCII. -/
theorem bruteForceBan_iff (cfg : BotHttpConfig) (rs : List BotRequest) (htime : InTime rs) :
    (FailuresRegistered cfg (authRun cfg .init rs) ∧ BanEnforced cfg (authRun cfg .init rs)) ↔
      ∀ e ∈ authRun cfg .init rs, ¬ e.Banned → ¬ Authorized cfg e.request →
        ¬ ComparesNonAscii cfg e.request := by
  have hsame : FailuresRegistered cfg (authRun cfg .init rs) ↔
      ∀ e ∈ authRun cfg .init rs, ¬ e.Banned → ¬ Authorized cfg e.request →
        ¬ ComparesNonAscii cfg e.request := by
    refine forall₂_congr (fun e he => ?_)
    have hresult := (result_of_mem_authRun he).1
    obtain ⟨T, r, R⟩ := e
    dsimp only at hresult
    subst hresult
    constructor
    · intro h hban hwrong
      exact (registered_iff ⟨rfl, hban, hwrong⟩).mp (h r.ip ⟨rfl, hban, hwrong⟩)
    · intro h ip hfail
      exact (registered_iff hfail).mpr (h hfail.2.1 hfail.2.2)
  rw [← hsame]
  exact ⟨And.left, fun h => ⟨h, banEnforced_of_registered htime h⟩⟩

/-- Settings with the defaults of the module. -/
def BotHttpConfig.defaults : BotHttpConfig where
  apiUser := ['b', 'o', 't', 'a', 'p', 'i']
  apiPassword := ['p', 'w']
  apiKey := ['k']
  requireApiKey := true
  banAfterFails := 8
  banWindowSeconds := 300
  banSeconds := 900

/-- Nine requests without credentials, a second apart. -/
def nineRequests : List BotRequest := (List.range 9).map (fun i => ⟨"a", [], [], i, i⟩)

/-- The ninth is blocked. -/
theorem bruteForceBan_iff_nine :
    InTime nineRequests ∧ FailuresRegistered .defaults (authRun .defaults .init nineRequests) ∧
      BanEnforced .defaults (authRun .defaults .init nineRequests) ∧
      (authRun .defaults .init nineRequests).map (fun e => e.result.reply)
        = List.replicate 8 .missingAuth ++ [.blocked] := by
  have htime : InTime nineRequests := by
    constructor
    · simp [nineRequests]
    · simp only [nineRequests, List.range_succ]
      norm_num
  have hboth := (bruteForceBan_iff .defaults nineRequests htime).mpr
    (by simp [nineRequests, List.range_succ, authRun, ComparesNonAscii, parseBasicAuth])
  exact ⟨htime, hboth.1, hboth.2, by decide +kernel⟩

/-- The credentials `é:x`. -/
def accentedRequest : BotRequest :=
  ⟨"a", basicPrefix ++ ['w', '6', 'k', '6', 'e', 'A', '=', '='], [], 1, 1⟩

/-- A request with an accented user name is not registered. -/
theorem not_bruteForceBan : InTime [accentedRequest] ∧
    ¬ (FailuresRegistered .defaults (authRun .defaults .init [accentedRequest]) ∧
      BanEnforced .defaults (authRun .defaults .init [accentedRequest])) := by
  refine ⟨⟨by simp [accentedRequest], by simp⟩, fun h => ?_⟩
  have hone := h.1 ⟨.init, accentedRequest, authenticate .defaults .init accentedRequest⟩
    (by simp [authRun]) "a" (by decide +kernel)
  exact absurd hone (by decide +kernel)

end MtprotoProxy
