/-
# The rate limit of the bot interface

`RateLimiter` of `scripts/proxybot-httpd`.  A `float` is a rational number; a dictionary is
a function.  Each key has a token bucket of its own (`run_key`).

The clock is read before the lock is taken, so the times of the calls need not be in the
order in which the calls are made; the bound does not depend on it.
-/
import MtprotoProxy.TokenBucket

namespace MtprotoProxy

/-- `class RateLimiter`. -/
structure RateLimiter where
  capacity : ℚ
  refillPerSec : ℚ
  tokens : String → Option (ℚ × ℚ)

namespace RateLimiter

/-- `RateLimiter.__init__`. -/
def init (rpm : ℤ) : RateLimiter := ⟨rpm, rpm / 60, fun _ => none⟩

/-- `RateLimiter.allow`, when the clock says `now`. -/
def allow (L : RateLimiter) (key : String) (now : ℚ) : Bool × RateLimiter :=
  let (tok, ts) := (L.tokens key).getD (L.capacity, now)
  let tok := min L.capacity (tok + (now - ts) * L.refillPerSec)
  if tok < 1 then (false, { L with tokens := Function.update L.tokens key (some (tok, now)) })
  else (true, { L with tokens := Function.update L.tokens key (some (tok - 1, now)) })

/-- A call of `allow`: its key, and what the clock says. -/
structure Call where
  key : String
  now : ℚ
  deriving DecidableEq

/-- Calls in the order in which they take the lock, with their answers. -/
def run : RateLimiter → List Call → List (Call × Bool)
  | _, [] => []
  | L, c :: calls => (c, (L.allow c.key c.now).1) :: run (L.allow c.key c.now).2 calls

/-- The call is for the key and is allowed at a time from `s` to `t`. -/
def allowedIn (key : String) (s t : ℚ) (e : Call × Bool) : Bool :=
  decide (e.1.key = key) && TokenBucket.grantedIn s t (e.1.now, e.2)

variable (L : RateLimiter) (key : String) (now : ℚ)

/-- **A call is a request to the bucket of its key.** -/
theorem allow_eq :
    L.allow key now =
      ((TokenBucket.take L.capacity L.refillPerSec (L.tokens key) now).1,
        { L with
          tokens := Function.update L.tokens key
            (some (TokenBucket.take L.capacity L.refillPerSec (L.tokens key) now).2) }) := by
  have hlevel : min L.capacity (((L.tokens key).getD (L.capacity, now)).1 +
      (now - ((L.tokens key).getD (L.capacity, now)).2) * L.refillPerSec) =
      TokenBucket.level L.capacity L.refillPerSec (L.tokens key) now := by
    cases L.tokens key with
    | none => simp [TokenBucket.level]
    | some p => rfl
  unfold allow TokenBucket.take
  dsimp only
  rw [hlevel]
  split_ifs <;> rfl

@[simp] theorem allow_capacity : (L.allow key now).2.capacity = L.capacity := by rw [allow_eq]

@[simp] theorem allow_refillPerSec : (L.allow key now).2.refillPerSec = L.refillPerSec := by
  rw [allow_eq]

/-- What is stored for the key itself. -/
theorem allow_tokens_self : (L.allow key now).2.tokens key =
    some (TokenBucket.take L.capacity L.refillPerSec (L.tokens key) now).2 := by
  rw [allow_eq]
  exact Function.update_self _ _ _

/-- What is stored for other keys. -/
theorem allow_tokens_of_ne {other : String} (h : other ≠ key) :
    (L.allow other now).2.tokens key = L.tokens key := by
  rw [allow_eq]
  exact Function.update_of_ne (Ne.symm h) _ _

/-- The answers for a key are those of its bucket, whatever is asked for other keys. -/
theorem run_key (calls : List Call) :
    ((L.run calls).filter (fun e => e.1.key = key)).map (fun e => (e.1.now, e.2)) =
      TokenBucket.answers L.capacity L.refillPerSec (L.tokens key)
        ((calls.filter (fun c => c.key = key)).map Call.now) := by
  induction calls generalizing L with
  | nil => rfl
  | cons c calls ih =>
    have hrest := ih (L.allow c.key c.now).2
    rw [allow_capacity, allow_refillPerSec] at hrest
    rw [run, List.filter_cons, List.filter_cons]
    by_cases hkey : c.key = key
    · subst hkey
      simp only [decide_true, if_true, List.map_cons, TokenBucket.answers]
      rw [hrest, allow_tokens_self, allow_eq]
    · simp only [hkey, decide_false, Bool.false_eq_true, if_false]
      rw [hrest, allow_tokens_of_ne L key c.now hkey]

/-- Two limiters that know the same about a key answer the calls for it alike, though one
of them gets other calls as well. -/
theorem run_filter_of_agree {L M : RateLimiter} (hcap : L.capacity = M.capacity)
    (hrate : L.refillPerSec = M.refillPerSec) (htok : L.tokens key = M.tokens key)
    (calls : List Call) :
    (L.run calls).filter (fun e => e.1.key = key) = M.run (calls.filter (fun c => c.key = key)) := by
  induction calls generalizing L M with
  | nil => rfl
  | cons c calls ih =>
    rw [run, List.filter_cons, List.filter_cons]
    by_cases hkey : c.key = key
    · subst hkey
      simp only [decide_true, if_true, run]
      -- the two buckets are in the same state, before the call and after it
      have hans : (L.allow c.key c.now).1 = (M.allow c.key c.now).1 := by
        rw [allow_eq, allow_eq, hcap, hrate, htok]
      have htok' : (L.allow c.key c.now).2.tokens c.key = (M.allow c.key c.now).2.tokens c.key := by
        rw [allow_tokens_self, allow_tokens_self, hcap, hrate, htok]
      rw [hans, ih (M := (M.allow c.key c.now).2) (by simpa using hcap) (by simpa using hrate) htok']
    · simp only [hkey, decide_false, Bool.false_eq_true, if_false]
      exact ih (by simpa using hcap) (by simpa using hrate)
        (by rw [allow_tokens_of_ne L key c.now hkey, htok])

/-- What is allowed for a key is what its bucket grants. -/
theorem countP_allowedIn (s t : ℚ) (calls : List Call) :
    (L.run calls).countP (allowedIn key s t) =
      (TokenBucket.answers L.capacity L.refillPerSec (L.tokens key)
        ((calls.filter (fun c => c.key = key)).map Call.now)).countP
          (TokenBucket.grantedIn s t) := by
  rw [← run_key, List.countP_map, List.countP_filter]
  refine List.countP_congr (fun e _ => ?_)
  simp [allowedIn, and_comm]

/-- **The rate limit holds for every key and every interval of time**, and other keys do
not matter for it. -/
theorem allow_bounded (rpm : ℤ) (hrpm : 1 ≤ rpm) (key : String) (calls : List Call) :
    (∀ s t : ℚ, s ≤ t →
      (((init rpm).run calls).countP (allowedIn key s t) : ℚ) ≤ rpm + (t - s) * rpm / 60) ∧
      ((init rpm).run calls).filter (fun e => e.1.key = key) =
        (init rpm).run (calls.filter (fun c => c.key = key)) := by
  have hpos : (0 : ℚ) ≤ rpm := by exact_mod_cast (by omega : (0 : ℤ) ≤ rpm)
  constructor
  · intro s t hst
    rw [countP_allowedIn, mul_div_assoc]
    exact TokenBucket.countP_granted_le hpos (div_nonneg hpos (by norm_num)) hst _ _
  · exact run_filter_of_agree key rfl rfl rfl calls

/-- Four calls for two keys under a limit of one a minute. -/
theorem allow_bounded_one :
    let calls : List Call := [⟨"a", 0⟩, ⟨"b", 1⟩, ⟨"a", 2⟩, ⟨"a", 60⟩]
    1 ≤ (1 : ℤ) ∧ ((init 1).run calls).map Prod.snd = [true, true, false, true] ∧
      (((init 1).run calls).countP (allowedIn "a" 0 60) : ℚ) ≤ (1 : ℤ) + (60 - 0) * (1 : ℤ) / 60 :=
  ⟨le_refl 1, by decide +kernel,
    (allow_bounded 1 (le_refl 1) "a" _).1 0 60 (by norm_num)⟩

end RateLimiter

end MtprotoProxy
