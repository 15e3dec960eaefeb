/-
# Token buckets

A bucket holds tokens up to a capacity and gets new ones at a rate; a request that finds a
whole token takes it and is granted.  What is stored is the number of tokens and the time
at which they were counted, nothing before the first request.

`countP_granted_le` bounds what is granted in an interval of time.  The times of the
requests may come in any order: the tokens counted back to the time zero (`worth`) never
grow, and every grant takes one of them.

This file names nothing of the proxy.
-/
import Mathlib

namespace TokenBucket

variable {α : Type*} [Field α] [LinearOrder α]

/-- The tokens at the time `now`. -/
def level (cap rate : α) (b : Option (α × α)) (now : α) : α :=
  match b with
  | none => cap
  | some (tok, z) => min cap (tok + (now - z) * rate)

/-- A request: whether it is granted, and what is stored then. -/
def take (cap rate : α) (b : Option (α × α)) (now : α) : Bool × (α × α) :=
  if level cap rate b now < 1 then (false, (level cap rate b now, now))
  else (true, (level cap rate b now - 1, now))

/-- The requests at these times, with their answers. -/
def answers (cap rate : α) : Option (α × α) → List α → List (α × Bool)
  | _, [] => []
  | b, now :: times =>
    (now, (take cap rate b now).1) :: answers cap rate (some (take cap rate b now).2) times

/-- The stored tokens, counted back to the time zero. -/
def worth (rate : α) (p : α × α) : α := p.1 - p.2 * rate

/-- The request is granted at a time from `s` to `t`. -/
def grantedIn (s t : α) (e : α × Bool) : Bool := e.2 && decide (s ≤ e.1) && decide (e.1 ≤ t)

variable {cap rate s t : α}

theorem level_le_cap (b : Option (α × α)) (now : α) : level cap rate b now ≤ cap := by
  cases b with
  | none => exact le_refl _
  | some p => exact min_le_left _ _

/-- A granted request found a whole token, and takes it. -/
theorem take_granted {b : Option (α × α)} {now : α} (h : (take cap rate b now).1 = true) :
    1 ≤ level cap rate b now ∧
      worth rate (take cap rate b now).2 = level cap rate b now - 1 - now * rate := by
  unfold take at h ⊢
  by_cases hlow : level cap rate b now < 1
  · simp [hlow] at h
  · rw [if_neg hlow]
    exact ⟨not_lt.mp hlow, rfl⟩

variable [IsStrictOrderedRing α]

/-- There are no more tokens than were stored and came since. -/
theorem level_le_worth (p : α × α) (now : α) :
    level cap rate (some p) now ≤ worth rate p + now * rate := by
  have h : level cap rate (some p) now ≤ p.1 + (now - p.2) * rate := min_le_right _ _
  unfold worth
  linarith [sub_mul now p.2 rate]

/-- A request adds nothing to what is stored. -/
theorem worth_take_le (b : Option (α × α)) (now : α) :
    worth rate (take cap rate b now).2 ≤ level cap rate b now - now * rate := by
  unfold take
  split_ifs
  · exact le_refl _
  · unfold worth
    dsimp only
    linarith

/-- **What is granted up to the time `t`** was stored, or came since. -/
theorem countP_granted_le_worth (hrate : 0 ≤ rate) (times : List α) (p : α × α) :
    (answers cap rate (some p) times).countP (grantedIn s t) = 0 ∨
      ((answers cap rate (some p) times).countP (grantedIn s t) : α) ≤
        worth rate p + t * rate := by
  induction times generalizing p with
  | nil => exact Or.inl rfl
  | cons now times ih =>
    rw [answers, List.countP_cons]
    have hlevel : level cap rate (some p) now ≤ worth rate p + now * rate := level_le_worth p now
    have hworth : worth rate (take cap rate (some p) now).2
        ≤ level cap rate (some p) now - now * rate := worth_take_le (some p) now
    have hrest := ih (take cap rate (some p) now).2
    by_cases hin : grantedIn s t (now, (take cap rate (some p) now).1) = true
    · rw [if_pos hin]
      simp only [grantedIn, Bool.and_eq_true, decide_eq_true_eq] at hin
      obtain ⟨⟨hgrant, -⟩, hle⟩ := hin
      obtain ⟨hone, htake⟩ := take_granted hgrant
      have hmul : now * rate ≤ t * rate := mul_le_mul_of_nonneg_right hle hrate
      right
      rcases hrest with hzero | hrest
      · rw [hzero, Nat.zero_add, Nat.cast_one]
        linarith
      · rw [Nat.cast_add, Nat.cast_one]
        linarith
    · rw [if_neg hin, Nat.add_zero]
      exact hrest.imp_right (fun h => by linarith)

/-- **The bound of a token bucket.**  In an interval of time no more requests are granted
than a full bucket has tokens, and come in that time. -/
theorem countP_granted_le (hcap : 0 ≤ cap) (hrate : 0 ≤ rate) (hst : s ≤ t) (times : List α)
    (b : Option (α × α)) :
    ((answers cap rate b times).countP (grantedIn s t) : α) ≤ cap + (t - s) * rate := by
  have hspan : 0 ≤ (t - s) * rate := mul_nonneg (sub_nonneg.mpr hst) hrate
  induction times generalizing b with
  | nil =>
    rw [answers, List.countP_nil, Nat.cast_zero]
    exact add_nonneg hcap hspan
  | cons now times ih =>
    rw [answers, List.countP_cons]
    by_cases hin : grantedIn s t (now, (take cap rate b now).1) = true
    · -- from the first grant in the interval on, the stored tokens are a bound
      rw [if_pos hin]
      simp only [grantedIn, Bool.and_eq_true, decide_eq_true_eq] at hin
      obtain ⟨⟨hgrant, hle⟩, -⟩ := hin
      obtain ⟨hone, htake⟩ := take_granted hgrant
      have hlevel : level cap rate b now ≤ cap := level_le_cap b now
      have hmul : s * rate ≤ now * rate := mul_le_mul_of_nonneg_right hle hrate
      rw [sub_mul] at hspan ⊢
      have hlater : (answers cap rate (some (take cap rate b now).2) times).countP
            (grantedIn s t) = 0 ∨
          ((answers cap rate (some (take cap rate b now).2) times).countP (grantedIn s t) : α) ≤
            worth rate (take cap rate b now).2 + t * rate :=
        countP_granted_le_worth hrate times _
      rcases hlater with hzero | hrest
      · rw [hzero, Nat.zero_add, Nat.cast_one]
        linarith
      · rw [Nat.cast_add, Nat.cast_one]
        linarith
    · rw [if_neg hin, Nat.add_zero]
      exact ih _

end TokenBucket
