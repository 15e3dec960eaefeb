/-
# Calls that end in a fault exactly when a condition fails

A call of a function that may end in a fault `f` is specified by the condition without which it
does, and by what a value it returns is like.  A specification of this form is exact in both
directions, and the rules follow the text of the program: a value, a fault, one call after
another.

This file names nothing of the proxy.
-/
import Mathlib

namespace CLib

variable {ε α β : Type} {f g : ε} {C D : Prop} {Q R : α → Prop} {x : Except ε α}

/-- The call ends in `f` exactly when `C` does not hold, and a value it returns has the
property `Q`. -/
structure FailsUnless (f : ε) (C : Prop) (Q : α → Prop) (x : Except ε α) : Prop where
  fails : x = .error f ↔ ¬ C
  gives : ∀ a, x = .ok a → Q a

namespace FailsUnless

theorem returns {a : α} (hC : C) (hQ : Q a) : FailsUnless f C Q (.ok a) where
  fails := iff_of_false (by simp) (not_not.mpr hC)
  gives := by
    intro b hb
    rw [← Except.ok.inj hb]
    exact hQ

theorem fault (hC : ¬ C) : FailsUnless f C Q (.error f) where
  fails := iff_of_true rfl hC
  gives := fun _ h => absurd h (by simp)

theorem otherFault (hne : g ≠ f) (hC : C) : FailsUnless f C Q (.error g) where
  fails := iff_of_false (fun h => hne (Except.error.inj h)) (not_not.mpr hC)
  gives := fun _ h => absurd h (by simp)

/-- The condition in other words. -/
theorem congr (h : FailsUnless f C Q x) (hCD : C ↔ D) : FailsUnless f D Q x :=
  ⟨h.fails.trans (not_congr hCD), h.gives⟩

/-- Less is said about the value. -/
theorem mono (h : FailsUnless f C Q x) (hQR : ∀ a, Q a → R a) : FailsUnless f C R x :=
  ⟨h.fails, fun a ha => hQR a (h.gives a ha)⟩

/-- A call that does not end in the fault meets its condition. -/
theorem holds (h : FailsUnless f C Q x) (hx : x ≠ .error f) : C := by
  by_contra hC
  exact hx (h.fails.mpr hC)

/-- **One call after another**: the second one has a condition for each value of the first. -/
theorem bind {R : β → Prop} {D : α → Prop} {k : α → Except ε β} (h : FailsUnless f C Q x)
    (hk : ∀ a, x = .ok a → Q a → FailsUnless f (D a) R (k a)) :
    FailsUnless f (C ∧ ∀ a, x = .ok a → D a) R (x >>= k) := by
  cases x with
  | error e =>
    -- the first call ends in the fault itself, or in another one
    by_cases he : e = f
    · subst he
      exact fault (fun hC => h.fails.mp rfl hC.1)
    · exact otherFault he ⟨h.holds (fun heq => he (Except.error.inj heq)),
        fun a ha => absurd ha (by simp)⟩
  | ok a =>
    have hC : C := h.holds (by simp)
    apply (hk a rfl (h.gives a rfl)).congr
    constructor
    · intro hD
      refine ⟨hC, fun b hb => ?_⟩
      rw [← Except.ok.inj hb]
      exact hD
    · exact fun hboth => hboth.2 a rfl

/-- What comes behind a call does not end in the fault. -/
theorem bind_quiet {R : β → Prop} {k : α → Except ε β} (h : FailsUnless f C Q x)
    (hk : ∀ a, Q a → ∃ b, k a = .ok b ∧ R b) : FailsUnless f C R (x >>= k) := by
  have hrest : ∀ a, x = .ok a → Q a → FailsUnless f True R (k a) := by
    intro a _ ha
    obtain ⟨b, hb, hR⟩ := hk a ha
    rw [hb]
    exact returns trivial hR
  exact (h.bind hrest).congr (and_iff_left (fun _ _ => trivial))

end FailsUnless

end CLib
