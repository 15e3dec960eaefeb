/-
# Two programs in lockstep

A program with a state is a `StateT σ Option`: it has no result when it stops.  Two programs with
states of their own agree when, from related states, both stop, or both return the same and leave
related states.  The rules follow the text of the programs, as the rules of a program logic do.

This file names nothing of the proxy.
-/
import Mathlib

namespace CLib

variable {σ τ α β : Type} {P P' : σ → τ → Prop} {Q Q' : α → σ → τ → Prop}
  {R : β → σ → τ → Prop} {m m' : StateT σ Option α} {n n' : StateT τ Option α}
  {f : α → StateT σ Option β} {g : α → StateT τ Option β}

/-- A program stops when the condition does not hold. -/
def assert (c : Prop) [Decidable c] : StateT σ Option Unit :=
  fun s => if c then some ((), s) else none

/-- From states related by `P`, both programs stop, or both return the same `a` and leave states
related by `Q a`. -/
def Agrees (P : σ → τ → Prop) (m : StateT σ Option α) (n : StateT τ Option α)
    (Q : α → σ → τ → Prop) : Prop :=
  ∀ s t, P s t → (m s = none ∧ n t = none) ∨
    ∃ a s' t', m s = some (a, s') ∧ n t = some (a, t') ∧ Q a s' t'

namespace Agrees

/-- Less is known before, and more is asked for after. -/
theorem conseq (h : Agrees P' m n Q') (hpre : ∀ s t, P s t → P' s t)
    (hpost : ∀ a s t, Q' a s t → Q a s t) : Agrees P m n Q := by
  intro s t hP
  obtain hstop | ⟨a, s', t', hm, hn, hQ⟩ := h s t (hpre s t hP)
  · exact .inl hstop
  · exact .inr ⟨a, s', t', hm, hn, hpost a s' t' hQ⟩

theorem pre (h : Agrees P' m n Q) (hpre : ∀ s t, P s t → P' s t) : Agrees P m n Q :=
  h.conseq hpre (fun _ _ _ hQ => hQ)

theorem post (h : Agrees P m n Q') (hpost : ∀ a s t, Q' a s t → Q a s t) : Agrees P m n Q :=
  h.conseq (fun _ _ hP => hP) hpost

theorem pure {a : α} (h : ∀ s t, P s t → Q a s t) : Agrees P (Pure.pure a) (Pure.pure a) Q :=
  fun s t hP => .inr ⟨a, s, t, rfl, rfl, h s t hP⟩

/-- **Sequencing.** -/
theorem bind (hm : Agrees P m n Q) (hf : ∀ a, Agrees (Q a) (f a) (g a) R) :
    Agrees P (m >>= f) (n >>= g) R := by
  intro s t hP
  change ((m s).bind (fun x => f x.1 x.2) = none ∧ (n t).bind (fun y => g y.1 y.2) = none) ∨
    ∃ b s' t', (m s).bind (fun x => f x.1 x.2) = some (b, s') ∧
      (n t).bind (fun y => g y.1 y.2) = some (b, t') ∧ R b s' t'
  obtain ⟨hm', hn'⟩ | ⟨a, s', t', hm', hn', hQ⟩ := hm s t hP
  · exact .inl ⟨by rw [hm', Option.bind_none], by rw [hn', Option.bind_none]⟩
  · rw [hm', hn']
    exact hf a s' t' hQ

theorem ite {c : Prop} [Decidable c] (hpos : c → Agrees P m n Q) (hneg : ¬c → Agrees P m' n' Q) :
    Agrees P (if c then m else m') (if c then n else n') Q := by
  by_cases hc : c
  · rw [if_pos hc, if_pos hc]
    exact hpos hc
  · rw [if_neg hc, if_neg hc]
    exact hneg hc

/-- After an assertion, what it says is known. -/
theorem assert {c : Prop} [Decidable c] :
    Agrees P (CLib.assert c) (CLib.assert c) (fun _ s t => P s t ∧ c) := by
  intro s t hP
  by_cases hc : c
  · exact .inr ⟨(), s, t, if_pos hc, if_pos hc, hP, hc⟩
  · exact .inl ⟨if_neg hc, if_neg hc⟩

end Agrees

end CLib
