/-
# Programs that return

`Returns P m n Q` says that the programs `m` and `n` do not stop: from a state with `P`, both return
the same, and leave the same state, with `Q`.  For one program this is total correctness
(`n` is `m`); for two it says in addition that nobody can tell them apart.  The rules follow the
text of the programs.

This file names nothing of the proxy.
-/
import MtprotoProxy.Lockstep

namespace CLib

variable {σ α β : Type} {P P' : σ → Prop} {Q Q' : α → σ → Prop} {R : β → σ → Prop}
  {m m' n n' : StateT σ Option α} {f g : α → StateT σ Option β}

/-- From a state with `P`, both programs return the same `a` and leave the same state, with
`Q a`. -/
def Returns (P : σ → Prop) (m n : StateT σ Option α) (Q : α → σ → Prop) : Prop :=
  ∀ s, P s → ∃ a s', m s = some (a, s') ∧ n s = some (a, s') ∧ Q a s'

namespace Returns

/-- Less is known before, and more is asked for after. -/
theorem conseq (h : Returns P' m n Q') (hpre : ∀ s, P s → P' s) (hpost : ∀ a s, Q' a s → Q a s) :
    Returns P m n Q := by
  intro s hP
  obtain ⟨a, s', hm, hn, hQ⟩ := h s (hpre s hP)
  exact ⟨a, s', hm, hn, hpost a s' hQ⟩

theorem post (h : Returns P m n Q') (hpost : ∀ a s, Q' a s → Q a s) : Returns P m n Q :=
  h.conseq (fun _ hP => hP) hpost

theorem pure {a : α} (h : ∀ s, P s → Q a s) : Returns P (Pure.pure a) (Pure.pure a) Q :=
  fun s hP => ⟨a, s, rfl, rfl, h s hP⟩

/-- **Sequencing.** -/
theorem bind (hm : Returns P m n Q) (hf : ∀ a, Returns (Q a) (f a) (g a) R) :
    Returns P (m >>= f) (n >>= g) R := by
  intro s hP
  change ∃ b s', (m s).bind (fun x => f x.1 x.2) = some (b, s') ∧
    (n s).bind (fun x => g x.1 x.2) = some (b, s') ∧ R b s'
  obtain ⟨a, s', hm', hn', hQ⟩ := hm s hP
  rw [hm', hn']
  exact hf a s' hQ

/-- What comes after a program that returns may stop. -/
theorem bind_eq_none (hm : Returns P m n Q) (hf : ∀ a s, Q a s → f a s = none) {s : σ}
    (hP : P s) : (m >>= f) s = none := by
  change (m s).bind (fun x => f x.1 x.2) = none
  obtain ⟨a, s', hrun, -, hQ⟩ := hm s hP
  rw [hrun]
  exact hf a s' hQ

theorem ite {c : Prop} [Decidable c] (hpos : c → Returns P m n Q) (hneg : ¬c → Returns P m' n' Q) :
    Returns P (if c then m else m') (if c then n else n') Q := by
  by_cases hc : c
  · rw [if_pos hc, if_pos hc]
    exact hpos hc
  · rw [if_neg hc, if_neg hc]
    exact hneg hc

/-- What an assertion says has to hold. -/
theorem assert {c : Prop} [Decidable c] (hc : c) :
    Returns P (CLib.assert c) (CLib.assert c) (fun _ => P) :=
  fun s hP => ⟨(), s, if_pos hc, if_pos hc, hP⟩

/-- A fact that does not depend on the state. -/
theorem given {F : Prop} (h : F → Returns P m n Q) : Returns (fun s => F ∧ P s) m n Q :=
  fun s hP => h hP.1 s hP.2

/-- One of two things is known before. -/
theorem or (h : Returns P m n Q) (h' : Returns P' m n Q) : Returns (fun s => P s ∨ P' s) m n Q :=
  fun s hP => hP.elim (h s) (h' s)

end Returns

end CLib
