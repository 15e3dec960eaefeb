/-
# Interleaved calls

Threads call the functions of a component, and their accesses to the memory that they share come in
any order.  A call that is under way is a `π`: its place in the code together with its local
variables.  `act s a s' b es` is one access, atomic as it is: the call `a` finds the memory `s`,
leaves `s'` and goes on as `b`, and the events `es` are put on record.  A call begins where `a` is
`none` and returns where `b` is `none`.

`Reaches` is any number of accesses by any number of calls.  The rules are `Reaches.invariant` and
`Reaches.along` (what every access preserves, every run preserves) and `Alone.reaches` (a call that
runs while the others stand still).

This file names nothing of the proxy.
-/
import Mathlib.Algebra.BigOperators.Group.Multiset.Basic
import Mathlib.Data.Multiset.Filter
import Mathlib.Data.Multiset.UnionInter
import Mathlib.Logic.Relation
import Mathlib.Tactic

namespace Activations

variable {σ π ε : Type*}

/-- The memory, the calls that are under way, and the events so far. -/
structure Config (σ π ε : Type*) where
  memory : σ
  calls : Multiset π
  record : List ε

/-- The calls that are under way where there is one at most. -/
def held : Option π → Multiset π
  | none => 0
  | some p => {p}

@[simp] theorem held_none : held (none : Option π) = 0 := rfl

@[simp] theorem held_some (p : π) : held (some p) = {p} := rfl

theorem of_mem_some {P : π → Prop} {p : π} (h : P p) : ∀ q ∈ some p, P q := by
  intro q hq
  rw [← Option.some.inj hq]
  exact h

/-- The other calls, with one that may be there. -/
theorem mem_held_add {a : Option π} {M : Multiset π} {p : π} :
    p ∈ held a + M ↔ p ∈ a ∨ p ∈ M := by
  cases a with
  | none => simp
  | some q => simp [eq_comm]

/-- What one activation holds beside the others. -/
theorem nodup_held_add {a : Option π} {M : Multiset π} :
    (held a + M).Nodup ↔ (∀ p ∈ a, p ∉ M) ∧ M.Nodup := by
  cases a with
  | none => simp
  | some q => simp

theorem filterMap_held_add {ρ : Type*} (f : π → Option ρ) (a : Option π) (M : Multiset π) :
    (held a + M).filterMap f = held (a.bind f) + M.filterMap f := by
  cases a with
  | none => simp
  | some p =>
    rw [held_some, Multiset.singleton_add]
    cases hp : f p with
    | none => simp [Multiset.filterMap_cons_none _ _ hp, hp]
    | some r => simp [Multiset.filterMap_cons_some _ _ _ hp, hp]

variable (act : σ → Option π → σ → Option π → List ε → Prop)

/-- One access by one of the calls. -/
inductive Step : Config σ π ε → Config σ π ε → Prop
  | mk {s s' : σ} {a b : Option π} {es : List ε} (M : Multiset π) (record : List ε)
      (hact : act s a s' b es) :
      Step ⟨s, held a + M, record⟩ ⟨s', held b + M, record ++ es⟩

/-- Accesses in any order. -/
def Reaches : Config σ π ε → Config σ π ε → Prop := Relation.ReflTransGen (Step act)

/-- One call alone. -/
inductive Alone : σ → Option π → σ → Option π → List ε → Prop
  | refl (s : σ) (a : Option π) : Alone s a s a []
  | tail {s s' s'' : σ} {a b c : Option π} {es fs : List ε} (h : Alone s a s' b es)
      (hact : act s' b s'' c fs) : Alone s a s'' c (es ++ fs)

variable {act}

/-- **Invariants.**  What every access preserves, every run preserves. -/
theorem Reaches.invariant {I : Config σ π ε → Prop} {c c' : Config σ π ε}
    (hstep : ∀ {s s' a b es} (M : Multiset π) (record : List ε), act s a s' b es →
      I ⟨s, held a + M, record⟩ → I ⟨s', held b + M, record ++ es⟩)
    (h : Reaches act c c') (hI : I c) : I c' := by
  induction h with
  | refl => exact hI
  | tail _ hlast ih =>
    cases hlast with
    | mk M record hact => exact hstep M record hact ih

/-- **Relations between the ends of a run.**  In every state of an invariant each access keeps the
relation to where the run began. -/
theorem Reaches.along {I : Config σ π ε → Prop} {R : Config σ π ε → Config σ π ε → Prop}
    {c c' : Config σ π ε}
    (hinv : ∀ {s s' a b es} (M : Multiset π) (record : List ε), act s a s' b es →
      I ⟨s, held a + M, record⟩ → I ⟨s', held b + M, record ++ es⟩)
    (hrel : ∀ {s s' a b es} (M : Multiset π) (record : List ε), act s a s' b es →
      I ⟨s, held a + M, record⟩ → R c ⟨s, held a + M, record⟩ →
      R c ⟨s', held b + M, record ++ es⟩)
    (h : Reaches act c c') (hI : I c) (hR : R c c) : R c c' := by
  have hboth : I c' ∧ R c c' := by
    refine Reaches.invariant (I := fun d => I d ∧ R c d) ?_ h ⟨hI, hR⟩
    rintro s s' a b es M record hact ⟨hId, hRd⟩
    exact ⟨hinv M record hact hId, hrel M record hact hId hRd⟩
  exact hboth.2

/-- One step, and one run behind another. -/
theorem Alone.single {s s' : σ} {a b : Option π} {es : List ε} (hact : act s a s' b es) :
    Alone act s a s' b es := (Alone.refl s a).tail hact

theorem Alone.trans {s s' s'' : σ} {a b c : Option π} {es fs : List ε}
    (h : Alone act s a s' b es) (h' : Alone act s' b s'' c fs) :
    Alone act s a s'' c (es ++ fs) := by
  induction h' with
  | refl =>
    rw [List.append_nil]
    exact h
  | tail _ hact ih =>
    rw [← List.append_assoc]
    exact (ih h).tail hact

/-- **A call that runs alone** leaves the others where they are. -/
theorem Alone.reaches {s s' : σ} {a b : Option π} {es : List ε} (h : Alone act s a s' b es)
    (M : Multiset π) (record : List ε) :
    Reaches act ⟨s, held a + M, record⟩ ⟨s', held b + M, record ++ es⟩ := by
  induction h with
  | refl =>
    rw [List.append_nil]
    exact Relation.ReflTransGen.refl
  | tail _ hact ih =>
    rw [← List.append_assoc]
    exact ih.tail (.mk M _ hact)

end Activations
