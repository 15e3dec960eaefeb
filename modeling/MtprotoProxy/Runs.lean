/-
# Runs of a partial step function

A machine given as a function `step : σ → ε → Option σ` on states and events; `none`
means that the event does not lead to a next state.  `run` takes a list of events,
and `Along` says that a condition on the current state and the next event holds at
every step of the run.

The induction rules are `run_invariant` (what every step preserves, the run preserves),
`along_congr` (conditions that agree under an invariant agree along a run), `run_exact` (an
invariant that knows whether a condition has held so far), `run_total` (where every step is
defined, so is the run), `run_defined_iff` (where certain steps are the defined ones) and
`run_relation` (a reflexive and transitive relation that every step respects relates the ends of
the run).  `some_bind` carries out a step of a `do` block.

This file names nothing of the proxy.
-/
import Mathlib

/-- A step of a `do` block that returns. -/
theorem some_bind {α β : Type _} (a : α) (f : α → Option β) : (some a >>= f) = f a := rfl

namespace Runs

variable {σ ε : Type*} {step : σ → ε → Option σ}

/-- The state after a list of events. -/
def run (step : σ → ε → Option σ) : σ → List ε → Option σ
  | s, [] => some s
  | s, e :: es =>
    match step s e with
    | none => none
    | some s' => run step s' es

/-- The condition `C` holds at every step of the run. -/
def Along (step : σ → ε → Option σ) (C : σ → ε → Prop) : σ → List ε → Prop
  | _, [] => True
  | s, e :: es =>
    C s e ∧
      match step s e with
      | none => True
      | some s' => Along step C s' es

instance decidableAlong (step : σ → ε → Option σ) (C : σ → ε → Prop) [∀ s e, Decidable (C s e)] :
    ∀ s es, Decidable (Along step C s es)
  | _, [] => isTrue trivial
  | s, e :: es =>
    match h : step s e with
    | none => decidable_of_iff (C s e) (by simp [Along, h])
    | some s' =>
      have := decidableAlong step C s' es
      decidable_of_iff (C s e ∧ Along step C s' es) (by simp [Along, h])

@[simp] theorem run_nil (s : σ) : run step s [] = some s := rfl

/-- A run that takes a first step and gets on. -/
theorem run_cons {s s' : σ} {e : ε} {es : List ε} :
    run step s (e :: es) = some s' ↔ ∃ t, step s e = some t ∧ run step t es = some s' := by
  rw [run]
  cases h : step s e with
  | none => simp
  | some t => simp

/-- Two runs, one after the other. -/
theorem run_append {s s' : σ} {es fs : List ε} :
    run step s (es ++ fs) = some s' ↔ ∃ t, run step s es = some t ∧ run step t fs = some s' := by
  induction es generalizing s with
  | nil => simp
  | cons e es ih =>
    rw [List.cons_append, run_cons]
    constructor
    · rintro ⟨t, ht, hrest⟩
      obtain ⟨u, hu, hfs⟩ := ih.mp hrest
      exact ⟨u, (run_cons).mpr ⟨t, ht, hu⟩, hfs⟩
    · rintro ⟨u, hes, hfs⟩
      obtain ⟨t, ht, hu⟩ := (run_cons).mp hes
      exact ⟨t, ht, ih.mpr ⟨u, hu, hfs⟩⟩

variable {C : σ → ε → Prop}

/-- A condition that these events meet in every state. -/
theorem along_of_always :
    ∀ {es : List ε} {s : σ}, (∀ s, ∀ e ∈ es, C s e) → Along step C s es := by
  intro es
  induction es with
  | nil => intro s _; trivial
  | cons e es ih =>
    intro s h
    refine ⟨h s e List.mem_cons_self, ?_⟩
    split
    · trivial
    · exact ih (fun s' e' he' => h s' e' (List.mem_cons_of_mem _ he'))

/-- A condition on the events alone holds along every run of such events. -/
theorem along_of_forall {C : ε → Prop} :
    ∀ {es : List ε} {s : σ}, (∀ e ∈ es, C e) → Along step (fun _ e => C e) s es := by
  intro es s h
  exact along_of_always (fun _ => h)

/-- A condition along two runs, one after the other. -/
theorem along_append :
    ∀ {es fs : List ε} {s : σ}, Along step C s (es ++ fs) ↔
      Along step C s es ∧ ∀ t, run step s es = some t → Along step C t fs := by
  intro es
  induction es with
  | nil => intro fs s; simp [Along]
  | cons e es ih =>
    intro fs s
    rw [List.cons_append, Along, Along, run]
    cases step s e with
    | none => simp
    | some t => simp only [ih, and_assoc]

/-- Two conditions along one run. -/
theorem along_and {C D : σ → ε → Prop} :
    ∀ {es : List ε} {s : σ}, Along step C s es → Along step D s es →
      Along step (fun s e => C s e ∧ D s e) s es := by
  intro es
  induction es with
  | nil => intro s _ _; trivial
  | cons e es ih =>
    intro s hC hD
    obtain ⟨hCe, hCrest⟩ := hC
    obtain ⟨hDe, hDrest⟩ := hD
    refine ⟨⟨hCe, hDe⟩, ?_⟩
    revert hCrest hDrest
    cases step s e with
    | none => exact fun _ _ => trivial
    | some t => exact ih

/-- **Invariants.**  What every step that meets `C` preserves, a run along `C` preserves. -/
theorem run_invariant {P : σ → Prop}
    (hstep : ∀ s e s', P s → C s e → step s e = some s' → P s') :
    ∀ {es : List ε} {s s' : σ}, P s → Along step C s es → run step s es = some s' → P s' := by
  intro es
  induction es with
  | nil =>
    intro s s' hP _ hrun
    rw [← Option.some.inj hrun]
    exact hP
  | cons e es ih =>
    intro s s' hP hC hrun
    obtain ⟨t, ht, hrest⟩ := (run_cons).mp hrun
    obtain ⟨hCe, hCrest⟩ := hC
    rw [ht] at hCrest
    exact ih (hstep s e t hP hCe ht) hCrest hrest

/-- **Equivalent conditions.**  Two conditions that agree in every state of an invariant
agree along every run that starts in it. -/
theorem along_congr {C D : σ → ε → Prop} {P : σ → Prop}
    (hstep : ∀ s e s', P s → step s e = some s' → P s') (hiff : ∀ s e, P s → (C s e ↔ D s e)) :
    ∀ {es : List ε} {s : σ}, P s → (Along step C s es ↔ Along step D s es) := by
  intro es
  induction es with
  | nil => exact fun _ => Iff.rfl
  | cons e es ih =>
    intro s hP
    rw [Along, Along, hiff s e hP]
    cases hs : step s e with
    | none => exact Iff.rfl
    | some t => exact and_congr_right (fun _ => ih (hstep s e t hP hs))

/-- **Exact conditions.**  What every step preserves together with the knowledge whether `C`
has held so far, a run preserves together with the knowledge whether it went along `C`. -/
theorem run_exact {P : Prop → σ → Prop}
    (hstep : ∀ sofar s e s', P sofar s → step s e = some s' → P (sofar ∧ C s e) s') :
    ∀ {es : List ε} {sofar : Prop} {s s' : σ}, P sofar s → run step s es = some s' →
      P (sofar ∧ Along step C s es) s' := by
  intro es
  induction es with
  | nil =>
    intro sofar s s' hP hrun
    rw [← Option.some.inj hrun]
    simpa [Along] using hP
  | cons e es ih =>
    intro sofar s s' hP hrun
    obtain ⟨t, ht, hrest⟩ := (run_cons).mp hrun
    have hend := ih (hstep sofar s e t hP ht) hrest
    rwa [and_assoc, show (C s e ∧ Along step C t es) = Along step C s (e :: es) by
      rw [Along, ht]] at hend

/-- **Total runs.**  When every step that meets `C` from an invariant state is defined, so
is a run along `C`. -/
theorem run_total {P : σ → Prop}
    (hstep : ∀ s e, P s → C s e → ∃ s', step s e = some s' ∧ P s') :
    ∀ {es : List ε} {s : σ}, P s → Along step C s es → ∃ s', run step s es = some s' ∧ P s' := by
  intro es
  induction es with
  | nil => intro s hP _; exact ⟨s, rfl, hP⟩
  | cons e es ih =>
    intro s hP hC
    obtain ⟨hCe, hCrest⟩ := hC
    obtain ⟨t, ht, hPt⟩ := hstep s e hP hCe
    rw [ht] at hCrest
    obtain ⟨s', hs', hPs'⟩ := ih hPt hCrest
    exact ⟨s', (run_cons).mpr ⟨t, ht, hs'⟩, hPs'⟩

/-- **Where the steps that meet `C` are the defined ones**, the runs along `C` are the defined
ones. -/
theorem run_defined_iff {P : σ → Prop}
    (hstep : ∀ s e, P s → C s e → ∃ s', step s e = some s' ∧ P s')
    (hnone : ∀ s e, P s → ¬ C s e → step s e = none) {es : List ε} {s : σ} (hP : P s) :
    (∃ s', run step s es = some s' ∧ P s') ↔ Along step C s es := by
  constructor
  · intro hrun
    induction es generalizing s with
    | nil => trivial
    | cons e es ih =>
      obtain ⟨s', hrun, hP'⟩ := hrun
      obtain ⟨t, ht, hrest⟩ := (run_cons).mp hrun
      have hC : C s e := by
        by_contra hC
        rw [hnone s e hP hC] at ht
        cases ht
      obtain ⟨u, hu, hPu⟩ := hstep s e hP hC
      obtain rfl : u = t := Option.some.inj (hu.symm.trans ht)
      rw [Along, hu]
      exact ⟨hC, ih hPu ⟨s', hrest, hP'⟩⟩
  · exact run_total hstep hP

/-- A condition that follows from another one in every state of an invariant. -/
theorem along_of_invariant {C D : σ → ε → Prop} {P : σ → Prop}
    (hstep : ∀ s e s', P s → C s e → step s e = some s' → P s')
    (hD : ∀ s e, P s → C s e → D s e) :
    ∀ {es : List ε} {s : σ}, P s → Along step C s es → Along step D s es := by
  intro es
  induction es with
  | nil => exact fun _ _ => trivial
  | cons e es ih =>
    intro s hP hC
    obtain ⟨hCe, hCrest⟩ := hC
    refine ⟨hD s e hP hCe, ?_⟩
    cases ht : step s e with
    | none => trivial
    | some t =>
      rw [ht] at hCrest
      exact ih (hstep s e t hP hCe ht) hCrest

/-- **Relations between the ends.**  A preorder that every step from an invariant state
respects relates the ends of a run. -/
theorem run_relation {P : σ → Prop} {R : σ → σ → Prop}
    (hrefl : ∀ s, R s s) (htrans : ∀ {a b c}, R a b → R b c → R a c)
    (hstep : ∀ s e s', P s → C s e → step s e = some s' → P s' ∧ R s s') :
    ∀ {es : List ε} {s s' : σ}, P s → Along step C s es → run step s es = some s' → R s s' := by
  intro es
  induction es with
  | nil =>
    intro s s' _ _ hrun
    rw [← Option.some.inj hrun]
    exact hrefl s
  | cons e es ih =>
    intro s s' hP hC hrun
    obtain ⟨t, ht, hrest⟩ := (run_cons).mp hrun
    obtain ⟨hCe, hCrest⟩ := hC
    rw [ht] at hCrest
    obtain ⟨hPt, hRt⟩ := hstep s e t hP hCe ht
    exact htrans hRt (ih hPt hCrest hrest)

end Runs
