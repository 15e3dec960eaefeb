/-
# Counted references

A call may take references, give them back and pass them on.  `Traced` is a computation that
writes down what it does with references; `erase` forgets this again.  `Settles held x left` says
that a call of `x` that holds the references `held` never gives one away that it does not hold,
and is left with `left` when it returns.  The rule `Settles.bind` puts calls
together.

This file names nothing of the proxy.
-/
import MtprotoProxy.Runs

namespace CLib

variable {ε κ α β : Type}

/-! ## What is done with references -/

/-- What a computation does with a reference. -/
inductive RefEvent (κ : Type) : Type where
  /-- a reference to `c` is obtained -/
  | take (c : κ) : RefEvent κ
  /-- it is given back -/
  | drop (c : κ) : RefEvent κ
  /-- it is handed on to another part of the program -/
  | pass (c : κ) : RefEvent κ
  deriving DecidableEq

/-- A reference to `c` is given away; `none` if there is none. -/
def giveAway [DecidableEq κ] (held : Multiset κ) (c : κ) : Option (Multiset κ) :=
  if c ∈ held then some (held.erase c) else none

/-- The references that are held after an event. -/
def RefEvent.step [DecidableEq κ] (held : Multiset κ) : RefEvent κ → Option (Multiset κ)
  | .take c => some (c ::ₘ held)
  | .drop c => giveAway held c
  | .pass c => giveAway held c

/-- The references that are held after a list of events. -/
def account [DecidableEq κ] : Multiset κ → List (RefEvent κ) → Option (Multiset κ) :=
  Runs.run RefEvent.step

/-- A reference that is held can be given away. -/
theorem giveAway_cons [DecidableEq κ] (held : Multiset κ) (c : κ) :
    giveAway (c ::ₘ held) c = some held := by
  unfold giveAway
  rw [if_pos (Multiset.mem_cons_self c held), Multiset.erase_cons_head]

/-! ## Computations that write it down -/

/-- A computation that may fail and that writes down what it does with references. -/
def Traced (ε κ α : Type) : Type := Except ε (α × List (RefEvent κ))

namespace Traced

/-- No reference is touched. -/
def lift (x : Except ε α) : Traced ε κ α := x.map (fun a => (a, []))

instance : Monad (Traced ε κ) where
  pure a := .ok (a, [])
  bind x f :=
    match x with
    | .error err => .error err
    | .ok (a, es) =>
      match f a with
      | .error err => .error err
      | .ok (b, fs) => .ok (b, es ++ fs)

instance : MonadLift (Except ε) (Traced ε κ) := ⟨lift⟩

/-- One event. -/
def event (e : RefEvent κ) : Traced ε κ Unit := .ok ((), [e])

/-- A reference is obtained. -/
def take (c : κ) : Traced ε κ Unit := event (.take c)

/-- A reference is given back. -/
def drop (c : κ) : Traced ε κ Unit := event (.drop c)

/-- A reference is handed on. -/
def pass (c : κ) : Traced ε κ Unit := event (.pass c)

/-- The computation without its notes. -/
def erase (x : Traced ε κ α) : Except ε α := Except.map Prod.fst x

/-- Without the events, a traced program is the program it traces. -/
@[simp] theorem erase_pure (a : α) : erase (pure a : Traced ε κ α) = .ok a := rfl

@[simp] theorem erase_lift (x : Except ε α) : erase (lift x : Traced ε κ α) = x := by
  cases x <;> rfl

@[simp] theorem erase_monadLift (x : Except ε α) :
    erase (MonadLift.monadLift x : Traced ε κ α) = x := erase_lift x

@[simp] theorem erase_event (e : RefEvent κ) : erase (event e : Traced ε κ Unit) = .ok () := rfl

@[simp] theorem erase_take (c : κ) : erase (take c : Traced ε κ Unit) = .ok () := rfl

@[simp] theorem erase_drop (c : κ) : erase (drop c : Traced ε κ Unit) = .ok () := rfl

@[simp] theorem erase_pass (c : κ) : erase (pass c : Traced ε κ Unit) = .ok () := rfl

/-- The notes of one part do not change what the next one does. -/
@[simp] theorem erase_bind (x : Traced ε κ α) (f : α → Traced ε κ β) :
    erase (x >>= f) = erase x >>= fun a => erase (f a) := by
  cases x with
  | error err => rfl
  | ok p =>
    obtain ⟨a, es⟩ := p
    show erase (match f a with
      | .error err => .error err
      | .ok (b, fs) => .ok (b, es ++ fs)) = erase (f a)
    cases f a with
    | error err => rfl
    | ok q => rfl

/-- What a computation writes down, if it does not fail. -/
def events (x : Traced ε κ α) : Option (List (RefEvent κ)) :=
  match x with
  | .error _ => none
  | .ok (_, es) => some es

/-- Events are left only by a program that returns. -/
theorem exists_of_events {x : Traced ε κ α} {es : List (RefEvent κ)} (h : x.events = some es) :
    ∃ a, x = .ok (a, es) := by
  cases x with
  | error err => cases h
  | ok p =>
    cases h
    exact ⟨p.1, rfl⟩

end Traced

/-! ## Rules -/

section Rules

variable [DecidableEq κ]

/-- **A call of `x` that holds `held` is left with `left`** when it returns. -/
def Settles (held : Multiset κ) (x : Traced ε κ α) (left : α → Multiset κ) : Prop :=
  ∀ a es, x = .ok (a, es) → account held es = some (left a)

variable {held : Multiset κ} {x : Traced ε κ α} {left : α → Multiset κ}

/-- A program that does nothing leaves what was held. -/
theorem Settles.pure {a : α} (h : left a = held) : Settles held (Pure.pure a : Traced ε κ α) left := by
  intro b es hok
  cases hok
  rw [h]
  rfl

theorem Settles.lift {y : Except ε α} : Settles held (Traced.lift y) (fun _ => held) := by
  intro a es hok
  cases y with
  | error err => cases hok
  | ok b =>
    cases hok
    rfl

/-- An event changes what is held as its step says. -/
theorem Settles.event {e : RefEvent κ} {t : Multiset κ} (h : e.step held = some t) :
    Settles held (Traced.event e : Traced ε κ Unit) (fun _ => t) := by
  intro a es hok
  cases hok
  exact Runs.run_cons.mpr ⟨t, h, rfl⟩

/-- The three events: a reference is taken, dropped, or passed on. -/
theorem Settles.take (c : κ) : Settles held (Traced.take c : Traced ε κ Unit) (fun _ => c ::ₘ held) :=
  Settles.event rfl

theorem Settles.drop (c : κ) :
    Settles (c ::ₘ held) (Traced.drop c : Traced ε κ Unit) (fun _ => held) :=
  Settles.event (giveAway_cons held c)

theorem Settles.pass (c : κ) :
    Settles (c ::ₘ held) (Traced.pass c : Traced ε κ Unit) (fun _ => held) :=
  Settles.event (giveAway_cons held c)

/-- One part after the other, where the second may rest on what the first returned. -/
theorem Settles.bind_erase {f : α → Traced ε κ β} {end_ : β → Multiset κ}
    (hx : Settles held x left) (hf : ∀ a, x.erase = .ok a → Settles (left a) (f a) end_) :
    Settles held (x >>= f) end_ := by
  intro b es hok
  cases x with
  | error err => cases hok
  | ok p =>
    obtain ⟨a, es₁⟩ := p
    have hok' : (match f a with
      | .error err => .error err
      | .ok (b, fs) => .ok (b, es₁ ++ fs) : Except ε (β × List (RefEvent κ))) = .ok (b, es) := hok
    cases hfa : f a with
    | error err =>
      rw [hfa] at hok'
      cases hok'
    -- the notes of both parts follow each other
    | ok q =>
      rw [hfa] at hok'
      cases hok'
      exact Runs.run_append.mpr ⟨left a, hx a es₁ rfl, hf a rfl q.1 q.2 hfa⟩

/-- One part after the other. -/
theorem Settles.bind {f : α → Traced ε κ β} {end_ : β → Multiset κ} (hx : Settles held x left)
    (hf : ∀ a, Settles (left a) (f a) end_) : Settles held (x >>= f) end_ :=
  hx.bind_erase (fun a _ => hf a)

end Rules

end CLib
