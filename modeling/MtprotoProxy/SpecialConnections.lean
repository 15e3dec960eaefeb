/-
# The limit on special connections

`active_special_connections` of `net/net-connections.c`: the main thread accepts on special
listening sockets and takes a socket out of epoll when the limit is reached; the threads that
close connections signal `JS_AUX` to all special listening sockets when the counter leaves the
limit, and the main thread then puts them back.

One step is one atomic operation: a change of the counter, a read of it, a change of epoll, one
signal, the handling of one signal.  `Announced` says why a socket that is out of epoll will
come back.
-/
import MtprotoProxy.Runs

namespace MtprotoProxy

/-- Where the main thread is in `alloc_new_connection`: outside, behind the increment, or
behind a read that has found the limit reached. -/
inductive MainThread where
  | idle
  | accepted (i : ℕ)
  | removing (i : ℕ)
  deriving DecidableEq

/-- The special listening sockets are `0, …, specialListenSockets - 1`.  `aux i` is a pending
`JS_AUX`; `closers` are the threads inside the loop of `cpu_server_close_connection`, each with
the next socket it signals; `open` is the number of special connections that can be closed. -/
structure ListenState where
  maxSpecialConnections : ℤ
  specialListenSockets : ℕ
  activeSpecialConnections : ℤ
  inEpoll : ℕ → Bool
  aux : ℕ → Bool
  main : MainThread
  openConns : ℕ
  closers : List ℕ

/-- The state when all sockets listen and nothing is connected. -/
def ListenState.start (max : ℤ) (sockets : ℕ) : ListenState :=
  ⟨max, sockets, 0, fun _ => true, fun _ => false, .idle, 0, []⟩

/-- The atomic steps. -/
inductive ListenEvent where
  | accept (i : ℕ)
  | compare
  | epollRemove
  | auxJob (i : ℕ)
  | close
  | signal (k : ℕ)

/-- The part of `alloc_new_connection` behind the increment: the read that decides whether the
socket leaves epoll.  The read before it only leads to a message. -/
def allocCompare (s : ListenState) (i : ℕ) : ListenState :=
  if s.maxSpecialConnections ≤ s.activeSpecialConnections then { s with main := .removing i }
  else { s with main := .idle, openConns := s.openConns + 1 }

/-- `cpu_server_close_connection`, up to its first signal. -/
def cpuServerCloseConnection (s : ListenState) : ListenState :=
  { s with
    activeSpecialConnections := s.activeSpecialConnections - 1
    openConns := s.openConns - 1
    closers :=
      if s.activeSpecialConnections = s.maxSpecialConnections ∧ 0 < s.specialListenSockets then
        0 :: s.closers
      else s.closers }

/-- One round of its loop, in the thread at place `k`. -/
def closeSignal (s : ListenState) (k i : ℕ) : ListenState :=
  { s with
    aux := Function.update s.aux i true
    closers := if i + 1 < s.specialListenSockets then s.closers.set k (i + 1)
      else s.closers.eraseIdx k }

/-- `do_listening_connection_job` with `JS_AUX`. -/
def doListeningConnectionJob (s : ListenState) (i : ℕ) : ListenState :=
  { s with aux := Function.update s.aux i false, inEpoll := Function.update s.inEpoll i true }

/-- One step.  The main thread accepts, and handles signals, one after the other; it accepts
only on sockets in epoll. -/
def ListenState.step (s : ListenState) : ListenEvent → Option ListenState
  | .accept i =>
    if s.main = .idle ∧ i < s.specialListenSockets ∧ s.inEpoll i then
      some { s with
        main := .accepted i
        activeSpecialConnections := s.activeSpecialConnections + 1 }
    else none
  | .compare =>
    match s.main with
    | .accepted i => some (allocCompare s i)
    | _ => none
  | .epollRemove =>
    match s.main with
    | .removing i =>
      some { s with
        main := .idle
        openConns := s.openConns + 1
        inEpoll := Function.update s.inEpoll i false }
    | _ => none
  | .auxJob i =>
    if s.main = .idle ∧ s.aux i then some (doListeningConnectionJob s i) else none
  | .close => if 0 < s.openConns then some (cpuServerCloseConnection s) else none
  | .signal k => s.closers[k]?.map (closeSignal s k)

/-! ## Every absence is announced -/

/-- The limit is reached, or a signal to the socket is pending or about to be sent. -/
def Announced (s : ListenState) (i : ℕ) : Prop :=
  s.maxSpecialConnections ≤ s.activeSpecialConnections ∨ s.aux i = true ∨ ∃ p ∈ s.closers, p ≤ i

/-- A socket that is out of epoll, or about to leave it, comes back. -/
structure ListenInv (s : ListenState) : Prop where
  absent : ∀ i < s.specialListenSockets, s.inEpoll i = false → Announced s i
  leaving : ∀ i < s.specialListenSockets, s.main = .removing i → Announced s i

theorem ListenInv.start (max : ℤ) (sockets : ℕ) : ListenInv (.start max sockets) where
  absent := by
    intro i _ h
    exact absurd h (by simp [ListenState.start])
  leaving := by
    intro i _ h
    exact absurd h (by simp [ListenState.start])

/-- **The decrement** that leaves the limit announces all sockets. -/
theorem announced_close {s : ListenState} {i : ℕ} (hi : i < s.specialListenSockets)
    (h : Announced s i) : Announced (cpuServerCloseConnection s) i := by
  unfold Announced cpuServerCloseConnection at *
  dsimp only
  by_cases hlimit : s.activeSpecialConnections = s.maxSpecialConnections
  · rw [if_pos ⟨hlimit, by omega⟩]
    exact Or.inr (Or.inr ⟨0, List.mem_cons_self, Nat.zero_le i⟩)
  · rw [if_neg (fun hboth => hlimit hboth.1)]
    rcases h with hmax | hrest
    · -- the counter was above the limit
      left
      omega
    · exact Or.inr hrest

/-- **A signal** keeps every socket announced. -/
theorem announced_signal {s : ListenState} {k p i : ℕ} (hk : s.closers[k]? = some p)
    (hi : i < s.specialListenSockets) (h : Announced s i) : Announced (closeSignal s k p) i := by
  obtain ⟨hlt, rfl⟩ := List.getElem?_eq_some_iff.mp hk
  unfold Announced closeSignal at *
  dsimp only
  rcases h with hmax | haux | ⟨q, hq, hle⟩
  · exact Or.inl hmax
  · right
    left
    rw [Function.update_apply]
    split
    · rfl
    · exact haux
  by_cases hthis : i = s.closers[k]
  · right
    left
    rw [hthis, Function.update_self]
  · -- some thread is still to signal the socket: another one, or this one later
    right
    right
    obtain ⟨j, hj, rfl⟩ := List.mem_iff_getElem.mp hq
    by_cases hjk : j = k
    · subst hjk
      rw [if_pos (by omega)]
      exact ⟨s.closers[j] + 1, List.mem_set hlt _, by omega⟩
    · refine ⟨s.closers[j], ?_, hle⟩
      split
      · exact List.mem_iff_getElem.mpr ⟨j, by simpa using hj, by
          rw [List.getElem_set_ne (Ne.symm hjk)]⟩
      · rw [List.mem_eraseIdx_iff_getElem]
        exact ⟨j, hj, hjk, rfl⟩

/-- **One step** keeps every absence announced. -/
theorem ListenInv.step {s s' : ListenState} {e : ListenEvent} (h : ListenInv s)
    (hstep : s.step e = some s') : ListenInv s' := by
  cases e with
  | accept i =>
    simp only [ListenState.step] at hstep
    split at hstep
    · rename_i hready
      cases hstep
      -- the counter only grows
      have hgrow : ∀ j, Announced s j → Announced { s with
          main := .accepted i
          activeSpecialConnections := s.activeSpecialConnections + 1 } j := by
        intro j hj
        unfold Announced at *
        dsimp only
        rcases hj with hmax | hrest
        · left
          omega
        · exact Or.inr hrest
      exact ⟨fun j hj hout => hgrow j (h.absent j hj hout), fun j _ hmain => by
        exact absurd hmain (by simp)⟩
    · exact absurd hstep (by simp)
  | compare =>
    cases hmain : s.main with
    | idle => simp [ListenState.step, hmain] at hstep
    | removing i => simp [ListenState.step, hmain] at hstep
    | accepted i =>
      simp only [ListenState.step, hmain, Option.some.injEq] at hstep
      subst hstep
      unfold allocCompare
      split
      · rename_i hlimit
        exact ⟨h.absent, fun j _ _ => Or.inl hlimit⟩
      · exact ⟨h.absent, fun j _ hleave => absurd hleave (by simp)⟩
  | epollRemove =>
    cases hmain : s.main with
    | idle => simp [ListenState.step, hmain] at hstep
    | accepted i => simp [ListenState.step, hmain] at hstep
    | removing i =>
      simp only [ListenState.step, hmain, Option.some.injEq] at hstep
      subst hstep
      refine ⟨fun j hj hout => ?_, fun j _ hleave => absurd hleave (by simp)⟩
      by_cases hji : j = i
      · exact h.leaving j hj (hji ▸ hmain)
      · dsimp only at hout
        rw [Function.update_of_ne hji] at hout
        exact h.absent j hj hout
  | auxJob i =>
    simp only [ListenState.step] at hstep
    split at hstep
    · rename_i hready
      cases hstep
      refine ⟨fun j hj hout => ?_, fun j _ hleave => ?_⟩
      · unfold doListeningConnectionJob at hout ⊢
        dsimp only at hout
        by_cases hji : j = i
        · rw [hji, Function.update_self] at hout
          exact absurd hout (by simp)
        · rw [Function.update_of_ne hji] at hout
          have hold := h.absent j hj hout
          unfold Announced at hold ⊢
          dsimp only
          rwa [Function.update_of_ne hji]
      · exact absurd (hready.1.symm.trans hleave) (by simp)
    · exact absurd hstep (by simp)
  | close =>
    simp only [ListenState.step] at hstep
    split at hstep
    · cases hstep
      exact ⟨fun j hj hout => announced_close hj (h.absent j hj hout),
        fun j hj hleave => announced_close hj (h.leaving j hj hleave)⟩
    · exact absurd hstep (by simp)
  | signal k =>
    obtain ⟨p, hp, rfl⟩ := Option.map_eq_some_iff.mp hstep
    exact ⟨fun j hj hout => announced_signal hp hj (h.absent j hj hout),
      fun j hj hleave => announced_signal hp hj (h.leaving j hj hleave)⟩

/-! ## Runs -/

/-- **The listener is never locked out.**  In every state that any interleaving reaches: below
the limit, with no `JS_AUX` pending and no thread between its decrement and its last signal,
every special listening socket is in epoll. -/
theorem inEpoll_of_quiet (max : ℤ) (sockets : ℕ) {es : List ListenEvent} {s : ListenState}
    (hrun : Runs.run ListenState.step (.start max sockets) es = some s)
    (hbelow : s.activeSpecialConnections < s.maxSpecialConnections)
    (haux : ∀ i < s.specialListenSockets, s.aux i = false) (hclosers : s.closers = []) :
    ∀ i < s.specialListenSockets, s.inEpoll i = true := by
  have hinv : ListenInv s := Runs.run_invariant (C := fun _ _ => True)
    (fun s e s' hs _ hstep => hs.step hstep) (.start max sockets)
    (Runs.along_of_forall (C := fun _ => True) fun _ _ => trivial) hrun
  intro i hi
  by_contra hout
  rcases hinv.absent i hi (Bool.eq_false_iff.mpr hout) with hmax | hpending | ⟨p, hp, -⟩
  · omega
  · rw [haux i hi] at hpending
    exact absurd hpending (by decide)
  · rw [hclosers] at hp
    exact absurd hp List.not_mem_nil

/-- A connection comes and goes, with a limit of one. -/
def oneConnection : List ListenEvent := [.accept 0, .compare, .epollRemove, .close]

/-- After the signal and its handling the socket is back. -/
theorem inEpoll_of_quiet_sample :
    ∃ s, Runs.run ListenState.step (.start 1 1) (oneConnection ++ [.signal 0, .auxJob 0]) = some s ∧
      s.inEpoll 0 = true := by
  have hend : (Runs.run ListenState.step (.start 1 1)
      (oneConnection ++ [.signal 0, .auxJob 0])).map (fun s =>
        (s.activeSpecialConnections, s.maxSpecialConnections, s.specialListenSockets, s.aux 0,
          s.closers)) = some (0, 1, 1, false, []) := by decide
  obtain ⟨s, hrun, hs⟩ := Option.map_eq_some_iff.mp hend
  simp only [Prod.mk.injEq] at hs
  obtain ⟨hactive, hmax, hsockets, haux, hclosers⟩ := hs
  refine ⟨s, hrun, inEpoll_of_quiet 1 1 hrun (by omega) (fun i hi => ?_) hclosers 0 (by omega)⟩
  rw [show i = 0 by omega]
  exact haux

/-- Between the decrement and the first signal the socket is out, and nothing is pending. -/
theorem not_inEpoll_before_signal :
    ∃ s, Runs.run ListenState.step (.start 1 1) oneConnection = some s ∧
      s.activeSpecialConnections < s.maxSpecialConnections ∧
      (∀ i < s.specialListenSockets, s.aux i = false) ∧
      ¬ ∀ i < s.specialListenSockets, s.inEpoll i = true := by
  have hend : (Runs.run ListenState.step (.start 1 1) oneConnection).map (fun s =>
        (s.activeSpecialConnections, s.maxSpecialConnections, s.specialListenSockets, s.aux 0,
          s.inEpoll 0)) = some (0, 1, 1, false, false) := by decide
  obtain ⟨s, hrun, hs⟩ := Option.map_eq_some_iff.mp hend
  simp only [Prod.mk.injEq] at hs
  obtain ⟨hactive, hmax, hsockets, haux, hout⟩ := hs
  refine ⟨s, hrun, by omega, fun i hi => ?_, fun hall => ?_⟩
  · rw [show i = 0 by omega]
    exact haux
  · rw [hall 0 (by omega)] at hout
    exact absurd hout (by decide)

end MtprotoProxy
