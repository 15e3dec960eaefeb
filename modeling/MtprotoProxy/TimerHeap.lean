/-
# The heap of timers

`net/net-timers.c`: the timers of a thread in a heap by their time, `et_heap`.

* `timers_iff`: from the start, over any operations, the array is a heap of exactly the timers that
  were inserted and not since removed or expired, and the earliest timer expires, as long as no
  timer is put on the place `MAX_EVENT_TIMERS`.

`et_heap` is allocated with `MAX_EVENT_TIMERS` places, from 0 on, while the heap starts at 1 and
the assertion of `insert_event_timer` lets it grow to `MAX_EVENT_TIMERS` timers.
-/
import MtprotoProxy.BinaryHeap
import MtprotoProxy.Runs

namespace MtprotoProxy

open CLib

/-- `MAX_EVENT_TIMERS`. -/
def maxEventTimers : ℕ := 2 ^ 19

/-- What happens to a timer. -/
inductive TimerEvent (ι : Type) : Type where
  | inserted (et : ι) : TimerEvent ι
  | removed (et : ι) : TimerEvent ι
  | expired (et : ι) : TimerEvent ι
  | idle : TimerEvent ι
  deriving DecidableEq

/-- The timers of a thread: `et_heap`, `et_heap_size` and the fields `h_idx` are in `heap`, and
`history` is what happened so far. -/
structure EtState (ι κ : Type) where
  heap : HeapArray ι maxEventTimers
  wakeupTime : ι → κ
  history : List (TimerEvent ι)

/-- What is done with timers: a timer gets a time and is inserted, a timer is removed, or
`thread_run_timers` looks at the head at a time. -/
inductive TimerOp (ι κ : Type) : Type where
  | insert (et : ι) (time : κ) : TimerOp ι κ
  | remove (et : ι) : TimerOp ι κ
  | expire (now : κ) : TimerOp ι κ

namespace EtState

variable {ι κ : Type} [DecidableEq ι] [LinearOrder κ]

/-! ## The operations -/

/-- `a->wakeup_time > b->wakeup_time`. -/
def later (S : EtState ι κ) (a b : ι) : Bool := decide (S.wakeupTime b < S.wakeupTime a)

/-- `basic_et_adjust`: the timer `et` goes to the hole at `i`, and the hole up and down before. -/
def basicEtAdjust (S : EtState ι κ) (et : ι) (i : ℕ) : Option (EtState ι κ) := do
  let (H, i) ← S.heap.siftUp S.later et i i
  let (H, i) ← H.siftDown S.later et (H.size + 1) i
  let H ← H.place i et
  some { S with heap := H }

/-- `insert_event_timer`. -/
def insertEventTimer (S : EtState ι κ) (et : ι) : Option (EtState ι κ) :=
  let i := S.heap.pos et
  if i ≠ 0 then
    if i ≤ S.heap.size ∧ S.heap.read i = some et then S.basicEtAdjust et i else none
  else if S.heap.size < maxEventTimers then
    { S with heap := S.heap.resize (S.heap.size + 1) }.basicEtAdjust et (S.heap.size + 1)
  else none

/-- `remove_event_timer`. -/
def removeEventTimer (S : EtState ι κ) (et : ι) : Option (EtState ι κ) :=
  let i := S.heap.pos et
  if i = 0 then some S
  else if i ≤ S.heap.size ∧ S.heap.read i = some et then do
    let H := S.heap.unplace et
    let last ← H.read H.size
    let S : EtState ι κ := { S with heap := H.resize (H.size - 1) }
    if S.heap.size < i then some S else S.basicEtAdjust last i
  else none

/-- `et_heap[1]`, when its time is not after `now`. -/
def dueHead (S : EtState ι κ) (now : κ) : Option (Option ι) :=
  if 0 < S.heap.size then do
    let et ← S.heap.read 1
    some (if S.wakeupTime et ≤ now then some et else none)
  else some none

/-- A round of the loop of `thread_run_timers`, up to the call of `wakeup`; the timer that expires
is returned. -/
def expireHead (S : EtState ι κ) (now : κ) : Option (EtState ι κ × Option ι) := do
  match ← S.dueHead now with
  | none => some (S, none)
  | some et =>
    if S.heap.pos et = 1 then do
      let S ← S.removeEventTimer et
      some (S, some et)
    else none

/-- An operation, and what happened is written down. -/
def step (S : EtState ι κ) : TimerOp ι κ → Option (EtState ι κ)
  | .insert et time => do
    let S ← { S with wakeupTime := Function.update S.wakeupTime et time }.insertEventTimer et
    some { S with history := S.history ++ [.inserted et] }
  | .remove et => do
    let S ← S.removeEventTimer et
    some { S with history := S.history ++ [.removed et] }
  | .expire now => do
    let (S, et) ← S.expireHead now
    some { S with history := S.history ++ [et.elim .idle .expired] }

/-- No timers yet; the array was cleared by `calloc`. -/
def start (wakeupTime : ι → κ) : EtState ι κ := ⟨⟨fun _ => none, 0, fun _ => 0⟩, wakeupTime, []⟩

/-- The loop of `thread_run_timers`; `wakeup` is what a timer does when it expires. -/
def runTimersLoop (now : κ) (wakeup : EtState ι κ → ι → List (TimerOp ι κ)) :
    ℕ → EtState ι κ → Option (EtState ι κ)
  | 0, _ => none
  | n + 1, S => do
    match ← S.dueHead now with
    | none => some S
    | some et => do
      let S ← S.step (.expire now)
      let S ← Runs.run step S (wakeup S et)
      runTimersLoop now wakeup n S

/-- `thread_run_timers`, with the assertion behind the loop. -/
def threadRunTimers (S : EtState ι κ) (now : κ) (wakeup : EtState ι κ → ι → List (TimerOp ι κ))
    (n : ℕ) : Option (EtState ι κ) := do
  let S ← runTimersLoop now wakeup n S
  match ← S.dueHead now with
  | none => some S
  | some _ => none

/-! ## What they are for -/

/-- The timers after an event. -/
def applyEvent (Q : Set ι) : TimerEvent ι → Set ι
  | .inserted et => insert et Q
  | .removed et => Q \ {et}
  | .expired et => Q \ {et}
  | .idle => Q

/-- **The timers that were inserted and not since removed or expired.** -/
def live (history : List (TimerEvent ι)) : Set ι := history.foldl applyEvent ∅

/-- **The array is a heap** on the times, of exactly those timers, and each knows its position. -/
def Kept (S : EtState ι κ) : Prop := S.heap.IsHeap S.wakeupTime (live S.history)

/-- When a timer expires, no timer that is queued has an earlier time. -/
def ExpiresEarliest (S : EtState ι κ) : TimerOp ι κ → Prop
  | .expire now => ∀ S' et, S.expireHead now = some (S', some et) →
      et ∈ live S.history ∧ S.wakeupTime et ≤ now ∧
        ∀ y ∈ live S.history, S.wakeupTime et ≤ S.wakeupTime y
  | _ => True

/-- A timer that is not queued finds a place below `MAX_EVENT_TIMERS`. -/
def HasRoom (S : EtState ι κ) : TimerOp ι κ → Prop
  | .insert et _ => S.heap.pos et = 0 → S.heap.size + 1 < maxEventTimers
  | _ => True

/-! ## The heap after each operation -/

variable {S : EtState ι κ} {Q : Set ι} {et : ι} {i : ℕ}

omit [DecidableEq ι] in
theorem later_iff (a b : ι) : S.later a b = true ↔ S.wakeupTime b < S.wakeupTime a :=
  decide_eq_true_iff

/-- `basic_et_adjust` fills the hole. -/
theorem basicEtAdjust_fill (hhole : S.heap.HasHole i et Q)
    (hord : HeapArray.OrderedAround S.wakeupTime S.heap i) :
    ∃ H, S.basicEtAdjust et i = some { S with heap := H } ∧
      H.IsHeap S.wakeupTime (insert et Q) := by
  have hup_gt : ∀ y ∈ Q, S.later y et = true ↔ S.wakeupTime et < S.wakeupTime y :=
    fun y _ => later_iff y et
  have hdown_gt : ∀ a ∈ insert et Q, ∀ b ∈ Q,
      S.later a b = true ↔ S.wakeupTime b < S.wakeupTime a := fun a _ b _ => later_iff a b
  obtain ⟨H₁, i₁, hup, hmoved₁, habove, -⟩ := HeapArray.siftUp_moved hup_gt le_rfl hhole hord
  obtain ⟨H₂, i₂, hdown, hmoved₂, habove', hbelow⟩ :=
    HeapArray.siftDown_moved (n := H₁.size + 1) hdown_gt (by omega) hmoved₁.hole hmoved₁.ordered
      habove
  refine ⟨H₂.put i₂ et, ?_, hmoved₂.hole.fill hmoved₂.ordered habove' hbelow⟩
  unfold basicEtAdjust
  simp only [hup, hdown, hmoved₂.hole.place_eq, some_bind]

/-- **`insert_event_timer`**, after the time of the timer was set. -/
theorem insertEventTimer_heap {key : ι → κ} (h : S.heap.IsHeap key Q)
    (hkey : ∀ y, y ≠ et → S.wakeupTime y = key y)
    (hroom : S.heap.pos et = 0 → S.heap.size + 1 < maxEventTimers) :
    ∃ H, S.insertEventTimer et = some { S with heap := H } ∧
      H.IsHeap S.wakeupTime (insert et Q) := by
  unfold insertEventTimer
  by_cases hqueued : S.heap.pos et = 0
  · have hnot : et ∉ Q := fun hmem => (h.mem_iff et).mp hmem hqueued
    obtain ⟨hhole, hord⟩ := h.grow hnot (hroom hqueued) hkey
    have hlt := h.size_lt
    rw [if_neg (not_not.mpr hqueued), if_pos hlt]
    exact basicEtAdjust_fill (S := { S with heap := S.heap.resize (S.heap.size + 1) }) hhole hord
  · have hmem : et ∈ Q := (h.mem_iff et).mpr hqueued
    obtain ⟨-, hle, hslot⟩ := h.back et hmem
    obtain ⟨hhole, hord⟩ := h.hole hmem hkey
    have hread : S.heap.read (S.heap.pos et) = some et := by
      unfold HeapArray.read
      rwa [if_pos (lt_of_le_of_lt hle h.size_lt)]
    obtain ⟨H, hrun, hheap⟩ := basicEtAdjust_fill hhole hord
    rw [Set.insert_sdiff_singleton] at hheap
    rw [if_pos hqueued, if_pos ⟨hle, hread⟩]
    exact ⟨H, hrun, hheap⟩

/-- **`remove_event_timer`**. -/
theorem removeEventTimer_heap (h : S.heap.IsHeap S.wakeupTime Q) (et : ι) :
    ∃ H, S.removeEventTimer et = some { S with heap := H } ∧
      H.IsHeap S.wakeupTime (Q \ {et}) := by
  unfold removeEventTimer
  by_cases hqueued : S.heap.pos et = 0
  · have hnot : et ∉ Q := fun hmem => (h.mem_iff et).mp hmem hqueued
    rw [Set.sdiff_singleton_eq_self hnot, if_pos hqueued]
    exact ⟨S.heap, rfl, h⟩
  · have hmem : et ∈ Q := (h.mem_iff et).mpr hqueued
    obtain ⟨hpos, hle, hslot⟩ := h.back et hmem
    obtain ⟨hhole, hord⟩ := h.hole hmem (fun _ _ => rfl)
    have hread : S.heap.read (S.heap.pos et) = some et := by
      unfold HeapArray.read
      rwa [if_pos (lt_of_le_of_lt hle h.size_lt)]
    obtain ⟨last, -, hlast, -⟩ := h.filled S.heap.size (by omega) le_rfl
    have hreadLast : (S.heap.unplace et).read S.heap.size = some last := by
      unfold HeapArray.read
      rw [if_pos h.size_lt]
      exact hlast
    have hfree := hhole.unplace
    rw [if_neg hqueued, if_pos ⟨hle, hread⟩]
    by_cases hend : S.heap.pos et = S.heap.size
    · -- the timer was the last one
      have hcut : S.heap.size - 1 < S.heap.pos et := by omega
      simp only [HeapArray.unplace_size, hreadLast, HeapArray.resize_size, some_bind, hcut,
        ↓reduceIte]
      rw [hend] at hfree hord
      exact ⟨_, rfl, hfree.cut hord.unplace HeapArray.unplace_pos_self⟩
    · -- the last one takes its place
      have hlt : S.heap.pos et < S.heap.size := lt_of_le_of_ne hle hend
      obtain ⟨hhole', hord', hlastQ⟩ :=
        hfree.shrink hord.unplace hlt hlast HeapArray.unplace_pos_self
      have hkeep : ¬ S.heap.size - 1 < S.heap.pos et := by omega
      simp only [HeapArray.unplace_size, hreadLast, HeapArray.resize_size, some_bind, hkeep,
        ↓reduceIte]
      obtain ⟨H, hrun, hheap⟩ := basicEtAdjust_fill
        (S := { S with heap := (S.heap.unplace et).resize (S.heap.size - 1) }) hhole' hord'
      rw [Set.insert_sdiff_singleton, Set.insert_eq_of_mem hlastQ] at hheap
      exact ⟨H, hrun, hheap⟩

omit [DecidableEq ι] in
/-- The head, when it is due: nothing that is queued is earlier. -/
theorem dueHead_spec (h : S.heap.IsHeap S.wakeupTime Q) (now : κ) :
    ∃ r, S.dueHead now = some r ∧ (r = none → ∀ y ∈ Q, now < S.wakeupTime y) ∧
      ∀ et, r = some et → et ∈ Q ∧ S.heap.pos et = 1 ∧ S.wakeupTime et ≤ now ∧
        ∀ y ∈ Q, S.wakeupTime et ≤ S.wakeupTime y := by
  unfold dueHead
  by_cases hsize : 0 < S.heap.size
  · obtain ⟨et, hmem, hslot, hpos⟩ := h.filled 1 one_pos hsize
    have hread : S.heap.read 1 = some et := by
      unfold HeapArray.read
      rwa [if_pos (lt_of_le_of_lt hsize h.size_lt)]
    simp only [hsize, ↓reduceIte, hread, some_bind]
    refine ⟨_, rfl, ?_, ?_⟩
    · intro heq y hy
      split_ifs at heq with hdue
      exact (not_le.mp hdue).trans_le (h.root_le hslot hy)
    · intro et' heq
      split_ifs at heq with hdue
      obtain rfl := Option.some.inj heq
      exact ⟨hmem, hpos, hdue, fun y hy => h.root_le hslot hy⟩
  · rw [if_neg hsize]
    refine ⟨none, rfl, ?_, ?_⟩
    · intro _ y hy
      obtain ⟨hpos, hle, -⟩ := h.back y hy
      exact absurd (hpos.trans_le hle) hsize
    · intro et heq
      cases heq

/-- **The expiry of the head.** -/
theorem expireHead_heap (h : S.heap.IsHeap S.wakeupTime Q) (now : κ) :
    ∃ H r, S.expireHead now = some ({ S with heap := H }, r) ∧
      H.IsHeap S.wakeupTime (applyEvent Q (r.elim .idle .expired)) ∧
      ∀ et, r = some et → et ∈ Q ∧ S.wakeupTime et ≤ now ∧
        ∀ y ∈ Q, S.wakeupTime et ≤ S.wakeupTime y := by
  obtain ⟨r, hdue, -, hr⟩ := dueHead_spec h now
  unfold expireHead
  cases r with
  | none =>
    simp only [hdue, some_bind]
    refine ⟨S.heap, none, rfl, h, ?_⟩
    intro et heq
    cases heq
  | some et =>
    obtain ⟨hmem, hpos, hle, hmin⟩ := hr et rfl
    obtain ⟨H, hrun, hheap⟩ := removeEventTimer_heap h et
    simp only [hdue, hpos, hrun, ↓reduceIte, some_bind]
    refine ⟨H, some et, rfl, hheap, ?_⟩
    intro et' heq
    obtain rfl := Option.some.inj heq
    exact ⟨hmem, hle, hmin⟩

/-! ## Runs -/

omit [DecidableEq ι] in
theorem live_append (history : List (TimerEvent ι)) (e : TimerEvent ι) :
    live (history ++ [e]) = applyEvent (live history) e := List.foldl_concat ..

/-- Every operation that has room keeps the heap. -/
theorem step_kept {op : TimerOp ι κ} (h : S.Kept) (hroom : S.HasRoom op) :
    ∃ S', S.step op = some S' ∧ S'.Kept := by
  unfold Kept at h
  cases op with
  | insert et time =>
    obtain ⟨H, hrun, hheap⟩ := insertEventTimer_heap
      (S := { S with wakeupTime := Function.update S.wakeupTime et time }) h
      (fun y (hy : y ≠ et) => Function.update_of_ne hy ..) hroom
    simp only [step, hrun, some_bind]
    refine ⟨_, rfl, ?_⟩
    show HeapArray.IsHeap _ H (live (S.history ++ [.inserted et]))
    rw [live_append]
    exact hheap
  | remove et =>
    obtain ⟨H, hrun, hheap⟩ := removeEventTimer_heap h et
    simp only [step, hrun, some_bind]
    refine ⟨_, rfl, ?_⟩
    show HeapArray.IsHeap _ H (live (S.history ++ [.removed et]))
    rw [live_append]
    exact hheap
  | expire now =>
    obtain ⟨H, r, hrun, hheap, -⟩ := expireHead_heap h now
    simp only [step, hrun, some_bind]
    refine ⟨_, rfl, ?_⟩
    show HeapArray.IsHeap _ H (live (S.history ++ [r.elim .idle .expired]))
    rw [live_append]
    exact hheap

/-- Nothing is put on a place behind the end of the array. -/
theorem basicEtAdjust_outside (hi : maxEventTimers ≤ i) (hsize : S.heap.size ≤ i) :
    S.basicEtAdjust et i = none := by
  have hpos : 0 < i := lt_of_lt_of_le (by decide) hi
  have hplace (H : HeapArray ι maxEventTimers) (y : ι) : H.place i y = none :=
    if_neg (Nat.not_lt.mpr hi)
  obtain ⟨n, rfl⟩ : ∃ n, i = n + 1 := ⟨i - 1, by omega⟩
  have hleaf : ¬ 2 * (n + 1) ≤ S.heap.size := by omega
  unfold basicEtAdjust
  rw [HeapArray.siftUp]
  split_ifs with hroot
  · cases S.heap.read ((n + 1) / 2) with
    | none => rfl
    | some y =>
      simp only [Option.bind_eq_bind, Option.bind_some, hplace, Option.bind_none]
      split_ifs
      · rfl
      · rw [Option.bind_some, HeapArray.siftDown, if_neg hleaf, Option.bind_some, hplace]
        rfl
  · simp only [Option.bind_eq_bind, Option.bind_some]
    rw [HeapArray.siftDown, if_neg hleaf, Option.bind_some, hplace]
    rfl

/-- An operation without room writes behind the end of the array. -/
theorem step_eq_none {op : TimerOp ι κ} (hroom : ¬ S.HasRoom op) : S.step op = none := by
  cases op with
  | insert et time =>
    obtain ⟨hqueued, hfull⟩ := Classical.not_imp.mp hroom
    have hadjust : { S with wakeupTime := Function.update S.wakeupTime et time }.insertEventTimer et
        = none := by
      unfold insertEventTimer
      rw [if_neg (not_not.mpr hqueued)]
      split_ifs
      · exact basicEtAdjust_outside (Nat.le_of_not_lt hfull) le_rfl
      · rfl
    simp only [step, hadjust, Option.bind_eq_bind, Option.bind_none]
  | remove et => exact absurd trivial hroom
  | expire now => exact absurd trivial hroom

theorem kept_of_step {op : TimerOp ι κ} {S' : EtState ι κ} (h : S.Kept)
    (hstep : S.step op = some S') : S'.Kept := by
  have hroom : S.HasRoom op := by
    by_contra hroom
    rw [step_eq_none hroom] at hstep
    cases hstep
  obtain ⟨S'', hrun, h'⟩ := step_kept h hroom
  rw [hstep] at hrun
  rwa [Option.some.inj hrun]

theorem expiresEarliest_of_kept (h : S.Kept) (op : TimerOp ι κ) : S.ExpiresEarliest op := by
  cases op with
  | insert et time => trivial
  | remove et => trivial
  | expire now =>
    intro S' et hexpire
    obtain ⟨H, r, hrun, -, hr⟩ := expireHead_heap h now
    rw [hrun] at hexpire
    exact hr et (congrArg Prod.snd (Option.some.inj hexpire))

omit [DecidableEq ι] in
theorem kept_start (wakeupTime : ι → κ) : (start wakeupTime).Kept :=
  HeapArray.isHeap_empty (by decide) _

/-- The operations have room as long as they are defined. -/
theorem run_iff (h : S.Kept) (ops : List (TimerOp ι κ)) :
    (∃ S', Runs.run step S ops = some S' ∧ S'.Kept) ↔ Runs.Along step HasRoom S ops :=
  Runs.run_defined_iff (fun _ _ => step_kept) (fun _ _ _ => step_eq_none) h

/-- **The heap of timers.**  Exactly when no timer has to go to the place `MAX_EVENT_TIMERS`, all
operations return, the array is a heap of the timers that were inserted and not since removed or
expired, and no timer expires while an earlier one is queued. -/
theorem timers_iff (wakeupTime : ι → κ) (ops : List (TimerOp ι κ)) :
    (∃ S, Runs.run step (start wakeupTime) ops = some S ∧ S.Kept ∧
        Runs.Along step ExpiresEarliest (start wakeupTime) ops) ↔
      Runs.Along step HasRoom (start wakeupTime) ops := by
  constructor
  · rintro ⟨S, hrun, h, -⟩
    exact (run_iff (kept_start wakeupTime) ops).mp ⟨S, hrun, h⟩
  · intro hroom
    obtain ⟨S, hrun, h⟩ := (run_iff (kept_start wakeupTime) ops).mpr hroom
    refine ⟨S, hrun, h, ?_⟩
    exact Runs.along_of_invariant (fun _ _ _ h _ => kept_of_step h)
      (fun S op h _ => expiresEarliest_of_kept h op) (kept_start wakeupTime) hroom

/-! ## As many timers as `MAX_EVENT_TIMERS` -/

/-- The timers 0 to `n - 1` are inserted. -/
def insertAll (n : ℕ) : List (TimerOp ℕ ℕ) := (List.range n).map (fun et => .insert et 0)

/-- The timers that operations insert. -/
def timersOf (ops : List (TimerOp ι κ)) : Set ι := {et | ∃ time, .insert et time ∈ ops}

theorem insertAll_succ (n : ℕ) : insertAll (n + 1) = insertAll n ++ [.insert n 0] := by
  unfold insertAll
  rw [List.range_succ, List.map_append, List.map_singleton]

theorem timersOf_insertAll (n : ℕ) : timersOf (insertAll n) = Set.Iio n := by
  ext et
  unfold timersOf insertAll
  simp

/-- As long as there is room. -/
theorem run_insertAll {n : ℕ} (hn : n < maxEventTimers) :
    ∃ S, Runs.run step (start fun _ => 0) (insertAll n) = some S ∧ S.Kept ∧
      live S.history = Set.Iio n := by
  induction n with
  | zero =>
    refine ⟨_, rfl, kept_start _, ?_⟩
    ext et
    exact ⟨fun hmem => absurd hmem (Set.notMem_empty et), fun hlt => absurd hlt (Nat.not_lt_zero et)⟩
  | succ n ih =>
    obtain ⟨S, hrun, h, hlive⟩ := ih (Nat.lt_of_succ_lt hn)
    have hsize : S.heap.size = n := by
      rw [← h.ncard_eq, hlive, ← Finset.coe_Iio, Set.ncard_coe_finset, Nat.card_Iio]
    obtain ⟨H, hinsert, hheap⟩ := insertEventTimer_heap
      (S := { S with wakeupTime := Function.update S.wakeupTime n 0 }) h
      (fun y (hy : y ≠ n) => Function.update_of_ne hy ..) (fun _ => by rw [hsize]; exact hn)
    have hlive' : live (S.history ++ [.inserted n]) = Set.Iio (n + 1) := by
      ext et
      rw [live_append, hlive]
      show et = n ∨ et < n ↔ et < n + 1
      omega
    refine ⟨⟨H, Function.update S.wakeupTime n 0, S.history ++ [.inserted n]⟩, ?_, ?_, hlive'⟩
    · rw [insertAll_succ]
      refine Runs.run_append.mpr ⟨S, hrun, Runs.run_cons.mpr ⟨_, ?_, rfl⟩⟩
      simp only [step, hinsert, some_bind]
    · show HeapArray.IsHeap _ H (live _)
      rw [live_append]
      exact hheap

/-- **With `MAX_EVENT_TIMERS` timers** the last one is written behind the end of the array. -/
theorem insertAll_maxEventTimers :
    (timersOf (insertAll maxEventTimers)).ncard ≤ maxEventTimers ∧
      ¬ ∃ S, Runs.run step (start fun _ => 0) (insertAll maxEventTimers) = some S ∧ S.Kept ∧
        Runs.Along step ExpiresEarliest (start fun _ => 0) (insertAll maxEventTimers) := by
  constructor
  · rw [timersOf_insertAll, ← Finset.coe_Iio, Set.ncard_coe_finset, Nat.card_Iio]
  · rintro ⟨S', hrun, -, -⟩
    obtain ⟨n, hn⟩ : ∃ n, maxEventTimers = n + 1 := ⟨2 ^ 19 - 1, rfl⟩
    obtain ⟨S, hrun', h, hlive⟩ := run_insertAll (n := n) (by omega)
    rw [hn, insertAll_succ] at hrun
    obtain ⟨T, hT, hlast⟩ := Runs.run_append.mp hrun
    obtain rfl : S = T := Option.some.inj (hrun'.symm.trans hT)
    obtain ⟨U, hstep, -⟩ := Runs.run_cons.mp hlast
    have hnoroom : ¬ S.HasRoom (.insert n 0) := by
      intro hroom
      have hsize : S.heap.size = n := by
        rw [← h.ncard_eq, hlive, ← Finset.coe_Iio, Set.ncard_coe_finset, Nat.card_Iio]
      have hnew : S.heap.pos n = 0 := by
        apply h.out
        rw [hlive]
        exact lt_irrefl n
      have hlt := hroom hnew
      omega
    rw [step_eq_none hnoroom] at hstep
    cases hstep

/-! ## Whole calls of `thread_run_timers` -/

/-- **A call of `thread_run_timers` is a run of operations**: its own rounds and what the timers do
when they expire. -/
theorem runTimersLoop_run {now : κ} {wakeup : EtState ι κ → ι → List (TimerOp ι κ)} {n : ℕ}
    {S S' : EtState ι κ} (h : runTimersLoop now wakeup n S = some S') :
    (∃ ops, Runs.run step S ops = some S') ∧ S'.dueHead now = some none := by
  induction n generalizing S with
  | zero => cases h
  | succ n ih =>
    rw [runTimersLoop] at h
    obtain ⟨r, hdue, hrest⟩ := Option.bind_eq_some_iff.mp h
    cases r with
    | none =>
      obtain rfl := Option.some.inj hrest
      exact ⟨⟨[], rfl⟩, hdue⟩
    | some et =>
      obtain ⟨T, hstep, hrest⟩ := Option.bind_eq_some_iff.mp hrest
      obtain ⟨U, hwakeup, hrest⟩ := Option.bind_eq_some_iff.mp hrest
      obtain ⟨⟨ops, hops⟩, hend⟩ := ih hrest
      refine ⟨⟨.expire now :: (wakeup T et ++ ops), ?_⟩, hend⟩
      exact Runs.run_cons.mpr ⟨T, hstep, Runs.run_append.mpr ⟨U, hwakeup, hops⟩⟩

/-- The assertion behind the loop holds. -/
theorem threadRunTimers_eq_loop (S : EtState ι κ) (now : κ)
    (wakeup : EtState ι κ → ι → List (TimerOp ι κ)) (n : ℕ) :
    S.threadRunTimers now wakeup n = runTimersLoop now wakeup n S := by
  unfold threadRunTimers
  cases hloop : runTimersLoop now wakeup n S with
  | none => rfl
  | some S' =>
    rw [some_bind, (runTimersLoop_run hloop).2]
    rfl

/-- **`thread_run_timers` keeps the heap**, and afterwards no timer that is due is left. -/
theorem threadRunTimers_kept {now : κ} {wakeup : EtState ι κ → ι → List (TimerOp ι κ)} {n : ℕ}
    {S' : EtState ι κ} (h : S.Kept) (hrun : S.threadRunTimers now wakeup n = some S') :
    S'.Kept ∧ ∀ et ∈ live S'.history, now < S'.wakeupTime et := by
  rw [threadRunTimers_eq_loop] at hrun
  obtain ⟨⟨ops, hops⟩, hend⟩ := runTimersLoop_run hrun
  have h' : S'.Kept :=
    Runs.run_invariant (fun _ _ _ h _ => kept_of_step h) h
      (Runs.along_of_always (C := fun _ _ => True) (fun _ _ _ => trivial)) hops
  obtain ⟨r, hdue, hnone, -⟩ := dueHead_spec h' now
  rw [hend] at hdue
  exact ⟨h', hnone (Option.some.inj hdue).symm⟩

/-- Four timers, the first two of them due at `4`. -/
def fourTimers : List (TimerOp ℕ ℕ) := [.insert 1 1, .insert 2 3, .insert 3 5, .insert 4 8]

/-- The timer `1` removes the timer `3` and inserts `5`, which is due at once, and that one inserts
`1` again for later. -/
def restartLater (_ : EtState ℕ ℕ) (et : ℕ) : List (TimerOp ℕ ℕ) :=
  if et = 1 then [.remove 3, .insert 5 2] else if et = 5 then [.insert 1 9] else []

/-- Three timers expire in one call, and two are left for later. -/
theorem threadRunTimers_kept_restart :
    ∃ S S' : EtState ℕ ℕ, Runs.run step (start fun _ => 0) fourTimers = some S ∧
      S.threadRunTimers 4 restartLater 4 = some S' ∧
      S'.history = [.inserted 1, .inserted 2, .inserted 3, .inserted 4, .expired 1, .removed 3,
        .inserted 5, .expired 5, .inserted 1, .expired 2] ∧
      S'.Kept ∧ ∀ et ∈ live S'.history, 4 < S'.wakeupTime et := by
  have hcall : ((Runs.run step (start fun _ => 0) fourTimers).bind
      (fun S => S.threadRunTimers 4 restartLater 4)).map (·.history)
        = some [.inserted 1, .inserted 2, .inserted 3, .inserted 4, .expired 1, .removed 3,
            .inserted 5, .expired 5, .inserted 1, .expired 2] := by decide +kernel
  obtain ⟨S', hboth, hhistory⟩ := Option.map_eq_some_iff.mp hcall
  obtain ⟨S, hS, hS'⟩ := Option.bind_eq_some_iff.mp hboth
  have hkept : S.Kept :=
    Runs.run_invariant (fun _ _ _ h _ => kept_of_step h) (kept_start fun _ => 0)
      (Runs.along_of_always (C := fun _ _ => True) (fun _ _ _ => trivial)) hS
  exact ⟨S, S', hS, hS', hhistory, threadRunTimers_kept hkept hS'⟩

end EtState

end MtprotoProxy
