/-
# The heap of events

`net/net-events.c`: the events that wait to be worked on, in a heap by priority and timestamp,
`ev_heap`.

* `events_kept`: over any operations the array is a heap of exactly the events that were put and not
  since removed or popped, and an event is popped that no queued event precedes, as long as the
  differences of the priorities of queued events fit in an `int`.

The event `Events + v` is the number `v`.  In `remove_event_from_heap` the model makes the heap
smaller before the loop that moves the last event up, which does not read the size.
-/
import MtprotoProxy.BinaryHeap
import MtprotoProxy.CInt
import MtprotoProxy.Runs

namespace MtprotoProxy

open CLib

/-- `MAX_EVENTS`. -/
def maxEvents : ℕ := 2 ^ 19

/-- What happens to an event. -/
inductive EvNote : Type where
  | put (ev : ℕ) : EvNote
  | removed (ev : ℕ) : EvNote
  | popped (ev : ℕ) : EvNote
  | idle : EvNote

/-- The events and their heap: `ev_heap`, `ev_heap_size` and the fields `in_queue` are in `heap`,
and `history` is what happened so far. -/
structure EvState where
  heap : HeapArray ℕ (maxEvents + 1)
  fd : ℕ → ℤ
  priority : ℕ → ℤ
  timestamp : ℕ → ℤ
  history : List EvNote

/-- What is done with events: an event gets a priority and a timestamp and is put into the heap, an
event is removed, or the head is popped. -/
inductive EvOp : Type where
  | put (ev : ℕ) (priority timestamp : ℤ) : EvOp
  | remove (ev : ℕ) : EvOp
  | pop : EvOp

namespace EvState

/-! ## The operations -/

variable (S : EvState)

/-- `greater_ev`. -/
def greaterEv (ev1 ev2 : ℕ) : ℤ :=
  let x := wrap32 (S.priority ev1 - S.priority ev2)
  if x ≠ 0 then x else if S.timestamp ev2 < S.timestamp ev1 then 1 else 0

/-- `greater_ev (ev1, ev2) > 0`. -/
def greater (ev1 ev2 : ℕ) : Bool := decide (0 < S.greaterEv ev1 ev2)

/-- `v >= 0 && v < MAX_EVENTS && Events + v == ev` for `v = ev->fd`. -/
def IsEvent (ev : ℕ) : Prop := 0 ≤ S.fd ev ∧ S.fd ev < maxEvents ∧ S.fd ev = ev

instance (ev : ℕ) : Decidable (S.IsEvent ev) := inferInstanceAs (Decidable (_ ∧ _))

/-- `pop_heap_head`. -/
def popHeapHead : Option (EvState × Option ℕ) :=
  if S.heap.size = 0 then some (S, none)
  else do
    let ev ← S.heap.read 1
    if S.heap.pos ev = 1 then
      let H := S.heap.unplace ev
      if H.size - 1 = 0 then some ({ S with heap := H.resize (H.size - 1) }, some ev)
      else do
        let x ← H.read H.size
        let (H, i) ← (H.resize (H.size - 1)).siftDown S.greater x H.size 1
        let H ← H.place i x
        some ({ S with heap := H }, some ev)
    else none

/-- The loop that `remove_event_from_heap` and `put_event_into_heap` share: `ev` goes to the hole at
`i`, and the hole up before. -/
def moveUp (ev i : ℕ) : Option EvState := do
  let (H, i) ← S.heap.siftUp S.greater ev i i
  let H ← H.place i ev
  some { S with heap := H }

/-- `remove_event_from_heap`, with what it returns. -/
def removeEventFromHeap (ev : ℕ) (allowHole : Bool) : Option (EvState × ℕ) :=
  if S.IsEvent ev then
    let i := S.heap.pos ev
    let N := S.heap.size
    if i = 0 then some (S, 0)
    else if i ≤ N then do
      let (H, i) ← (S.heap.unplace ev).sinkHole S.greater (N + 1) i
      if allowHole then some ({ S with heap := H.clear i }, i)
      else if i < N then do
        let last ← H.read N
        let S ← { S with heap := (H.clear N).resize (N - 1) }.moveUp last i
        some (S, N)
      else some ({ S with heap := H.resize (N - 1) }, N)
    else none
  else none

/-- `put_event_into_heap`. -/
def putEventIntoHeap (ev : ℕ) : Option EvState :=
  if S.IsEvent ev then do
    let (S, i) ←
      if S.heap.pos ev ≠ 0 then S.removeEventFromHeap ev true
      else some ({ S with heap := S.heap.resize (S.heap.size + 1) }, S.heap.size + 1)
    if i ≤ maxEvents then S.moveUp ev i else none
  else none

/-- An operation, and what happened is written down. -/
def step : EvOp → Option EvState
  | .put ev priority timestamp => do
    let S ← { S with
      priority := Function.update S.priority ev priority
      timestamp := Function.update S.timestamp ev timestamp }.putEventIntoHeap ev
    some { S with history := S.history ++ [.put ev] }
  | .remove ev => do
    let (S, _) ← S.removeEventFromHeap ev false
    some { S with history := S.history ++ [.removed ev] }
  | .pop => do
    let (S, ev) ← S.popHeapHead
    some { S with history := S.history ++ [ev.elim .idle .popped] }

/-- No events in the heap. -/
def start (fd priority timestamp : ℕ → ℤ) : EvState :=
  ⟨⟨fun _ => none, 0, fun _ => 0⟩, fd, priority, timestamp, []⟩

/-! ## What they are for -/

/-- The events after what happened. -/
def applyNote (Q : Set ℕ) : EvNote → Set ℕ
  | .put ev => insert ev Q
  | .removed ev => Q \ {ev}
  | .popped ev => Q \ {ev}
  | .idle => Q

/-- **The events that were put and not since removed or popped.** -/
def queued (history : List EvNote) : Set ℕ := history.foldl applyNote ∅

/-- The order of events: by priority, then by timestamp. -/
def key (ev : ℕ) : ℤ ×ₗ ℤ := toLex (S.priority ev, S.timestamp ev)

/-- The differences of the priorities of these events fit in an `int`. -/
def PrioritiesFit (Q : Set ℕ) : Prop := ∀ a ∈ Q, ∀ b ∈ Q, IsInt32 (S.priority a - S.priority b)

/-- **The array is a heap** of exactly these events, and each knows its position. -/
structure Kept : Prop where
  heap : S.heap.IsHeap S.key (queued S.history)
  isEvent : ∀ ev ∈ queued S.history, S.IsEvent ev
  fit : S.PrioritiesFit (queued S.history)

/-- What a caller promises: the event is one of `Events`, and its priority is not too far from those
of the events in the heap. -/
def Allowed : EvOp → Prop
  | .put ev priority _ => S.IsEvent ev ∧ ∀ y ∈ queued S.history, y ≠ ev →
      IsInt32 (priority - S.priority y) ∧ IsInt32 (S.priority y - priority)
  | .remove ev => S.IsEvent ev
  | .pop => True

/-- The event that is popped is not preceded by a queued one, and there is one if any is queued. -/
def PopsFirst : EvOp → Prop
  | .pop => ∃ S' r, S.popHeapHead = some (S', r) ∧ (r = none → queued S.history = ∅) ∧
      ∀ ev, r = some ev → ev ∈ queued S.history ∧ ∀ y ∈ queued S.history, ¬ S.key y < S.key ev
  | _ => True

/-! ## The heap after each operation -/

variable {S} {Q : Set ℕ} {ev i : ℕ}

/-- **`greater_ev` is the order of events** when the difference of the priorities fits. -/
theorem greater_iff {a b : ℕ} (hfit : IsInt32 (S.priority a - S.priority b)) :
    S.greater a b = true ↔ S.key b < S.key a := by
  unfold greater greaterEv key
  rw [wrap32_of_isInt32 hfit, decide_eq_true_iff, Prod.Lex.toLex_lt_toLex]
  by_cases hsame : S.priority a - S.priority b = 0
  · rw [if_neg (not_not.mpr hsame)]
    split_ifs with hlater <;> omega
  · rw [if_pos hsame]
    omega

theorem PrioritiesFit.greater (h : S.PrioritiesFit Q) :
    ∀ a ∈ Q, ∀ b ∈ Q, S.greater a b = true ↔ S.key b < S.key a :=
  fun a ha b hb => greater_iff (h a ha b hb)

theorem PrioritiesFit.mono {R : Set ℕ} (h : S.PrioritiesFit Q) (hR : R ⊆ Q) : S.PrioritiesFit R :=
  fun a ha b hb => h a (hR ha) b (hR hb)

/-- An event goes to a hole that is a leaf. -/
theorem moveUp_fill (hhole : S.heap.HasHole i ev Q)
    (hord : HeapArray.OrderedAround S.key S.heap i) (hleaf : S.heap.size < 2 * i)
    (hfit : S.PrioritiesFit (insert ev Q)) :
    ∃ H, S.moveUp ev i = some { S with heap := H } ∧ H.IsHeap S.key (insert ev Q) := by
  have hgt : ∀ y ∈ Q, S.greater y ev = true ↔ S.key ev < S.key y :=
    fun y hy => hfit.greater y (Set.mem_insert_of_mem ev hy) ev (Set.mem_insert ev Q)
  have hbelow : HeapArray.Below S.key S.heap i ev := by
    intro c hc hcle
    omega
  obtain ⟨H, i', hup, hmoved, habove, hbelow'⟩ := HeapArray.siftUp_moved hgt le_rfl hhole hord
  refine ⟨H.put i' ev, ?_, hmoved.hole.fill hmoved.ordered habove (hbelow' hbelow)⟩
  unfold moveUp
  simp only [hup, hmoved.hole.place_eq, some_bind]

/-- **`remove_event_from_heap` that leaves a hole.** -/
theorem removeEventFromHeap_hole {key : ℕ → ℤ ×ₗ ℤ} (h : S.heap.IsHeap key Q)
    (hev : S.IsEvent ev) (hmem : ev ∈ Q) (hkey : ∀ y, y ≠ ev → S.key y = key y)
    (hfit : S.PrioritiesFit (Q \ {ev})) :
    ∃ H i, S.removeEventFromHeap ev true = some ({ S with heap := H }, i) ∧
      H.HasHole i ev (Q \ {ev}) ∧ HeapArray.OrderedAround S.key H i ∧ H.size < 2 * i := by
  obtain ⟨hpos, hle, -⟩ := h.back ev hmem
  obtain ⟨hhole, hord⟩ := h.hole hmem hkey
  obtain ⟨H, i, hsink, hmoved, hleaf⟩ :=
    HeapArray.sinkHole_moved (n := S.heap.size + 1) hfit.greater
      (by rw [HeapArray.unplace_size]; omega) hhole.unplace hord.unplace
  refine ⟨H.clear i, i, ?_, hmoved.hole.clear, hmoved.ordered.clear, hleaf⟩
  unfold removeEventFromHeap
  simp only [hev, hpos.ne', hle, hsink, ↓reduceIte, some_bind]

/-- **`remove_event_from_heap` that fills the hole.** -/
theorem removeEventFromHeap_heap (h : S.heap.IsHeap S.key Q) (hev : S.IsEvent ev)
    (hfit : S.PrioritiesFit Q) :
    ∃ H N, S.removeEventFromHeap ev false = some ({ S with heap := H }, N) ∧
      H.IsHeap S.key (Q \ {ev}) := by
  by_cases hmem : ev ∈ Q
  · obtain ⟨hpos, hle, -⟩ := h.back ev hmem
    obtain ⟨hhole, hord⟩ := h.hole hmem (fun _ _ => rfl)
    have hfit' : S.PrioritiesFit (Q \ {ev}) := hfit.mono Set.sdiff_subset
    obtain ⟨H, i, hsink, hmoved, hleaf⟩ :=
      HeapArray.sinkHole_moved (n := S.heap.size + 1) hfit'.greater
        (by rw [HeapArray.unplace_size]; omega) hhole.unplace hord.unplace
    have hsize : H.size = S.heap.size := hmoved.size_eq
    have hfree : H.pos ev = 0 := hmoved.pos_eq.trans HeapArray.unplace_pos_self
    have hile := hmoved.hole.le_size
    unfold removeEventFromHeap
    by_cases hlast : i < S.heap.size
    · -- the last event fills the hole
      obtain ⟨last, -, hread, hslot, -⟩ :=
        hmoved.hole.exists_at (j := H.size) (by omega) le_rfl (by omega)
      obtain ⟨hhole', hord', hlastQ⟩ := hmoved.hole.shrink hmoved.ordered (by omega) hslot hfree
      have hend : H.size - 1 < H.size := by omega
      have hleaf' : H.size - 1 < 2 * i := by omega
      obtain ⟨H', hup, hheap⟩ := moveUp_fill
        (S := { S with heap := (H.clear H.size).resize (H.size - 1) })
        (hhole'.clear_end hend) (hord'.clear_end hend) hleaf'
        (hfit'.mono (Set.insert_subset hlastQ Set.sdiff_subset))
      rw [Set.insert_sdiff_singleton, Set.insert_eq_of_mem hlastQ] at hheap
      rw [hsize] at hread hup
      simp only [hev, hpos.ne', hle, hsink, hlast, hread, hup, Bool.false_eq_true, ↓reduceIte,
        some_bind]
      exact ⟨H', S.heap.size, rfl, hheap⟩
    · -- the hole is at the end
      obtain rfl : i = H.size := by omega
      have hcut := hmoved.hole.cut hmoved.ordered hfree
      simp only [hev, hpos.ne', hle, hsink, hlast, Bool.false_eq_true, ↓reduceIte, some_bind]
      rw [hsize] at hcut
      exact ⟨_, _, rfl, hcut⟩
  · have hfree : S.heap.pos ev = 0 := h.out ev hmem
    unfold removeEventFromHeap
    rw [if_pos hev, if_pos hfree, Set.sdiff_singleton_eq_self hmem]
    exact ⟨S.heap, 0, rfl, h⟩

/-- The number of an event is below `MAX_EVENTS`. -/
theorem IsEvent.lt (h : S.IsEvent ev) : ev < maxEvents := by
  obtain ⟨-, hlt, heq⟩ := h
  omega

/-- There is a place for an event that is not in the heap. -/
theorem size_lt_of_notMem {key : ℕ → ℤ ×ₗ ℤ} (h : S.heap.IsHeap key Q)
    (hevents : ∀ y ∈ Q, S.IsEvent y) (hev : S.IsEvent ev) (hnot : ev ∉ Q) :
    S.heap.size + 1 ≤ maxEvents := by
  have hsub : insert ev Q ⊆ Set.Iio maxEvents := by
    intro y hy
    rcases hy with rfl | hy
    · exact hev.lt
    · exact (hevents y hy).lt
  have hfinite : (Set.Iio maxEvents).Finite := Set.finite_Iio maxEvents
  have hcard := Set.ncard_le_ncard hsub hfinite
  rw [Set.ncard_insert_of_notMem hnot ((hfinite.subset hsub).subset (Set.subset_insert ev Q)),
    h.ncard_eq, ← Finset.coe_Iio, Set.ncard_coe_finset, Nat.card_Iio] at hcard
  exact hcard

/-- **`put_event_into_heap`**, after the priority and the timestamp of the event were set. -/
theorem putEventIntoHeap_heap {key : ℕ → ℤ ×ₗ ℤ} (h : S.heap.IsHeap key Q)
    (hevents : ∀ y ∈ Q, S.IsEvent y) (hev : S.IsEvent ev) (hkey : ∀ y, y ≠ ev → S.key y = key y)
    (hfit : S.PrioritiesFit (insert ev Q)) :
    ∃ H, S.putEventIntoHeap ev = some { S with heap := H } ∧ H.IsHeap S.key (insert ev Q) := by
  unfold putEventIntoHeap
  rw [if_pos hev]
  by_cases hmem : ev ∈ Q
  · have hpos := (h.mem_iff ev).mp hmem
    have hfit' : S.PrioritiesFit (insert ev (Q \ {ev})) := by
      rwa [Set.insert_sdiff_singleton]
    obtain ⟨H, i, hremove, hhole, hord, hleaf⟩ :=
      removeEventFromHeap_hole h hev hmem hkey (hfit'.mono (Set.subset_insert ev _))
    have hle : i ≤ maxEvents := by
      have hile := hhole.le_size
      have hlt := hhole.size_lt
      omega
    obtain ⟨H', hup, hheap⟩ := moveUp_fill (S := { S with heap := H }) hhole hord hleaf hfit'
    rw [Set.insert_sdiff_singleton] at hheap
    rw [if_pos hpos]
    simp only [hremove, hle, hup, ↓reduceIte, some_bind]
    exact ⟨H', rfl, hheap⟩
  · have hfree : S.heap.pos ev = 0 := h.out ev hmem
    have hle := size_lt_of_notMem h hevents hev hmem
    obtain ⟨hhole, hord⟩ := h.grow hmem (Nat.lt_succ_of_le hle) hkey
    have hleaf : S.heap.size + 1 < 2 * (S.heap.size + 1) := by omega
    obtain ⟨H, hup, hheap⟩ := moveUp_fill
      (S := { S with heap := S.heap.resize (S.heap.size + 1) }) hhole hord hleaf hfit
    rw [if_neg (not_not.mpr hfree)]
    simp only [hle, hup, ↓reduceIte, some_bind]
    exact ⟨H, rfl, hheap⟩

/-- **`pop_heap_head`** takes the root. -/
theorem popHeapHead_heap (h : S.heap.IsHeap S.key Q) (hfit : S.PrioritiesFit Q) :
    ∃ H r, S.popHeapHead = some ({ S with heap := H }, r) ∧
      H.IsHeap S.key (applyNote Q (r.elim .idle .popped)) ∧ (r = none → Q = ∅) ∧
      ∀ ev, r = some ev → ev ∈ Q ∧ ∀ y ∈ Q, S.key ev ≤ S.key y := by
  unfold popHeapHead
  by_cases hempty : S.heap.size = 0
  · rw [if_pos hempty]
    refine ⟨S.heap, none, rfl, h, ?_, ?_⟩
    · intro _
      by_contra hne
      obtain ⟨y, hy⟩ := Set.nonempty_iff_ne_empty.mpr hne
      obtain ⟨hpos, hle, -⟩ := h.back y hy
      omega
    · intro ev heq
      cases heq
  · obtain ⟨ev, hmem, hslot, hpos⟩ := h.filled 1 one_pos (by omega)
    have hread : S.heap.read 1 = some ev := by
      have hlt := h.size_lt
      unfold HeapArray.read
      rwa [if_pos (by omega)]
    obtain ⟨hhole, hord⟩ := h.hole hmem (fun _ _ => rfl)
    rw [hpos] at hhole hord
    have hfirst : ∀ ev', some ev = some ev' → ev' ∈ Q ∧ ∀ y ∈ Q, S.key ev' ≤ S.key y := by
      intro ev' heq
      obtain rfl := Option.some.inj heq
      exact ⟨hmem, fun y hy => h.root_le hslot hy⟩
    by_cases hone : S.heap.size - 1 = 0
    · -- the only event
      have hsize : S.heap.size = 1 := by omega
      have hcut : ((S.heap.unplace ev).resize ((S.heap.unplace ev).size - 1)).IsHeap S.key
          (Q \ {ev}) := by
        apply HeapArray.HasHole.cut
        · rw [HeapArray.unplace_size, hsize]
          exact hhole.unplace
        · rw [HeapArray.unplace_size, hsize]
          exact hord.unplace
        · exact HeapArray.unplace_pos_self
      simp only [hempty, hread, hpos, hone, HeapArray.unplace_size, ↓reduceIte, some_bind] at hcut ⊢
      exact ⟨_, some ev, rfl, hcut, fun heq => absurd heq (Option.some_ne_none ev), hfirst⟩
    · -- the last event goes down from the root
      obtain ⟨last, hlastQ₀, hreadLast, hlast, -⟩ :=
        hhole.unplace.exists_at (j := S.heap.size) (by omega) le_rfl (by omega)
      obtain ⟨hhole', hord', hlastQ⟩ := hhole.unplace.shrink hord.unplace
        (by rw [HeapArray.unplace_size]; omega) hlast HeapArray.unplace_pos_self
      have hfit' : S.PrioritiesFit (insert last ((Q \ {ev}) \ {last})) := by
        rw [Set.insert_sdiff_singleton, Set.insert_eq_of_mem hlastQ]
        exact hfit.mono Set.sdiff_subset
      obtain ⟨H, i, hdown, hmoved, habove, hbelow⟩ :=
        HeapArray.siftDown_moved (n := S.heap.size)
          (fun a ha b hb => hfit'.greater a ha b (Set.mem_insert_of_mem last hb))
          (by rw [HeapArray.resize_size, HeapArray.unplace_size]; omega) hhole' hord'
          (fun hlt => absurd hlt (lt_irrefl 1))
      have hheap := hmoved.hole.fill hmoved.ordered habove hbelow
      rw [Set.insert_sdiff_singleton, Set.insert_eq_of_mem hlastQ] at hheap
      rw [HeapArray.unplace_size] at hdown
      simp only [hempty, hread, hpos, hone, HeapArray.unplace_size, hreadLast, hdown,
        hmoved.hole.place_eq, ↓reduceIte, some_bind]
      exact ⟨_, some ev, rfl, hheap, fun heq => absurd heq (Option.some_ne_none ev), hfirst⟩

/-! ## Runs -/

theorem queued_append (history : List EvNote) (e : EvNote) :
    queued (history ++ [e]) = applyNote (queued history) e := List.foldl_concat ..

/-- Every operation that is allowed keeps the heap. -/
theorem step_kept {op : EvOp} (h : S.Kept) (hop : S.Allowed op) :
    ∃ S', S.step op = some S' ∧ S'.Kept := by
  cases op with
  | put ev priority timestamp =>
    obtain ⟨hev, hnew⟩ := hop
    generalize hT : { S with
      priority := Function.update S.priority ev priority
      timestamp := Function.update S.timestamp ev timestamp } = T
    have hother : ∀ y, y ≠ ev → T.priority y = S.priority y ∧ T.key y = S.key y := by
      intro y hy
      have hp : T.priority y = S.priority y := by
        rw [← hT]
        exact Function.update_of_ne hy ..
      have ht : T.timestamp y = S.timestamp y := by
        rw [← hT]
        exact Function.update_of_ne hy ..
      refine ⟨hp, ?_⟩
      unfold key
      rw [hp, ht]
    have hself : T.priority ev = priority := by
      rw [← hT]
      exact Function.update_self ..
    have hfit : T.PrioritiesFit (insert ev (queued S.history)) := by
      intro a ha b hb
      by_cases haev : a = ev <;> by_cases hbev : b = ev
      · rw [haev, hbev, sub_self]
        decide
      · rw [haev, hself, (hother b hbev).1]
        exact (hnew b (Set.mem_of_mem_insert_of_ne hb hbev) hbev).1
      · rw [hbev, hself, (hother a haev).1]
        exact (hnew a (Set.mem_of_mem_insert_of_ne ha haev) haev).2
      · rw [(hother a haev).1, (hother b hbev).1]
        exact h.fit a (Set.mem_of_mem_insert_of_ne ha haev) b (Set.mem_of_mem_insert_of_ne hb hbev)
    have hheap : T.heap.IsHeap S.key (queued S.history) := by
      rw [← hT]
      exact h.heap
    have hevents : ∀ y ∈ insert ev (queued S.history), T.IsEvent y := by
      intro y hy
      rw [← hT]
      rcases hy with rfl | hy
      · exact hev
      · exact h.isEvent y hy
    obtain ⟨H, hrun, hheap'⟩ := putEventIntoHeap_heap hheap
      (fun y hy => hevents y (Set.mem_insert_of_mem ev hy)) (hevents ev (Set.mem_insert ev _))
      (fun y hy => (hother y hy).2) hfit
    have hhistory : T.history = S.history := by rw [← hT]
    simp only [step, hT, hrun, some_bind]
    refine ⟨_, rfl, ?_⟩
    rw [hhistory]
    constructor
    · rw [queued_append]
      exact hheap'
    · rw [queued_append]
      exact hevents
    · rw [queued_append]
      exact hfit
  | remove ev =>
    obtain ⟨H, N, hrun, hheap⟩ := removeEventFromHeap_heap h.heap hop h.fit
    simp only [step, hrun, some_bind]
    refine ⟨_, rfl, ?_⟩
    constructor
    · rw [queued_append]
      exact hheap
    · rw [queued_append]
      exact fun y hy => h.isEvent y hy.1
    · rw [queued_append]
      exact h.fit.mono Set.sdiff_subset
  | pop =>
    obtain ⟨H, r, hrun, hheap, -, -⟩ := popHeapHead_heap h.heap h.fit
    have hsub : applyNote (queued S.history) (r.elim .idle .popped) ⊆ queued S.history := by
      cases r with
      | none => exact subset_rfl
      | some ev => exact Set.sdiff_subset
    simp only [step, hrun, some_bind]
    refine ⟨_, rfl, ?_⟩
    constructor
    · rw [queued_append]
      exact hheap
    · rw [queued_append]
      exact fun y hy => h.isEvent y (hsub hy)
    · rw [queued_append]
      exact h.fit.mono hsub

theorem kept_of_step {op : EvOp} {S' : EvState} (h : S.Kept) (hop : S.Allowed op)
    (hstep : S.step op = some S') : S'.Kept := by
  obtain ⟨S'', hrun, h'⟩ := step_kept h hop
  rw [hstep] at hrun
  rwa [Option.some.inj hrun]

theorem popsFirst_of_kept (h : S.Kept) (op : EvOp) : S.PopsFirst op := by
  cases op with
  | put ev priority timestamp => trivial
  | remove ev => trivial
  | pop =>
    obtain ⟨H, r, hrun, -, hnone, hr⟩ := popHeapHead_heap h.heap h.fit
    refine ⟨_, r, hrun, hnone, ?_⟩
    intro ev heq
    obtain ⟨hmem, hmin⟩ := hr ev heq
    exact ⟨hmem, fun y hy => not_lt.mpr (hmin y hy)⟩

theorem kept_start (fd priority timestamp : ℕ → ℤ) : (start fd priority timestamp).Kept where
  heap := HeapArray.isHeap_empty (Nat.succ_pos _) _
  isEvent := fun ev hev => absurd hev (Set.notMem_empty ev)
  fit := fun a ha => absurd ha (Set.notMem_empty a)

/-- **The heap of events.**  Over any operations that are allowed no assertion fails, the array is a
heap of the events that were put and not since removed or popped, each knows its position, and an
event is popped that no queued event precedes. -/
theorem events_kept (fd priority timestamp : ℕ → ℤ) (ops : List EvOp)
    (h : Runs.Along step Allowed (start fd priority timestamp) ops) :
    ∃ S, Runs.run step (start fd priority timestamp) ops = some S ∧ S.Kept ∧
      Runs.Along step PopsFirst (start fd priority timestamp) ops := by
  obtain ⟨S, hrun, hkept⟩ :=
    Runs.run_total (fun _ _ => step_kept) (kept_start fd priority timestamp) h
  refine ⟨S, hrun, hkept, ?_⟩
  exact Runs.along_of_invariant (fun _ _ _ => kept_of_step) (fun S op hS _ => popsFirst_of_kept hS op)
    (kept_start fd priority timestamp) h

/-- Of three events one is removed, one gets another priority in the heap, and one is popped. -/
def threeEvents : List EvOp :=
  [.put 3 5 0, .put 4 1 0, .put 5 2 7, .remove 4, .put 3 0 9, .pop]

/-- The event with the new priority is the first. -/
theorem events_kept_again :
    ∃ S, Runs.run step (start (fun v => v) (fun _ => 0) fun _ => 0) threeEvents = some S ∧
      S.history = [.put 3, .put 4, .put 5, .removed 4, .put 3, .popped 3] ∧ S.Kept ∧
      Runs.Along step PopsFirst (start (fun v => v) (fun _ => 0) fun _ => 0) threeEvents := by
  have hallowed : Runs.Along step Allowed (start (fun v => v) (fun _ => 0) fun _ => 0)
      threeEvents := by
    refine ⟨⟨by decide, ?_⟩, ⟨by decide, ?_⟩, ⟨by decide, ?_⟩, ?_, ⟨by decide, ?_⟩, trivial, ?_⟩
    · intro y hy
      exact absurd hy (Set.notMem_empty y)
    · rintro y (rfl | hy) hne
      · decide
      · exact absurd hy (Set.notMem_empty y)
    · rintro y (rfl | rfl | hy) hne
      · decide
      · decide
      · exact absurd hy (Set.notMem_empty y)
    · exact ⟨by decide, by decide, rfl⟩
    · rintro y ⟨rfl | rfl | rfl | hy, h4⟩ hne
      · decide
      · exact absurd rfl h4
      · decide
      · exact absurd hy (Set.notMem_empty y)
    · trivial
  obtain ⟨S, hrun, hkept, hpops⟩ := events_kept _ _ _ threeEvents hallowed
  have hhistory := congrArg (Option.map EvState.history) hrun
  exact ⟨S, hrun, (Option.some.inj hhistory).symm, hkept, hpops⟩

end EvState

end MtprotoProxy
