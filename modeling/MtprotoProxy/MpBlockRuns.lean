/-
# Runs of the calls on one block of the unbounded queue

What holds whatever order the accesses come in.  `block_keeps_values`: no value is lost, doubled or
made up, and a value that the pops have passed by belongs to a pop that is still under way.
`block_nothing`: a pop answers that the block is empty only where every value in it is about to be
returned by another pop.  `block_fifo`: values are returned in the order in which they were
pushed.  `block_closed`: after a push has failed, no later one succeeds.  `block_alone`: a call
that is not disturbed comes to its end and does what `QueueBlock.pop` and `QueueBlock.push` say.
-/
import MtprotoProxy.MpBlockInv
import MtprotoProxy.MpQueueRounds

namespace MtprotoProxy

open Activations

/-! ## The beginning -/

/-- The record of a block that holds `vals` from the position `start` on. -/
def loaded (start : ℕ) (vals : List ℕ) : List BlockEvent :=
  (vals.zipIdx start).map fun x => .pushed x.2 x.1

@[simp] theorem pushes_loaded (start : ℕ) (vals : List ℕ) :
    pushes (loaded start vals) = (vals.zipIdx start).map Prod.swap := by
  unfold pushes loaded
  rw [List.filterMap_map]
  show (vals.zipIdx start).filterMap (some ∘ Prod.swap) = _
  rw [List.filterMap_eq_map]

@[simp] theorem pops_loaded (start : ℕ) (vals : List ℕ) : pops (loaded start vals) = [] := by
  unfold pops loaded
  rw [List.filterMap_map]
  exact List.filterMap_eq_nil_iff.mpr fun _ _ => rfl

theorem mem_pushes_loaded {start : ℕ} {vals : List ℕ} {t v : ℕ} :
    (t, v) ∈ pushes (loaded start vals) ↔ ∃ i, t = start + i ∧ vals[i]? = some v := by
  rw [pushes_loaded, List.mem_map]
  constructor
  · rintro ⟨⟨w, u⟩, hmem, hswap⟩
    obtain ⟨hle, hget⟩ := List.mem_zipIdx_iff_le_and_getElem?_sub.mp hmem
    obtain ⟨rfl, rfl⟩ := Prod.mk.inj hswap
    exact ⟨u - start, by omega, hget⟩
  · rintro ⟨i, rfl, hget⟩
    refine ⟨(v, start + i), List.mem_zipIdx_iff_le_and_getElem?_sub.mpr ⟨by omega, ?_⟩, rfl⟩
    rw [Nat.add_sub_cancel_left]
    exact hget

namespace QueueBlock

variable {B : QueueBlock} {vals : List ℕ}

/-- Each position shares its node with one of the next `B.size` ones. -/
theorem exists_near (hsize : 0 < B.size) (i : ℕ) :
    ∃ j < B.size, (B.head + j) % B.size = i % B.size := by
  refine ⟨(i + B.size * B.head - B.head) % B.size, Nat.mod_lt _ hsize, ?_⟩
  rw [Nat.add_mod_mod]
  have hle : B.head ≤ B.size * B.head := Nat.le_mul_of_pos_left _ hsize
  rw [show B.head + (i + B.size * B.head - B.head) = i + B.size * B.head by omega,
    Nat.add_mul_mod_self_left]

/-- **The invariant holds** of a block on which one thread has worked so far. -/
theorem Contains.blockInv (h : B.Contains vals) (hsize : 0 < B.size) :
    BlockInv B 0 (loaded B.head vals) := by
  have hnode : ∀ i, ∃ j < B.size, B.node i = ⟨true, B.head + j, vals.getD j 0⟩ ∧
      (B.head + j) % B.size = i % B.size := by
    intro i
    obtain ⟨j, hj, hmod⟩ := exists_near hsize i
    exact ⟨j, hj, (node_congr hmod).symm.trans (h.node j hj), hmod⟩
  have hpos : ((pushes (loaded B.head vals)).map Prod.fst) =
      List.range' B.head vals.length := by
    rw [pushes_loaded, List.map_map]
    exact List.zipIdx_map_snd B.head vals
  constructor
  · exact hsize
  · intro i
    obtain ⟨j, -, hj, hmod⟩ := hnode i
    rw [hj]
    exact hmod
  · simp [heads, claimed]
  · simp [heads, claimed]
  · simp only [tails, pending, Multiset.filterMap_zero, zero_add, hpos]
    exact List.nodup_range'
  · intro t ht
    simp only [tails, pending, Multiset.filterMap_zero, zero_add, hpos, Multiset.mem_coe,
      List.mem_range'_1] at ht
    cases hclosed : B.closed with
    | false =>
      rw [h.opened hclosed]
      exact ht.2
    | true =>
      refine ht.2.trans_le (h.shut hclosed ?_)
      rintro rfl
      exact absurd ht.2 (not_lt.mpr ht.1)
  · intro i v hv
    rw [pops_loaded, mem_pushes_loaded]
    constructor
    · rintro ⟨hidx, hval⟩
      obtain ⟨j, hj, hnode, -⟩ := hnode i
      rw [hnode] at hidx hval
      refine ⟨⟨j, hidx.symm, ?_⟩, List.not_mem_nil⟩
      rw [List.getD_eq_getElem?_getD] at hval
      cases hget : vals[j]? with
      | none =>
        rw [hget] at hval
        exact absurd hval.symm hv
      | some w =>
        rw [hget] at hval
        rw [← hval]
        rfl
    · rintro ⟨⟨j, rfl, hget⟩, -⟩
      have hj : j < vals.length := (List.getElem?_eq_some_iff.mp hget).1
      rw [h.node j (hj.trans_le h.length)]
      refine ⟨rfl, ?_⟩
      show vals.getD j 0 = v
      rw [List.getD_eq_getElem?_getD, hget]
      rfl
  · rw [pops_loaded]
    exact List.nil_subset _
  · rintro ⟨t, v⟩ hx hv
    obtain ⟨i, -, hget⟩ := (mem_pushes_loaded).mp hx
    change v = 0 at hv
    rw [hv] at hget
    exact h.nonzero (List.mem_of_getElem? hget)
  · intro k hk
    obtain ⟨j, -, hj, -⟩ := hnode k
    left
    rw [hj]
    exact hk.1.trans_le (Nat.le_add_right _ _)
  · intro p hp
    exact absurd hp (Multiset.notMem_zero p)

theorem mem_stored {M : Multiset BlockCall} {es : List BlockEvent} (hI : BlockInv B M es)
    {x : ℕ × ℕ} :
    x ∈ B.stored ↔ x.2 ≠ 0 ∧ (B.node x.1).idx = x.1 ∧ (B.node x.1).val = x.2 := by
  unfold stored
  rw [Multiset.mem_filter, Multiset.mem_map, and_comm]
  refine and_congr_right fun _ => ?_
  constructor
  · rintro ⟨k, hk, rfl⟩
    rw [Multiset.mem_range] at hk
    have hres := hI.residue k
    have hself : B.node k = B.nodes k := by
      show B.nodes (k % B.size) = _
      rw [Nat.mod_eq_of_lt hk]
    rw [hself] at hres
    have hnode : B.node (B.nodes k).idx = B.nodes k := (node_congr hres).trans hself
    show (B.node (B.nodes k).idx).idx = (B.nodes k).idx ∧ _
    rw [hnode]
    exact ⟨rfl, rfl⟩
  · rintro ⟨hidx, hval⟩
    refine ⟨x.1 % B.size, Multiset.mem_range.mpr (Nat.mod_lt _ hI.size_pos), ?_⟩
    exact Prod.ext hidx hval

/-- No value is there twice. -/
theorem nodup_stored {M : Multiset BlockCall} {es : List BlockEvent} (hI : BlockInv B M es) :
    B.stored.Nodup := by
  refine Multiset.Nodup.filter _ (Multiset.Nodup.map_on ?_ (Multiset.nodup_range _))
  intro k hk l hl he
  rw [Multiset.mem_range] at hk hl
  have hk' := hI.residue k
  have hl' := hI.residue l
  unfold node at hk' hl'
  rw [Nat.mod_eq_of_lt hk] at hk'
  rw [Nat.mod_eq_of_lt hl] at hl'
  rw [← hk', ← hl', (Prod.mk.inj he).1]

end QueueBlock

/-! ## One call after the other -/

/-- The next accesses of a call, `n` of them at most, where the others stand still. -/
def BlockCall.solo : ℕ → QueueBlock → Option BlockCall →
    QueueBlock × Option BlockCall × List BlockEvent
  | 0, B, a => (B, a, [])
  | _ + 1, B, none => (B, none, [])
  | n + 1, B, some p =>
    let next := p.access B
    let rest := solo n next.1 next.2.1
    (rest.1, rest.2.1, next.2.2 ++ rest.2.2)

theorem solo_alone (n : ℕ) (B : QueueBlock) (a : Option BlockCall) :
    Alone BlockAct B a (BlockCall.solo n B a).1 (BlockCall.solo n B a).2.1
      (BlockCall.solo n B a).2.2 := by
  induction n generalizing B a with
  | zero =>
    rw [show BlockCall.solo 0 B a = (B, a, []) from by cases a <;> rfl]
    exact .refl B a
  | succ n ih =>
    cases a with
    | none => exact .refl B none
    | some p => exact (Alone.single (BlockAct.access B p)).trans (ih _ _)

theorem call_alone {B : QueueBlock} {p : BlockCall} (n : ℕ)
    (hbegin : BlockAct B none B (some p) []) :
    Alone BlockAct B none (BlockCall.solo n B (some p)).1 (BlockCall.solo n B (some p)).2.1
      (BlockCall.solo n B (some p)).2.2 :=
  (Alone.single hbegin).trans (solo_alone n B (some p))

/-- A call from its beginning to its end, where no other is under way. -/
theorem call_reaches {B : QueueBlock} {p : BlockCall} (n : ℕ) (new : List BlockEvent)
    (hbegin : BlockAct B none B (some p) []) (hend : (BlockCall.solo n B (some p)).2 = (none, new))
    (es : List BlockEvent) :
    Reaches BlockAct ⟨B, 0, es⟩ ⟨(BlockCall.solo n B (some p)).1, 0, es ++ new⟩ := by
  have hrun := (call_alone n hbegin).reaches 0 es
  rw [hend] at hrun
  exact hrun

/-! ## Every run -/

/-- A block with 5 whose memory is new, of 64 nodes. -/
theorem fresh_contains : (QueueBlock.init 0 64 5 freshNodes).Contains [5] :=
  init_contains 0 5 (by decide) (fun _ _ => rfl)

section Runs

variable {B₀ : QueueBlock} {vals : List ℕ} {c c' : BlockConfig}

/-- What can happen to a block that holds `vals` when the first of the calls begins. -/
def BlockRun (B : QueueBlock) (vals : List ℕ) (c : BlockConfig) : Prop :=
  Reaches BlockAct ⟨B, 0, loaded B.head vals⟩ c

/-- The invariant, of a configuration. -/
def BlockConfig.Inv (c : BlockConfig) : Prop := BlockInv c.memory c.calls c.record

theorem BlockConfig.Inv.reaches (h : c.Inv) (hrun : Reaches BlockAct c c') : c'.Inv :=
  hrun.invariant (I := BlockConfig.Inv) (fun _ _ hact hI => BlockInv.step hact hI) h

theorem BlockRun.inv (hrun : BlockRun B₀ vals c) (h₀ : B₀.Contains vals) (hsize : 0 < B₀.size) :
    c.Inv :=
  BlockConfig.Inv.reaches (c := ⟨B₀, 0, loaded B₀.head vals⟩) (h₀.blockInv hsize) hrun

/-- What was pushed and not popped is in the nodes. -/
theorem BlockConfig.Inv.pushes_eq (h : c.Inv) :
    (pushes c.record : Multiset (ℕ × ℕ)) = pops c.record + c.memory.stored := by
  have hpushed : (pushes c.record).Nodup := (nodup_positions h.tails_nodup).of_map
  have hpopped : (pops c.record).Nodup := (nodup_positions h.heads_nodup).of_map
  have hdisj : Disjoint (pops c.record : Multiset (ℕ × ℕ)) c.memory.stored := by
    rw [Multiset.disjoint_left]
    intro x hx hstored
    obtain ⟨hne, hheld⟩ := (QueueBlock.mem_stored h).mp hstored
    exact ((h.holds x.1 x.2 hne).mp hheld).2 (Multiset.mem_coe.mp hx)
  refine (Multiset.Nodup.ext (Multiset.coe_nodup.mpr hpushed) ?_).mpr ?_
  · exact Multiset.nodup_add.mpr
      ⟨Multiset.coe_nodup.mpr hpopped, QueueBlock.nodup_stored h, hdisj⟩
  · intro x
    rw [Multiset.mem_add, Multiset.mem_coe, Multiset.mem_coe, QueueBlock.mem_stored h]
    constructor
    · intro hx
      have hne := h.nonzero x hx
      by_cases hpop : x ∈ pops c.record
      · exact Or.inl hpop
      · exact Or.inr ⟨hne, (h.holds x.1 x.2 hne).mpr ⟨hx, hpop⟩⟩
    · rintro (hx | ⟨hne, hheld⟩)
      · exact h.pops_subset hx
      · exact ((h.holds x.1 x.2 hne).mp hheld).1

/-- Where a value is that was not popped. -/
theorem BlockConfig.Inv.place (h : c.Inv) {x : ℕ × ℕ} (hx : x ∈ c.memory.stored) :
    x.1 < c.memory.tail ∧ (x.1 < c.memory.head → x.1 ∈ claimed c.calls) := by
  obtain ⟨hne, hidx, hval⟩ := (QueueBlock.mem_stored h).mp hx
  constructor
  · exact h.tails_lt _ (mem_positions _ ((h.holds x.1 x.2 hne).mp ⟨hidx, hval⟩).1)
  · intro hhead
    by_contra hnot
    rcases h.spent x.1 ⟨hhead, hnot⟩ with hlt | ⟨-, hzero⟩
    · exact absurd hidx hlt.ne'
    · exact hne (hval.symm.trans (hzero hidx))

/-- **No value is lost, doubled or made up**, whatever calls are made and in whatever order their
accesses come: what was pushed is what was popped together with what is in the nodes, each at a
position of its own; and what is there lies before the tail, and from the head on unless a pop is
under way that has come to it. -/
theorem block_keeps_values (h₀ : B₀.Contains vals) (hsize : 0 < B₀.size)
    (hrun : BlockRun B₀ vals c) :
    (pushes c.record : Multiset (ℕ × ℕ)) = pops c.record + c.memory.stored ∧
      ((pushes c.record).map Prod.fst).Nodup ∧
      ∀ x ∈ c.memory.stored, x.1 < c.memory.tail ∧
        (x.1 < c.memory.head → x.1 ∈ claimed c.calls) := by
  have hI := hrun.inv h₀ hsize
  exact ⟨hI.pushes_eq, nodup_positions hI.tails_nodup, fun x hx => hI.place hx⟩

/-- After a push of 7 to a block with 5. -/
theorem block_keeps_values_two : ∃ c, BlockRun (QueueBlock.init 0 64 5 freshNodes) [5] c ∧
    pushes c.record = [(0, 5), (1, 7)] ∧
    (pushes c.record : Multiset (ℕ × ℕ)) = pops c.record + c.memory.stored := by
  have hrun := call_reaches 5 [.pushed 1 7]
    (.push (QueueBlock.init 0 64 5 freshNodes) (by decide : 7 ≠ 0)) rfl (loaded 0 [5])
  exact ⟨_, hrun, rfl, (block_keeps_values fresh_contains (by decide) hrun).1⟩

/-- **A pop that finds the block empty is right**: when it reads a tail that makes it return 0,
every value in the block is claimed by another pop that is under way. -/
theorem block_nothing (h₀ : B₀.Contains vals) (hsize : 0 < B₀.size) {B : QueueBlock} {h : ℕ}
    {M : Multiset BlockCall} {es : List BlockEvent}
    (hrun : BlockRun B₀ vals ⟨B, held (some (.popTail h)) + M, es⟩) (htail : B.tail ≤ h + 1) :
    ∀ x ∈ B.stored, x.1 ∈ claimed M := by
  have hI := hrun.inv h₀ hsize
  intro x hx
  obtain ⟨hlt, hclaimed⟩ := hI.place hx
  have hhead : h < B.head := BlockInv.sound_self hI
  have hmem := hclaimed (show x.1 < B.head by change x.1 < B.tail at hlt; omega)
  rw [claimed_held, mem_held_add] at hmem
  exact hmem.resolve_left (Option.not_mem_none _)

/-- A pop that comes after one which has taken the position of the 5. -/
theorem block_nothing_claimed : ∃ B es,
    BlockRun (QueueBlock.init 0 64 5 freshNodes) [5]
      ⟨B, held (some (.popTail 1)) + {.popVal 0}, es⟩ ∧ B.tail ≤ 2 ∧ (0, 5) ∈ B.stored ∧
    ∀ x ∈ B.stored, x.1 ∈ claimed {.popVal 0} := by
  have hfirst := call_alone 1 (.pop (QueueBlock.init 0 64 5 freshNodes))
  have hsecond := call_alone 4 (.pop { QueueBlock.init 0 64 5 freshNodes with head := 1 })
  have hlater := hsecond.reaches {.popVal 0} (loaded 0 [5])
  have hrun : BlockRun (QueueBlock.init 0 64 5 freshNodes) [5]
      ⟨_, held (some (.popTail 1)) + {.popVal 0}, _⟩ :=
    (hfirst.reaches 0 (loaded 0 [5])).trans hlater
  exact ⟨_, _, hrun, by decide, by decide,
    block_nothing (h := 1) fresh_contains (by decide) hrun (by decide)⟩

/-! ## From one moment to a later one -/

/-- What an access of the call `a` can change. -/
structure BlockAdvances (B : QueueBlock) (a : Option BlockCall) (B' : QueueBlock)
    (b : Option BlockCall) (new : List BlockEvent) : Prop where
  head_le : B.head ≤ B'.head
  tail_le : B.tail ≤ B'.tail
  closed : B.closed = true → B'.closed = true
  popping : ∀ h ∈ b.bind BlockCall.popping, h ∈ a.bind BlockCall.popping ∨ B.head ≤ h
  pushing : ∀ t ∈ b.bind BlockCall.pushing,
    t ∈ a.bind BlockCall.pushing ∨ B.tail ≤ t ∧ B.closed = false
  returns : ∀ x ∈ pops new, x.1 ∈ a.bind BlockCall.popping
  stores : ∀ x ∈ pushes new, x.1 ∈ a.bind BlockCall.pushing
  refused : ∀ val, .refused val ∈ new → B'.closed = true

/-- An access that takes no position and tells the caller of none. -/
theorem BlockAdvances.stays {B B' : QueueBlock} {a b : Option BlockCall} {new : List BlockEvent}
    (hhead : B'.head = B.head) (htail : B.tail ≤ B'.tail) (hclosed : B'.closed = B.closed)
    (hpop : b.bind BlockCall.popping = a.bind BlockCall.popping ∨
      b.bind BlockCall.popping = none)
    (hpush : b.bind BlockCall.pushing = a.bind BlockCall.pushing ∨
      b.bind BlockCall.pushing = none) (hnew : new = [] ∨ new = [.nothing]) :
    BlockAdvances B a B' b new := by
  refine ⟨hhead.ge, htail, fun h => hclosed.trans h, ?_, ?_, ?_, ?_, ?_⟩
  · intro h hh
    rcases hpop with hpop | hpop
    · exact Or.inl (hpop ▸ hh)
    · rw [hpop] at hh
      exact absurd hh (Option.not_mem_none h)
  · intro t ht
    rcases hpush with hpush | hpush
    · exact Or.inl (hpush ▸ ht)
    · rw [hpush] at ht
      exact absurd ht (Option.not_mem_none t)
  · rcases hnew with rfl | rfl <;> simp [pops]
  · rcases hnew with rfl | rfl <;> simp [pushes]
  · rcases hnew with rfl | rfl <;> simp

theorem BlockInv.advances {B B' : QueueBlock} {a b : Option BlockCall} {M : Multiset BlockCall}
    {es new : List BlockEvent} (hact : BlockAct B a B' b new) (hI : BlockInv B (held a + M) es) :
    BlockAdvances B a B' b new := by
  have hreads : ∀ {b : Option BlockCall},
      (b.bind BlockCall.popping = a.bind BlockCall.popping ∨ b.bind BlockCall.popping = none) →
      (b.bind BlockCall.pushing = a.bind BlockCall.pushing ∨ b.bind BlockCall.pushing = none) →
      BlockAdvances B a B b [] :=
    fun hpop hpush => .stays rfl le_rfl rfl hpop hpush (Or.inl rfl)
  cases hact with
  | pop => exact hreads (Or.inl rfl) (Or.inl rfl)
  | push => exact hreads (Or.inl rfl) (Or.inl rfl)
  | access p =>
    cases p with
    | takeHead =>
      exact ⟨Nat.le_succ _, le_rfl, id, by simp [BlockCall.access, BlockCall.popping],
        by simp [BlockCall.access, BlockCall.pushing], by simp [BlockCall.access, pops],
        by simp [BlockCall.access, pushes], by simp [BlockCall.access]⟩
    | popSwap h d =>
      simp only [BlockCall.access]
      split
      · split
        · split
          · exact ⟨le_rfl, le_rfl, id, by simp, by simp, by simp [pops, BlockCall.popping],
              by simp [pushes], by simp⟩
          · exact .stays rfl le_rfl rfl (Or.inr rfl) (Or.inl rfl) (Or.inl rfl)
        · exact .stays rfl le_rfl rfl (Or.inr rfl) (Or.inl rfl) (Or.inl rfl)
      · exact hreads (Or.inl rfl) (Or.inl rfl)
    | fixSwap t h =>
      simp only [BlockCall.access]
      split
      · rename_i hread
        exact .stays rfl (hread.1.trans_le hI.sound_self) rfl (Or.inl rfl) (Or.inl rfl)
          (Or.inr rfl)
      · exact hreads (Or.inl rfl) (Or.inl rfl)
    | takeTail val left =>
      simp only [BlockCall.access]
      split
      · rename_i hclosed
        exact ⟨le_rfl, Nat.le_succ _, id, by simp, by simp, by simp [pops], by simp [pushes],
          fun _ _ => hclosed⟩
      · rename_i hopen
        rw [Bool.not_eq_true] at hopen
        exact ⟨le_rfl, Nat.le_succ _, id, by simp [BlockCall.popping],
          by simp [BlockCall.pushing, hopen], by simp [pops], by simp [pushes], by simp⟩
    | pushSwap val left t d =>
      simp only [BlockCall.access]
      split
      · exact ⟨le_rfl, le_rfl, id, by simp, by simp, by simp [pops],
          by simp [pushes, BlockCall.pushing], by simp⟩
      · exact hreads (Or.inl rfl) (Or.inr rfl)
    | close val =>
      exact ⟨le_rfl, le_rfl, fun _ => rfl, by simp [BlockCall.access], by simp [BlockCall.access],
        by simp [BlockCall.access, pops], by simp [BlockCall.access, pushes], fun _ _ => rfl⟩
    | popVal h => exact hreads (Or.inl rfl) (Or.inl rfl)
    | fixTail => exact hreads (Or.inl rfl) (Or.inl rfl)
    | pushVal val left t => exact hreads (Or.inl rfl) (Or.inl rfl)
    | popIdx h val =>
      simp only [BlockCall.access]
      split
      · exact hreads (Or.inr rfl) (Or.inl rfl)
      · exact hreads (Or.inl rfl) (Or.inl rfl)
    | popTail h =>
      simp only [BlockCall.access]
      split <;> exact hreads (Or.inl rfl) (Or.inl rfl)
    | fixHead t closed =>
      simp only [BlockCall.access]
      split
      · exact .stays rfl le_rfl rfl (Or.inl rfl) (Or.inl rfl) (Or.inr rfl)
      · exact hreads (Or.inl rfl) (Or.inl rfl)
    | fixAgain t h =>
      simp only [BlockCall.access]
      split <;> exact hreads (Or.inl rfl) (Or.inl rfl)
    | pushIdx val left t old =>
      simp only [BlockCall.access]
      split
      · split <;> exact hreads (Or.inl rfl) (Or.inl rfl)
      · exact hreads (Or.inl rfl) (Or.inr rfl)
    | pushHead val left t d =>
      simp only [BlockCall.access]
      split
      · exact hreads (Or.inl rfl) (Or.inl rfl)
      · exact hreads (Or.inl rfl) (Or.inr rfl)
    | pushAgain val left t =>
      simp only [BlockCall.access]
      split
      · exact hreads (Or.inl rfl) (Or.inl rfl)
      · split <;> exact hreads (Or.inl rfl) (Or.inl rfl)

/-- What lies between a moment and a later one. -/
structure Leads (c c' : BlockConfig) : Prop where
  head_le : c.memory.head ≤ c'.memory.head
  tail_le : c.memory.tail ≤ c'.memory.tail
  closed : c.memory.closed = true → c'.memory.closed = true
  claims : ∀ h ∈ claimed c'.calls, h ∈ claimed c.calls ∨ c.memory.head ≤ h
  takes : ∀ t ∈ pending c'.calls,
    t ∈ pending c.calls ∨ c.memory.tail ≤ t ∧ c.memory.closed = false
  pushes_subset : pushes c.record ⊆ pushes c'.record
  stores : ∀ x ∈ pushes c'.record,
    x ∈ pushes c.record ∨ x.1 ∈ pending c.calls ∨
      c.memory.tail ≤ x.1 ∧ c.memory.closed = false
  refused : (∀ val, .refused val ∈ c.record → c.memory.closed = true) →
    ∀ val, .refused val ∈ c'.record → c'.memory.closed = true

theorem Leads.refl (c : BlockConfig) : Leads c c :=
  ⟨le_rfl, le_rfl, id, fun _ h => Or.inl h, fun _ h => Or.inl h, List.Subset.refl _,
    fun _ h => Or.inl h, id⟩

/-- One more access. -/
theorem Leads.step {B B' : QueueBlock} {a b : Option BlockCall} {M : Multiset BlockCall}
    {es new : List BlockEvent} (h : Leads c ⟨B, held a + M, es⟩)
    (hadv : BlockAdvances B a B' b new) :
    Leads c ⟨B', held b + M, es ++ new⟩ := by
  have hclaimed := h.claims
  have hpending := h.takes
  simp only [claimed_held, mem_held_add] at hclaimed
  simp only [pending_held, mem_held_add] at hpending
  have hopen : B.closed = false → c.memory.closed = false := by
    intro hB
    by_contra hc
    rw [Bool.not_eq_false] at hc
    exact absurd (hB.symm.trans (h.closed hc)) (by simp)
  refine ⟨h.head_le.trans hadv.head_le, h.tail_le.trans hadv.tail_le,
    fun hc => hadv.closed (h.closed hc), ?_, ?_, ?_, ?_, ?_⟩
  · intro k hk
    rw [claimed_held, mem_held_add] at hk
    rcases hk with hk | hk
    · rcases hadv.popping k hk with hk | hk
      · exact hclaimed k (Or.inl hk)
      · exact Or.inr (h.head_le.trans hk)
    · exact hclaimed k (Or.inr hk)
  · intro t ht
    rw [pending_held, mem_held_add] at ht
    rcases ht with ht | ht
    · rcases hadv.pushing t ht with ht | ⟨hle, hB⟩
      · exact hpending t (Or.inl ht)
      · exact Or.inr ⟨h.tail_le.trans hle, hopen hB⟩
    · exact hpending t (Or.inr ht)
  · rw [pushes_append]
    exact List.Subset.trans h.pushes_subset (List.subset_append_left _ _)
  · intro x hx
    rw [pushes_append, List.mem_append] at hx
    rcases hx with hx | hx
    · exact h.stores x hx
    · exact Or.inr (hpending x.1 (Or.inl (hadv.stores x hx)))
  · intro hfirst val hmem
    rcases List.mem_append.mp hmem with hmem | hmem
    · exact hadv.closed (h.refused hfirst val hmem)
    · exact hadv.refused val hmem

theorem BlockConfig.Inv.leads (h : c.Inv) (hrun : Reaches BlockAct c c') : Leads c c' :=
  hrun.along (I := BlockConfig.Inv) (R := Leads) (fun _ _ hact hI => BlockInv.step hact hI)
    (fun _ _ hact hI hR => hR.step (BlockInv.advances hact hI)) h (.refl c)

/-- **First in, first out.**  A push of `v` had returned before a push of `w` began.  Once a pop has
returned `w`, one has returned `v` too, or is under way and has come to it. -/
theorem block_fifo (h₀ : B₀.Contains vals) (hsize : 0 < B₀.size) (hrun : BlockRun B₀ vals c)
    (hlater : Reaches BlockAct c c') {t u v w : ℕ} (hv : (t, v) ∈ pushes c.record)
    (hw : (u, w) ∈ pops c'.record) (hnew : (u, w) ∉ pushes c.record)
    (hbegan : u ∉ pending c.calls) : (t, v) ∈ pops c'.record ∨ t ∈ claimed c'.calls := by
  have hI := hrun.inv h₀ hsize
  have hI' := hI.reaches hlater
  have hleads := hI.leads hlater
  have ht : t < c.memory.tail := hI.tails_lt t (mem_positions _ hv)
  have hu : u < c'.memory.head := hI'.heads_lt u (mem_positions _ hw)
  have htu : t < u := by
    rcases hleads.stores _ (hI'.pops_subset hw) with hold | hold | ⟨hle, -⟩
    · exact absurd hold hnew
    · exact absurd hold hbegan
    · exact ht.trans_le hle
  have hmem : (t, v) ∈ pops c'.record + c'.memory.stored := by
    rw [← hI'.pushes_eq]
    exact Multiset.mem_coe.mpr (hleads.pushes_subset hv)
  rcases Multiset.mem_add.mp hmem with hmem | hmem
  · exact Or.inl (Multiset.mem_coe.mp hmem)
  · exact Or.inr ((hI'.place hmem).2 (htu.trans hu))

/-- 7 is pushed to a block with 5, and both are popped. -/
theorem block_fifo_two : ∃ c,
    Reaches BlockAct ⟨QueueBlock.init 0 64 5 freshNodes, 0, loaded 0 [5]⟩ c ∧
      (1, 7) ∈ pops c.record ∧ ((0, 5) ∈ pops c.record ∨ 0 ∈ claimed c.calls) := by
  have h₁ := call_reaches 5 [.pushed 1 7]
    (.push (QueueBlock.init 0 64 5 freshNodes) (by decide : 7 ≠ 0)) rfl (loaded 0 [5])
  generalize hB₁ : (BlockCall.solo 5 (QueueBlock.init 0 64 5 freshNodes) (some (.push 7))).1 = B₁
    at h₁
  have h₂ := call_reaches 5 [.popped 0 5] (.pop B₁) (by rw [← hB₁]; rfl)
    (loaded 0 [5] ++ [.pushed 1 7])
  generalize hB₂ : (BlockCall.solo 5 B₁ (some .pop)).1 = B₂ at h₂
  have h₃ := call_reaches 5 [.popped 1 7] (.pop B₂) (by rw [← hB₂, ← hB₁]; rfl)
    (loaded 0 [5] ++ [.pushed 1 7] ++ [.popped 0 5])
  have hv : (0, 5) ∈ pushes (loaded 0 [5]) := by decide
  have hw : (1, 7) ∈ pops [.pushed 0 5, .pushed 1 7, .popped 0 5, .popped 1 7] := by decide
  have hnew : (1, 7) ∉ pushes (loaded 0 [5]) := by decide
  exact ⟨_, (h₁.trans h₂).trans h₃, hw, block_fifo (c := ⟨_, 0, loaded 0 [5]⟩) fresh_contains
    (by decide) Relation.ReflTransGen.refl ((h₁.trans h₂).trans h₃) hv hw hnew
    (Multiset.notMem_zero _)⟩

/-- **A block that has refused a value** is closed for good: the pushes that succeed afterwards
were under way already, and had taken their positions. -/
theorem block_closed (h₀ : B₀.Contains vals) (hsize : 0 < B₀.size) (hrun : BlockRun B₀ vals c)
    (hlater : Reaches BlockAct c c') {val : ℕ} (hrefused : .refused val ∈ c.record) :
    c'.memory.closed = true ∧
      ∀ x ∈ pushes c'.record, x ∈ pushes c.record ∨ x.1 ∈ pending c.calls := by
  have hI := hrun.inv h₀ hsize
  have hleads := hI.leads hlater
  have hfirst := BlockConfig.Inv.leads (c := ⟨B₀, 0, loaded B₀.head vals⟩)
    (h₀.blockInv hsize) hrun
  have hclosed : c.memory.closed = true := by
    refine hfirst.refused ?_ val hrefused
    intro w hw
    simp [loaded] at hw
  refine ⟨hleads.closed hclosed, fun x hx => ?_⟩
  rcases hleads.stores x hx with hold | hold | ⟨-, hopen⟩
  · exact Or.inl hold
  · exact Or.inr hold
  · exact absurd (hclosed.symm.trans hopen) (by simp)

/-- A block of one node that is full refuses 7, and 9 after it. -/
theorem block_closed_full :
    let B := (BlockCall.solo 8 (QueueBlock.init 0 1 5 freshNodes) (some (.push 7))).1
    let B' := (BlockCall.solo 8 B (some (.push 9))).1
    B'.closed = true ∧ ∀ x ∈ pushes [.pushed 0 5, .refused 7, .refused 9],
      x ∈ pushes [.pushed 0 5, .refused 7] ∨ x.1 ∈ pending 0 := by
  have h₁ := call_reaches 8 [.refused 7]
    (.push (QueueBlock.init 0 1 5 freshNodes) (by decide : 7 ≠ 0)) rfl (loaded 0 [5])
  have h₂ := call_reaches 8 [.refused 9]
    (.push (BlockCall.solo 8 (QueueBlock.init 0 1 5 freshNodes) (some (.push 7))).1
      (by decide : 9 ≠ 0)) rfl (loaded 0 [5] ++ [.refused 7])
  have hrefused : .refused 7 ∈ loaded 0 [5] ++ [.refused 7] := by decide
  exact block_closed (init_contains 0 5 (by decide) (fun _ _ => rfl)) (by decide) h₁ h₂ hrefused

end Runs

/-! ## A call that is not disturbed -/

section Undisturbed

variable {B B' : QueueBlock} {c : BlockConfig}

/-- A pop at its position, not disturbed. -/
theorem visit_alone (B : QueueBlock) (h : ℕ) :
    ((B.visit h).2 = 0 ∧ Alone BlockAct B (some (.popVal h)) (B.visit h).1 (some (.popTail h)) []) ∨
      ((B.visit h).2 ≠ 0 ∧
        Alone BlockAct B (some (.popVal h)) (B.visit h).1 none [.popped h (B.visit h).2]) := by
  have hread := solo_alone 2 B (some (.popVal h))
  have hswap := solo_alone 3 B (some (.popVal h))
  simp only [BlockCall.solo, BlockCall.access] at hread hswap
  unfold QueueBlock.visit
  -- the swap finds the node that was read
  rcases hnode : B.node h with ⟨safe, idx, val⟩
  simp only [hnode] at hread hswap ⊢
  by_cases hlt : h < idx
  · left
    simpa [hlt] using hread
  · by_cases hval : val = 0
    · left
      simpa [hlt, hval, hnode, BlockCall.solo, BlockCall.access] using hswap
    · by_cases hidx : idx = h
      · right
        simpa [hlt, hval, hidx, hnode, BlockCall.solo, BlockCall.access] using hswap
      · left
        simpa [hlt, hval, hidx, hnode, BlockCall.solo, BlockCall.access] using hswap

/-- `mpq_fix_state`, not disturbed. -/
theorem fixState_alone (B : QueueBlock) :
    Alone BlockAct B (some .fixTail) B.fixState none [.nothing] := by
  have hread := solo_alone 2 B (some .fixTail)
  have hswap := solo_alone 4 B (some .fixTail)
  simp only [BlockCall.solo, BlockCall.access] at hread hswap
  unfold QueueBlock.fixState
  by_cases hfine : B.closed = true ∨ B.head ≤ B.tail
  · simpa [hfine, BlockCall.solo] using hread
  · obtain ⟨hopen, hlt⟩ := not_or.mp hfine
    simpa [hopen, hlt, BlockCall.solo, BlockCall.access] using hswap

/-- How a pop ends that is not disturbed. -/
def PopAlone (B B' : QueueBlock) (v : ℕ) : Prop :=
  ∃ e, (v = 0 ∧ e = .nothing ∨ v ≠ 0 ∧ ∃ h, e = .popped h v) ∧
    Alone BlockAct B (some .pop) B' none [e]

theorem visit_counters (B : QueueBlock) (h : ℕ) :
    (B.visit h).1.head = B.head ∧ (B.visit h).1.tail = B.tail := by
  unfold QueueBlock.visit
  dsimp only
  split
  · exact ⟨rfl, rfl⟩
  · split
    · split
      · exact ⟨rfl, rfl⟩
      · exact ⟨rfl, rfl⟩
    · exact ⟨rfl, rfl⟩

/-- One round of a pop that is not disturbed: it ends, or `mpq_block_pop` takes the next
position. -/
theorem popLoop_round (n : ℕ) (B : QueueBlock) :
    (∃ B' v, QueueBlock.popLoop (n + 1) B = some (B', v) ∧ PopAlone B B' v) ∨
      ∃ B₁, QueueBlock.popLoop (n + 1) B = QueueBlock.popLoop n B₁ ∧ B₁.head = B.head + 1 ∧
        B₁.tail = B.tail ∧ B.head + 1 < B.tail ∧
        Alone BlockAct B (some .pop) B₁ (some .pop) [] := by
  have htake : Alone BlockAct B (some .pop) { B with head := B.head + 1 }
      (some (.popVal B.head)) [] := .single (.access B .takeHead)
  obtain ⟨hhead, htail⟩ := visit_counters { B with head := B.head + 1 } B.head
  conv in QueueBlock.popLoop (n + 1) B => unfold QueueBlock.popLoop
  conv in QueueBlock.popLoop (n + 1) B => unfold QueueBlock.popLoop
  dsimp only
  rcases visit_alone { B with head := B.head + 1 } B.head with ⟨hzero, hrun⟩ | ⟨hval, hrun⟩
  · -- the position is given up
    have hround := htake.trans hrun
    rw [if_neg (not_not.mpr hzero)]
    generalize ({ B with head := B.head + 1 }.visit B.head).1 = B₁ at hhead htail hround
    change B₁.head = B.head + 1 at hhead
    change B₁.tail = B.tail at htail
    have htail₁ := Alone.single (BlockAct.access B₁ (.popTail B.head))
    simp only [BlockCall.access] at htail₁
    by_cases hempty : B₁.tail ≤ B.head + 1
    · rw [if_pos hempty] at htail₁
      rw [if_pos hempty]
      exact Or.inl ⟨B₁.fixState, 0, rfl, .nothing, Or.inl ⟨rfl, rfl⟩,
        (hround.trans htail₁).trans (fixState_alone B₁)⟩
    · rw [if_neg hempty] at htail₁
      rw [if_neg hempty]
      exact Or.inr ⟨B₁, rfl, hhead, htail, by omega, hround.trans htail₁⟩
  · rw [if_pos hval]
    exact Or.inl ⟨_, _, rfl, _, Or.inr ⟨hval, _, rfl⟩, htake.trans hrun⟩

/-- The rounds of a pop that is not disturbed. -/
theorem popLoop_alone {n : ℕ} (hn : B.tail ≤ B.head + n + 1) :
    ∃ B' v, QueueBlock.popLoop (n + 1) B = some (B', v) ∧ PopAlone B B' v := by
  induction n generalizing B with
  | zero =>
    rcases popLoop_round 0 B with hend | ⟨B₁, -, -, -, hlt, -⟩
    · exact hend
    · omega
  | succ n ih =>
    rcases popLoop_round (n + 1) B with hend | ⟨B₁, hloop, hhead, htail, -, hnext⟩
    · exact hend
    · obtain ⟨B', v, hrest, e, hevent, hrun⟩ := ih (B := B₁) (by omega)
      exact ⟨B', v, hloop.trans hrest, e, hevent, hnext.trans hrun⟩

/-- What a push tells its caller. -/
def pushEvent (val : ℕ) : Option ℕ → BlockEvent
  | some t => .pushed t val
  | none => .refused val

/-- A push at its position, not disturbed: it finds the node ready, or goes on. -/
theorem node_alone (B : QueueBlock) (val left t : ℕ) :
    if (B.node t).val = 0 ∧ (B.node t).idx ≤ t ∧ ((B.node t).safe = true ∨ B.head ≤ t) then
      Alone BlockAct B (some (.pushVal val left t)) (B.setNode t ⟨true, t, val⟩) none
        [.pushed t val]
    else
      Alone BlockAct B (some (.pushVal val left t)) B (some (.pushAgain val left t)) [] := by
  have hread := solo_alone 2 B (some (.pushVal val left t))
  have hswap := solo_alone 3 B (some (.pushVal val left t))
  have hlast := solo_alone 4 B (some (.pushVal val left t))
  simp only [BlockCall.solo, BlockCall.access] at hread hswap hlast
  rcases hnode : B.node t with ⟨safe, idx, old⟩
  simp only [hnode] at hread hswap hlast ⊢
  by_cases hfree : old = 0 ∧ idx ≤ t
  · obtain ⟨rfl, hidx⟩ := hfree
    by_cases hsafe : safe = true
    · simpa [hidx, hsafe, hnode, BlockCall.solo, BlockCall.access] using hswap
    · by_cases hle : B.head ≤ t
      · simpa [hidx, hsafe, hle, hnode, BlockCall.solo, BlockCall.access] using hlast
      · simpa [hidx, hsafe, hle, hnode, BlockCall.solo, BlockCall.access] using hswap
  · rw [if_neg (fun h => hfree ⟨h.1, h.2.1⟩)]
    simpa [hfree] using hread

/-- One round of a push that is not disturbed: it ends, or `mpq_block_push` counts a failure and
goes on with `rest`. -/
theorem pushLoop_round (val left : ℕ) (B : QueueBlock) {rest : QueueBlock → QueueBlock × Option ℕ}
    (hrest : ∀ B₁, rest B₁ =
      match left with
      | 0 => ({ B₁ with closed := true }, none)
      | left + 1 => QueueBlock.pushLoop val left B₁) :
    Alone BlockAct B (some (.takeTail val left)) (QueueBlock.pushLoop val left B).1 none
        [pushEvent val (QueueBlock.pushLoop val left B).2] ∨
      ∃ B₁ t, Alone BlockAct B (some (.takeTail val left)) B₁ (some (.pushAgain val left t)) [] ∧
        ¬ B₁.head + B₁.size ≤ t ∧ QueueBlock.pushLoop val left B = rest B₁ := by
  have htake := Alone.single (BlockAct.access B (.takeTail val left))
  simp only [BlockCall.access] at htake
  unfold QueueBlock.pushLoop
  dsimp only
  by_cases hclosed : B.closed = true
  · rw [if_pos hclosed] at htake
    rw [if_pos hclosed]
    exact Or.inl htake
  · rw [if_neg hclosed] at htake
    rw [if_neg hclosed]
    have hnode := node_alone { B with tail := B.tail + 1 } val left B.tail
    dsimp only at hnode
    by_cases hready : (QueueBlock.node { B with tail := B.tail + 1 } B.tail).val = 0 ∧
        (QueueBlock.node { B with tail := B.tail + 1 } B.tail).idx ≤ B.tail ∧
        ((QueueBlock.node { B with tail := B.tail + 1 } B.tail).safe = true ∨ B.head ≤ B.tail)
    · rw [if_pos hready] at hnode
      rw [if_pos hready]
      exact Or.inl (htake.trans hnode)
    · rw [if_neg hready] at hnode
      rw [if_neg hready]
      have hagain := htake.trans hnode
      by_cases hfull : B.head + B.size ≤ B.tail
      · rw [if_pos hfull]
        have hclose :=
          solo_alone 2 { B with tail := B.tail + 1 } (some (.pushAgain val left B.tail))
        simp only [BlockCall.solo, BlockCall.access, if_pos hfull] at hclose
        exact Or.inl (hagain.trans hclose)
      · rw [if_neg hfull]
        refine Or.inr ⟨{ B with tail := B.tail + 1 }, B.tail, hagain, hfull, ?_⟩
        refine Eq.trans ?_ (hrest _).symm
        cases left with
        | zero => rfl
        | succ left => rfl

/-- The rounds of a push that is not disturbed. -/
theorem pushLoop_alone (val left : ℕ) (B : QueueBlock) :
    Alone BlockAct B (some (.takeTail val left)) (QueueBlock.pushLoop val left B).1 none
      [pushEvent val (QueueBlock.pushLoop val left B).2] := by
  induction left generalizing B with
  | zero =>
    rcases pushLoop_round val 0 B (fun _ => rfl) with hend | ⟨B₁, t, hrun, hroom, hloop⟩
    · exact hend
    · have hclose := solo_alone 2 B₁ (some (.pushAgain val 0 t))
      simp only [BlockCall.solo, BlockCall.access, if_neg hroom] at hclose
      rw [hloop]
      exact hrun.trans hclose
  | succ left ih =>
    rcases pushLoop_round val (left + 1) B (fun _ => rfl) with hend | ⟨B₁, t, hrun, hroom, hloop⟩
    · exact hend
    · have hagain := solo_alone 1 B₁ (some (.pushAgain val (left + 1) t))
      simp only [BlockCall.solo, BlockCall.access, if_neg hroom] at hagain
      rw [hloop]
      exact (hrun.trans hagain).trans (ih B₁)

/-- **A call that is not disturbed** comes to its end, whatever the others left behind, and does to
the block what `QueueBlock.pop` and `QueueBlock.push` say. -/
theorem block_alone (B : QueueBlock) :
    (∃ B' v, B.pop = some (B', v) ∧ PopAlone B B' v) ∧
      ∀ val, Alone BlockAct B (some (.push val)) (B.push val).1 none
        [pushEvent val (B.push val).2] :=
  ⟨popLoop_alone (n := B.tail - B.head) (by omega), fun val => pushLoop_alone val 10 B⟩

end Undisturbed

end MtprotoProxy
