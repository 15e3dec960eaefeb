/-
# Connection ids are never used twice

A slot of `OutExtConnections` is used again and again, at positions that chance decides.
What keeps a late answer from a later client is the id that an emptied slot leaves behind.
Here every id that is ever assigned is logged, over any run of the calls on the tables.

The log of a slot is the list of its uses, so that the ids of a slot are `slotId h 1`,
`slotId h 2`, and so on, without a repetition before the 64 bits of an id are used up.
-/
import MtprotoProxy.ExtOutcomes

namespace MtprotoProxy

open Function (update)
open CLib

/-! ## The log of the ids -/

/-- An id that was assigned: to the entry in this cell, for this client. -/
structure Issue where
  cell : ℕ
  id : Int64
  client : ConnRef
  deriving DecidableEq

/-- **The engine thread with the log of its ids,** newest first: all that were ever assigned,
and those of the entries that are still live. -/
structure IdState where
  engine : Engine
  issued : List Issue
  live : List Issue

namespace IdState

/-- The start. -/
def init : IdState := ⟨.init, [], []⟩

/-- A call, in any state and with any arguments. A creation gets a cell that is not allocated,
and its id is logged; an entry stays live as long as its cell is allocated. -/
def step (s : IdState) (c : Net × ExtCall) : Option IdState :=
  match c.2 with
  | .create CI inConnId CO authKeyId a rands =>
    if s.engine.tables.allocated a then none
    else
      match s.engine.call c.1 (.create CI inConnId CO authKeyId a rands) with
      | .ok e =>
        let issue := ⟨a, e.tables.outConnId (.node a), CI⟩
        some ⟨e, issue :: s.issued, issue :: s.live⟩
      | .error _ => none
  | call =>
    match s.engine.call c.1 call with
    | .ok e => some ⟨e, s.issued, s.live.filter (fun i => e.tables.allocated i.cell)⟩
    | .error _ => none

/-- How many ids were assigned in a slot. -/
def uses (s : IdState) (h : ℕ) : ℕ := s.issued.countP (fun i => slotOf i.id = h)

end IdState

/-- The entry that an issue was assigned to. -/
def Issue.IsOf (i : Issue) (x : Entry) : Prop :=
  x.addr = i.cell ∧ x.outConnId = i.id ∧ x.inFd = i.client.fd ∧ x.inGen = i.client.generation

/-- **The log is that of the tables.** -/
structure Logged (s : IdState) (r : Registry) : Prop where
  tracks : Tracks s.engine r
  /-- the live issues are those of the entries -/
  entries : ∀ x ∈ r.entries, ∃ i ∈ s.live, i.IsOf x
  live : ∀ i ∈ s.live, i ∈ s.issued ∧ ∃ x ∈ r.entries, i.IsOf x
  /-- an id is that of some use of its slot -/
  ids : ∀ i ∈ s.issued, i.id ≠ 0 ∧
    ∃ k, 0 < k ∧ k ≤ r.uses (slotOf i.id) ∧ i.id = slotId (slotOf i.id) k
  uses : ∀ h, s.uses h = r.uses h

section

variable {s s' : IdState} {r r' : Registry} {net : Net}

/-- The log at the start. -/
theorem logged_init : Logged .init .empty := by
  constructor
  case tracks => exact tracks_init
  case entries => intro x hx; exact absurd hx List.not_mem_nil
  case live => intro i hi; exact absurd hi List.not_mem_nil
  case ids => intro i hi; exact absurd hi List.not_mem_nil
  case uses => intro h; rfl

/-- A new entry uses its slot once more. -/
theorem Fresh.uses_add {x : Entry} {b : ℕ} (h : Fresh r x b) :
    (r.add x).uses = update r.uses b (r.uses b + 1) := by
  rw [Registry.add, h.slot_eq]

/-- A new id is logged. -/
theorem Logged.create (h : Logged s r) {CI : ConnRef} {CO : Option ConnRef}
    {inConnId authKeyId : Int64} {a b : ℕ} {e : Engine}
    (hfresh : Fresh r (createdEntry r CI inConnId CO authKeyId a b) b)
    (htracks : Tracks e (r.add (createdEntry r CI inConnId CO authKeyId a b))) :
    Logged ⟨e, ⟨a, e.tables.outConnId (.node a), CI⟩ :: s.issued,
        ⟨a, e.tables.outConnId (.node a), CI⟩ :: s.live⟩
      (r.add (createdEntry r CI inConnId CO authKeyId a b)) := by
  have hid : e.tables.outConnId (.node a) = slotId b (r.uses b + 1) :=
    (htracks.tables.fields _ List.mem_cons_self).outConnId
  have hslot : slotOf (slotId b (r.uses b + 1)) = b :=
    slotOf_slotId hfresh.slot_lt (Nat.succ_pos _)
  have huses := hfresh.uses_add
  rw [hid]
  constructor
  case tracks => exact htracks
  case entries =>
    refine List.forall_mem_cons.mpr ⟨?_, fun x hx => ?_⟩
    · exact ⟨_, List.mem_cons_self, rfl, rfl, rfl, rfl⟩
    · obtain ⟨i, hi, hof⟩ := h.entries x hx
      exact ⟨i, List.mem_cons_of_mem _ hi, hof⟩
  case live =>
    refine List.forall_mem_cons.mpr ⟨⟨List.mem_cons_self, ?_⟩, fun i hi => ?_⟩
    · exact ⟨_, List.mem_cons_self, rfl, rfl, rfl, rfl⟩
    · obtain ⟨hissued, x, hx, hof⟩ := h.live i hi
      exact ⟨List.mem_cons_of_mem _ hissued, x, List.mem_cons_of_mem _ hx, hof⟩
  case ids =>
    rw [huses]
    refine List.forall_mem_cons.mpr ⟨⟨hfresh.id_ne_zero, r.uses b + 1, Nat.succ_pos _, ?_, ?_⟩,
      fun i hi => ?_⟩
    · rw [hslot, Function.update_self]
    · rw [hslot]
    · obtain ⟨hne, k, hpos, hle, heq⟩ := h.ids i hi
      refine ⟨hne, k, hpos, ?_, heq⟩
      by_cases hb : slotOf i.id = b
      · rw [hb, Function.update_self]
        rw [hb] at hle
        omega
      · rwa [Function.update_of_ne hb]
  case uses =>
    intro j
    rw [huses]
    have hcount := h.uses j
    simp only [IdState.uses, List.countP_cons, hslot] at hcount ⊢
    by_cases hj : b = j
    · subst hj
      simp [hcount]
    · simp [hj, Function.update_of_ne (Ne.symm hj), hcount]

/-- Entries that are freed are no longer live. -/
theorem Logged.shrink (h : Logged s r) {e : Engine} (htracks : Tracks e r')
    (hshrinks : r.Shrinks r') :
    Logged ⟨e, s.issued, s.live.filter (fun i => e.tables.allocated i.cell)⟩ r' := by
  constructor
  case tracks => exact htracks
  case entries =>
    intro x hx
    obtain ⟨i, hi, hof⟩ := h.entries x (hshrinks.sub x hx)
    refine ⟨i, List.mem_filter.mpr ⟨hi, ?_⟩, hof⟩
    exact (htracks.tables.cells i.cell).mpr ⟨x, hx, hof.1⟩
  case live =>
    intro i hi
    obtain ⟨hlive, halloc⟩ := List.mem_filter.mp hi
    obtain ⟨hissued, x, hx, hof⟩ := h.live i hlive
    obtain ⟨y, hy, haddr⟩ := (htracks.tables.cells i.cell).mp halloc
    obtain rfl := h.tracks.tables.sound.addr_inj (hshrinks.sub y hy) hx (haddr.trans hof.1.symm)
    exact ⟨hissued, y, hy, hof⟩
  case ids =>
    rw [hshrinks.uses]
    exact h.ids
  case uses =>
    rw [hshrinks.uses]
    exact h.uses

/-! ## One call -/

/-- What a step is: a creation, or a call that adds nothing. -/
theorem IdState.step_eq_some {c : Net × ExtCall} (hstep : s.step c = some s') :
    (∃ CI inConnId CO authKeyId a rands e,
      s.engine.tables.allocated a = false ∧
        s.engine.call c.1 (.create CI inConnId CO authKeyId a rands) = .ok e ∧
        s' = ⟨e, ⟨a, e.tables.outConnId (.node a), CI⟩ :: s.issued,
          ⟨a, e.tables.outConnId (.node a), CI⟩ :: s.live⟩) ∨
    ∃ e, c.2.isCreate = false ∧ s.engine.call c.1 c.2 = .ok e ∧
      s' = ⟨e, s.issued, s.live.filter (fun i => e.tables.allocated i.cell)⟩ := by
  obtain ⟨net, call⟩ := c
  have hother : call.isCreate = false →
      (match s.engine.call net call with
        | .ok e => some (IdState.mk e s.issued
            (s.live.filter (fun i => e.tables.allocated i.cell)))
        | .error _ => none) = some s' →
      ∃ e, call.isCreate = false ∧ s.engine.call net call = .ok e ∧
        s' = ⟨e, s.issued, s.live.filter (fun i => e.tables.allocated i.cell)⟩ := by
    intro hc hmatch
    split at hmatch
    case h_1 e hcall => exact ⟨e, hc, hcall, (Option.some.inj hmatch).symm⟩
    case h_2 => exact absurd hmatch nofun
  cases call
  case create CI inConnId CO authKeyId a rands =>
    simp only [IdState.step] at hstep
    split at hstep
    case isTrue => exact absurd hstep nofun
    case isFalse hfree =>
      split at hstep
      case h_1 e hcall =>
        exact Or.inl ⟨CI, inConnId, CO, authKeyId, a, rands, e, by simpa using hfree, hcall,
          (Option.some.inj hstep).symm⟩
      case h_2 => exact absurd hstep nofun
  all_goals exact Or.inr (hother rfl hstep)

/-- **Every call keeps the log.** -/
theorem Logged.step (h : Logged s r) {c : Net × ExtCall} (hstep : s.step c = some s') :
    ∃ r', Logged s' r' := by
  rcases IdState.step_eq_some hstep with
    ⟨CI, inConnId, CO, authKeyId, a, rands, e, hfree, hcall, rfl⟩ | ⟨e, hc, hcall, rfl⟩
  · obtain ⟨b, hfresh, htracks⟩ := h.tracks.create_ok hfree hcall
    exact ⟨_, h.create hfresh htracks⟩
  · obtain ⟨r', htracks, hshrinks⟩ := h.tracks.call_ok hc hcall
    exact ⟨r', h.shrink htracks hshrinks⟩

/-! ## Runs of calls -/

/-- A new id is none of the old ones, unless the slot was used too often. -/
theorem Logged.id_fresh (h : Logged s r) {b : ℕ} (hb : b < extConnTableSize)
    (hfew : r.uses b + 1 ≤ 2 ^ 63 / extConnTableSize) :
    ∀ i ∈ s.issued, i.id ≠ slotId b (r.uses b + 1) := by
  intro i hi heq
  obtain ⟨-, k, hpos, hle, hk⟩ := h.ids i hi
  have hslot : slotOf i.id = b := by rw [heq, slotOf_slotId hb (Nat.succ_pos _)]
  have hbits : 2 ^ 63 / extConnTableSize < 2 ^ 42 := by decide
  rw [hslot] at hle hk
  have hsame := slotId_inj hb hb hpos (Nat.succ_pos (r.uses b)) (by omega) (by omega)
    (hk.symm.trans heq)
  omega

/-- **Every call keeps the ids different,** as long as no slot is used too often. -/
theorem Logged.step_nodup (h : Logged s r) {c : Net × ExtCall} (hstep : s.step c = some s')
    (hnodup : (∀ b, s.uses b ≤ 2 ^ 63 / extConnTableSize) → (s.issued.map Issue.id).Nodup)
    (hfew : ∀ b, s'.uses b ≤ 2 ^ 63 / extConnTableSize) : (s'.issued.map Issue.id).Nodup := by
  rcases IdState.step_eq_some hstep with
    ⟨CI, inConnId, CO, authKeyId, a, rands, e, hfree, hcall, rfl⟩ | ⟨e, -, -, rfl⟩
  · obtain ⟨b, hfresh, htracks⟩ := h.tracks.create_ok hfree hcall
    have hid : e.tables.outConnId (.node a) = slotId b (r.uses b + 1) :=
      (htracks.tables.fields _ List.mem_cons_self).outConnId
    have hcount := (h.create hfresh htracks).uses b
    rw [hfresh.uses_add, Function.update_self] at hcount
    have hless : ∀ j, s.uses j ≤ 2 ^ 63 / extConnTableSize := by
      intro j
      refine le_trans ?_ (hfew j)
      simp only [IdState.uses, List.countP_cons]
      omega
    refine List.nodup_cons.mpr ⟨fun hin => ?_, hnodup hless⟩
    obtain ⟨i, hi, heq⟩ := List.mem_map.mp hin
    exact h.id_fresh hfresh.slot_lt (hcount ▸ hfew b) i hi (heq.trans hid)
  · exact hnodup hfew

/-- **Every run keeps the log,** and its ids different. -/
theorem logged_run {cs : List (Net × ExtCall)} (hrun : Runs.run IdState.step .init cs = some s) :
    ∃ r, Logged s r ∧
      ((∀ b, s.uses b ≤ 2 ^ 63 / extConnTableSize) → (s.issued.map Issue.id).Nodup) := by
  have hstep : ∀ (s : IdState) (c : Net × ExtCall) (s' : IdState),
      (∃ r, Logged s r ∧
        ((∀ b, s.uses b ≤ 2 ^ 63 / extConnTableSize) → (s.issued.map Issue.id).Nodup)) →
      True → s.step c = some s' →
      ∃ r, Logged s' r ∧
        ((∀ b, s'.uses b ≤ 2 ^ 63 / extConnTableSize) → (s'.issued.map Issue.id).Nodup) := by
    rintro s c s' ⟨r, h, hnodup⟩ - hstep
    obtain ⟨r', h'⟩ := h.step hstep
    exact ⟨r', h', h.step_nodup hstep hnodup⟩
  exact Runs.run_invariant hstep ⟨.empty, logged_init, fun _ => List.nodup_nil⟩
    (Runs.along_of_always fun _ _ _ => trivial) hrun

/-! ## What a lookup finds -/

/-- The id of a live entry is found, and is that of its client. -/
theorem Logged.find_live (h : Logged s r) {i : Issue} (hi : i ∈ s.live) :
    findExtConnectionByOutConnId s.engine.tables i.id = .ok (.node i.cell) ∧
      s.engine.tables.inFd (.node i.cell) = i.client.fd ∧
      s.engine.tables.inGen (.node i.cell) = i.client.generation := by
  obtain ⟨-, x, hx, haddr, hid, hfd, hgen⟩ := h.live i hi
  have hcell := h.tracks.tables.fields x hx
  have hptr : x.ptr = .node i.cell := congrArg Ptr.node haddr
  refine ⟨?_, ?_, ?_⟩
  · rw [h.tracks.tables.find, ← hid, h.tracks.tables.sound.byOutConnId_eq hx, ptrOf, hptr]
  · rw [← hptr, hcell.inFd, hfd]
  · rw [← hptr, hcell.inGen, hgen]

/-- No other id is found. -/
theorem Logged.find_stale (h : Logged s r) {id : Int64} (hid : ∀ i ∈ s.live, i.id ≠ id) :
    findExtConnectionByOutConnId s.engine.tables id = .ok .null := by
  have hnone : r.byOutConnId id = none := by
    refine Registry.byOutConnId_eq_none.mpr (fun x hx heq => ?_)
    obtain ⟨i, hi, -, hof, -⟩ := h.entries x hx
    exact hid i hi (hof.symm.trans heq)
  rw [h.tracks.tables.find, hnone, ptrOf]

/-- The cells of live entries are the allocated ones. -/
theorem Logged.allocated_iff (h : Logged s r) (a : ℕ) :
    s.engine.tables.allocated a = true ↔ ∃ i ∈ s.live, i.cell = a := by
  rw [h.tracks.tables.cells a]
  constructor
  · rintro ⟨x, hx, rfl⟩
    obtain ⟨i, hi, haddr, -⟩ := h.entries x hx
    exact ⟨i, hi, haddr.symm⟩
  · rintro ⟨i, hi, rfl⟩
    obtain ⟨-, x, hx, haddr, -⟩ := h.live i hi
    exact ⟨x, hx, haddr⟩

/-- **An answer or an acknowledgement** asks something only of the client that the id was assigned
to, and of the middle-end itself. -/
theorem Logged.answer (h : Logged s r) {C : ConnRef} {op res : ℕ} {msg : Bytes} {rands : List ℕ}
    {e' : Engine} (hop : op = rpcProxyAns ∨ op = rpcSimpleAck)
    (hok : processClientPacket net s.engine C op msg rands = .ok (res, e')) :
    ∃ xs, e'.effects = s.engine.effects ++ xs ∧
      ∀ x ∈ xs, (∃ id, x = .send C (.closeConn id)) ∨
        ∃ i ∈ s.live, i.id = messageId op msg ∧ x.target = i.client := by
  cases h.tracks.processClientPacket_ok hok with
  | quiet _ _ xs heffects hxs => exact ⟨xs, heffects, fun x hx => Or.inl (hxs x hx)⟩
  | deliver _ D y hy hid hC hD hdelivered =>
    obtain ⟨xs, heffects, hxs⟩ := hdelivered.effects
    refine ⟨xs, heffects, fun x hx => ?_⟩
    rcases hxs x hx with rfl | htarget
    · exact Or.inl ⟨_, rfl⟩
    · obtain ⟨i, hi, -, hof, hfd, hgen⟩ := h.entries y hy
      refine Or.inr ⟨i, hi, hof.symm.trans hid, htarget.trans ?_⟩
      exact ConnRef.ext_iff'.mpr ⟨hD.1.symm.trans hfd, hD.2.symm.trans hgen⟩
  | close hclose =>
    rcases hop with rfl | rfl
    · exact absurd hclose (by decide)
    · exact absurd hclose (by decide)

/-- **No stale delivery:** over every run of calls in which no slot is used more than
`2 ^ 63 / EXT_CONN_TABLE_SIZE` times, the ids are different and not zero, a lookup finds an id
exactly when the entry it was assigned to is still live, and an answer or acknowledgement reaches
no client but the one that its id was assigned to and whose entry is still live. -/
theorem out_conn_ids_never_reused (cs : List (Net × ExtCall)) (s : IdState)
    (hrun : Runs.run IdState.step .init cs = some s)
    (hreuse : ∀ b, s.uses b ≤ 2 ^ 63 / extConnTableSize) :
    (s.issued.map Issue.id).Nodup ∧ (∀ i ∈ s.issued, i.id ≠ 0) ∧
      (∀ i ∈ s.live, i ∈ s.issued) ∧
      (∀ a, s.engine.tables.allocated a = true ↔ ∃ i ∈ s.live, i.cell = a) ∧
      (∀ i ∈ s.live, findExtConnectionByOutConnId s.engine.tables i.id = .ok (.node i.cell) ∧
        s.engine.tables.inFd (.node i.cell) = i.client.fd ∧
        s.engine.tables.inGen (.node i.cell) = i.client.generation) ∧
      (∀ id, (∀ i ∈ s.live, i.id ≠ id) →
        findExtConnectionByOutConnId s.engine.tables id = .ok .null) ∧
      ∀ (net : Net) (C : ConnRef) (op : ℕ) (msg : Bytes) (rands : List ℕ) (res : ℕ) (e' : Engine),
        op = rpcProxyAns ∨ op = rpcSimpleAck →
        processClientPacket net s.engine C op msg rands = .ok (res, e') →
        ∃ xs, e'.effects = s.engine.effects ++ xs ∧
          ∀ x ∈ xs, (∃ id, x = .send C (.closeConn id)) ∨
            ∃ i ∈ s.live, i.id = messageId op msg ∧ x.target = i.client := by
  obtain ⟨r, h, hnodup⟩ := logged_run hrun
  refine ⟨hnodup hreuse, fun i hi => (h.ids i hi).1, fun i hi => (h.live i hi).1,
    h.allocated_iff, fun i hi => h.find_live hi, fun id hid => h.find_stale hid, ?_⟩
  intro net C op msg rands res e' hop hok
  exact h.answer hop hok

/-- The client of the sample run gets two ids, one after the other. -/
theorem out_conn_ids_never_reused_sample :
    ∃ s, Runs.run IdState.step .init sampleCalls = some s ∧ s.issued.length = 2 ∧
      (s.issued.map Issue.id).Nodup := by
  have hrun : (Runs.run IdState.step .init sampleCalls).map (fun s => s.issued.length) = some 2 := by
    decide +kernel
  obtain ⟨s, hs, hlength⟩ := Option.map_eq_some_iff.mp hrun
  refine ⟨s, hs, hlength, (out_conn_ids_never_reused sampleCalls s hs (fun b => ?_)).1⟩
  have hle : s.uses b ≤ s.issued.length := List.countP_le_length
  rw [hlength] at hle
  exact le_trans hle (by decide)

end

end MtprotoProxy
