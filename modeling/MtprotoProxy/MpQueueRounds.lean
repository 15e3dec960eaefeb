/-
# Rounds of pushes and pops of the unbounded queue

What one round of the loops in `mpq_push` and `mpq_pop` does to the queues, when the new block that
it needs is given, and when the empty block that it drops is taken care of.

`Evolves` says what a call may count on while others work on the queues: the end of each queue is
open when it was or when it moved, a block that holds more values than were taken stays in its
queue, and a loose block is not touched.  The number bounds how many values a queue gained and lost.
-/
import MtprotoProxy.MpQueueInv

namespace MtprotoProxy

open QueueBlock MpqState

/-! ## What happens meanwhile -/

/-- The last block of the queue is open. -/
def OpenEnd (S : MpqState) (q : QueueName) : Prop :=
  ∃ B, S.blocks.cell (S.queues q).tail = some B ∧ B.closed = false

/-- How many values the last block holds. -/
def lastLength (c : BlockList) : ℕ := (c.getLastD (0, [])).2.length

@[simp] theorem lastLength_concat (c : BlockList) (x : ℕ × List ℕ) :
    lastLength (c ++ [x]) = x.2.length := by
  unfold lastLength
  rw [List.getLastD_concat]

/-- The end of the queue stays, with at most `k` more values, or it moves to an open block. -/
def EndMoves (k : ℕ) (r : QueueName) (S : MpqState) (V : QueueName → BlockList) (S' : MpqState)
    (V' : QueueName → BlockList) : Prop :=
  (S'.queues r).tail = (S.queues r).tail ∧ lastLength (V' r) ≤ lastLength (V r) + k ∧
      (OpenEnd S r ↔ OpenEnd S' r) ∨
    OpenEnd S' r ∧ lastLength (V' r) ≤ k

/-- Blocks lose at most `k` values, and only empty ones leave the queue. -/
def Firm (k : ℕ) (c c' : BlockList) : Prop :=
  ∀ x ∈ c, ∀ m, 0 < m → m + k ≤ x.2.length → ∃ vals, (x.1, vals) ∈ c' ∧ m ≤ vals.length

/-- Loose blocks stay as they are, except for those in `E`. -/
def KeepsLoose (E : Set ℕ) (S : MpqState) (own : ℕ → BlockOwner) (S' : MpqState)
    (own' : ℕ → BlockOwner) : Prop :=
  ∀ b B, own b = .loose → S.blocks.cell b = some B → b ∉ E →
    own' b = .loose ∧ S'.blocks.cell b = some B

/-- **What the queues of blocks do** while a call is under way. -/
structure Evolves (k : ℕ) (E : Set ℕ) (S : MpqState) (V : QueueName → BlockList)
    (own : ℕ → BlockOwner) (S' : MpqState) (V' : QueueName → BlockList) (own' : ℕ → BlockOwner) :
    Prop where
  ends : ∀ r, EndMoves k r S V S' V'
  firm : ∀ r, Firm k (V r) (V' r)
  loose : KeepsLoose E S own S' own'

/-- What a recursive call leaves alone. -/
structure Aside (S : MpqState) (V : QueueName → BlockList) (S' : MpqState)
    (V' : QueueName → BlockList) : Prop where
  user : V' .user = V .user
  fixed : ∀ r, (∀ small, r ≠ .garbage small) → (S'.queues r).tail = (S.queues r).tail
  hptr : S'.hptr 0 = S.hptr 0

section Relations

variable {S S' S'' : MpqState} {V V' V'' : QueueName → BlockList} {own own' own'' : ℕ → BlockOwner}
  {E E' E'' : Set ℕ} {k k' : ℕ} {c c' c'' : BlockList} {q r : QueueName}

theorem OpenEnd.congr (h : OpenEnd S q) (hblocks : S'.blocks = S.blocks)
    (hqueues : S'.queues = S.queues) : OpenEnd S' q := by
  unfold OpenEnd
  rw [hblocks, hqueues]
  exact h

theorem EndMoves.trans (h : EndMoves k r S V S' V') (h' : EndMoves k' r S' V' S'' V'') :
    EndMoves (k + k') r S V S'' V'' := by
  rcases h' with ⟨htail', hlen', hopen'⟩ | ⟨hopen', hlen'⟩
  · rcases h with ⟨htail, hlen, hopen⟩ | ⟨hopen, hlen⟩
    · exact Or.inl ⟨htail'.trans htail, by omega, hopen.trans hopen'⟩
    · exact Or.inr ⟨hopen'.mp hopen, by omega⟩
  · exact Or.inr ⟨hopen', by omega⟩

theorem Firm.refl (c : BlockList) : Firm 0 c c := fun x hx _ _ hm => ⟨x.2, hx, hm⟩

theorem Firm.mono (h : Firm k c c') (hk : k ≤ k') : Firm k' c c' :=
  fun x hx m hm hlen => h x hx m hm (by omega)

theorem Firm.trans (h : Firm k c c') (h' : Firm k' c' c'') : Firm (k + k') c c'' := by
  intro x hx m hm hlen
  obtain ⟨vals, hvals, hlen₁⟩ := h x hx (m + k') (by omega) (by omega)
  exact h' _ hvals m hm hlen₁

/-- Blocks after the others. -/
theorem Firm.append (c d : BlockList) : Firm 0 c (c ++ d) :=
  fun x hx _ _ hm => ⟨x.2, List.mem_append_left d hx, hm⟩

/-- The contents of one block change by `k` values at most. -/
theorem Firm.refill {b : ℕ} {vals vals' : List ℕ} (hlen : vals.length ≤ vals'.length + k) :
    Firm k (c ++ (b, vals) :: c') (c ++ (b, vals') :: c') := by
  intro x hx m hm hm'
  rcases List.mem_append.mp hx with hx | hx
  · exact ⟨x.2, List.mem_append_left _ hx, by omega⟩
  · rcases List.mem_cons.mp hx with rfl | hx
    · change m + k ≤ vals.length at hm'
      exact ⟨vals', List.mem_append_right _ List.mem_cons_self, by omega⟩
    · exact ⟨x.2, List.mem_append_right _ (List.mem_cons_of_mem _ hx), by omega⟩

/-- An empty block may go. -/
theorem Firm.drop (b : ℕ) (c : BlockList) : Firm 0 ((b, []) :: c) c := by
  intro x hx m hm hlen
  rcases List.mem_cons.mp hx with rfl | hx
  · rw [List.length_nil] at hlen
    omega
  · exact ⟨x.2, hx, hlen⟩

theorem KeepsLoose.trans (h : KeepsLoose E S own S' own') (h' : KeepsLoose E' S' own' S'' own'')
    (hE : ∀ b B, own b = .loose → S.blocks.cell b = some B → b ∉ E'' → b ∉ E ∧ b ∉ E') :
    KeepsLoose E'' S own S'' own'' := by
  intro b B hown hb hbE
  obtain ⟨h₁, h₂⟩ := hE b B hown hb hbE
  obtain ⟨hown', hb'⟩ := h b B hown hb h₁
  exact h' b B hown' hb' h₂

theorem Evolves.trans (h : Evolves k E S V own S' V' own')
    (h' : Evolves k' E' S' V' own' S'' V'' own'')
    (hE : ∀ b B, own b = .loose → S.blocks.cell b = some B → b ∉ E'' → b ∉ E ∧ b ∉ E') :
    Evolves (k + k') E'' S V own S'' V'' own'' :=
  ⟨fun r => (h.ends r).trans (h'.ends r), fun r => (h.firm r).trans (h'.firm r),
    h.loose.trans h'.loose hE⟩

/-- No block is excepted. -/
theorem Evolves.append (h : Evolves k ∅ S V own S' V' own')
    (h' : Evolves k' ∅ S' V' own' S'' V'' own'') :
    Evolves (k + k') ∅ S V own S'' V'' own'' :=
  h.trans h' (fun b _ _ _ _ => ⟨Set.notMem_empty b, Set.notMem_empty b⟩)

/-- The hazard pointers do not matter. -/
theorem Evolves.congr {T T' : MpqState} (h : Evolves k E S V own S' V' own')
    (hblocks : T.blocks = S.blocks) (hqueues : T.queues = S.queues)
    (hblocks' : T'.blocks = S'.blocks) (hqueues' : T'.queues = S'.queues) :
    Evolves k E T V own T' V' own' := by
  obtain ⟨blocks, queues, hptr, checks⟩ := S
  obtain ⟨blocks', queues', hptr', checks'⟩ := S'
  obtain ⟨_, _, hptr₁, checks₁⟩ := T
  obtain ⟨_, _, hptr₁', checks₁'⟩ := T'
  cases hblocks
  cases hqueues
  cases hblocks'
  cases hqueues'
  exact ⟨h.ends, h.firm, h.loose⟩

theorem EndMoves.mono (h : EndMoves k r S V S' V') (hk : k ≤ k') : EndMoves k' r S V S' V' := by
  rcases h with ⟨htail, hlen, hopen⟩ | ⟨hopen, hlen⟩
  · exact Or.inl ⟨htail, by omega, hopen⟩
  · exact Or.inr ⟨hopen, by omega⟩

theorem Evolves.mono (h : Evolves k E S V own S' V' own') (hk : k ≤ k') :
    Evolves k' E S V own S' V' own' :=
  ⟨fun r => (h.ends r).mono hk, fun r => (h.firm r).mono hk, h.loose⟩

theorem Aside.trans (h : Aside S V S' V') (h' : Aside S' V' S'' V'') : Aside S V S'' V'' :=
  ⟨h'.user.trans h.user, fun r hr => (h'.fixed r hr).trans (h.fixed r hr), h'.hptr.trans h.hptr⟩

/-- The end of a queue that does not change. -/
theorem OnlyQueue.endMoves (h : MpqInv S V own) (honly : OnlyQueue q S own S' own') (hr : r ≠ q)
    (c : BlockList) : EndMoves k r S V S' (Function.update V q c) := by
  have hqueue := honly.queues r hr
  obtain ⟨c₀, vals, -, hc₀, -⟩ := (h.chain r).eq_concat
  have hown : own (S.queues r).tail = .chain r := h.owned r (_, vals) (by rw [hc₀]; simp)
  have hcell : S'.blocks.cell (S.queues r).tail = S.blocks.cell (S.queues r).tail := by
    refine (honly.keep _ ?_ ?_).1
    · rw [hown]
      exact fun he => hr (BlockOwner.chain.inj he)
    · rw [hown]
      exact BlockOwner.noConfusion
  refine Or.inl ⟨by rw [hqueue], ?_, ?_⟩
  · rw [Function.update_of_ne hr]
    exact Nat.le_add_right _ _
  · unfold OpenEnd
    rw [hqueue, hcell]

/-- **One queue changes**, as far as the others are concerned. -/
theorem OnlyQueue.evolves (h : MpqInv S V own) (honly : OnlyQueue q S own S' own')
    (hend : EndMoves k q S V S' (Function.update V q c)) (hfirm : Firm k (V q) c)
    (hloose : KeepsLoose E S own S' own') :
    Evolves k E S V own S' (Function.update V q c) own' := by
  refine ⟨fun r => ?_, fun r => ?_, hloose⟩
  · by_cases hr : r = q
    · rw [hr]
      exact hend
    · exact honly.endMoves h hr c
  · by_cases hr : r = q
    · rw [hr, Function.update_self]
      exact hfirm
    · rw [Function.update_of_ne hr]
      exact (Firm.refl _).mono (Nat.zero_le k)

/-- A queue changed before, and its end moved since then. -/
theorem Evolves.before {S₁ : MpqState} (h : MpqInv S V own) (honly : OnlyQueue q S own S₁ own)
    (hkeep : KeepsLoose ∅ S own S₁ own) (he : Evolves k E' S₁ V own S' V' own')
    (hend : EndMoves k q S V S' V')
    (hE : ∀ b B, own b = .loose → S.blocks.cell b = some B → b ∉ E → b ∉ E') :
    Evolves k E S V own S' V' own' := by
  refine ⟨fun r => ?_, he.firm, hkeep.trans he.loose (fun b B hb hB hbE => ⟨Set.notMem_empty b,
    hE b B hb hB hbE⟩)⟩
  by_cases hr : r = q
  · rw [hr]
    exact hend
  · have hsame := honly.endMoves (k := 0) h hr (V q)
    rw [Function.update_eq_self] at hsame
    have := hsame.trans (he.ends r)
    rwa [Nat.zero_add] at this

end Relations

/-! ## New blocks -/

/-- A block as `alloc_mpq_block` returns it. -/
structure IsNew (small : Bool) (v : ℕ) (N : QueueBlock) : Prop extends Sane N where
  magic : N.magic = .used
  small : N.size = mpqBlockSize small
  next : N.next = none
  opened : N.closed = false
  vals : N.Contains [v]
  nodes : ∀ i, 0 < i → N.nodes i = freshNodes i

/-- What the block that `alloc_mpq_block` makes contains. -/
theorem init_contains (alignBytes : ℕ) {size : ℕ} {nodes : ℕ → QueueNode} (v : ℕ) (hsize : 0 < size)
    (hnodes : ∀ i, 0 < i → nodes i = freshNodes i) :
    (QueueBlock.init alignBytes size v nodes).Contains (if v = 0 then [] else [v]) := by
  refine ⟨⟨?_, ?_, ?_⟩, ?_, fun hclosed => absurd hclosed (by simp [QueueBlock.init])⟩
  · show (if v = 0 then [] else [v]).length ≤ size
    split
    · exact Nat.zero_le size
    · exact hsize
  · intro i hi
    change i < size at hi
    show Function.update nodes 0 ⟨true, 0, v⟩ ((0 + i) % size) = ⟨true, 0 + i, _⟩
    rw [Nat.zero_add, Nat.mod_eq_of_lt hi]
    by_cases hi0 : i = 0
    · rw [hi0, Function.update_self]
      split
      · rename_i hv
        rw [hv]
        rfl
      · rfl
    · rw [Function.update_of_ne hi0, hnodes i (Nat.pos_of_ne_zero hi0)]
      have hnone : (if v = 0 then [] else [v]).getD i 0 = 0 := by
        apply List.getD_eq_default _ _
        split
        · exact Nat.zero_le i
        · exact Nat.pos_of_ne_zero hi0
      rw [hnone]
      rfl
  · split
    · exact List.not_mem_nil
    · rename_i hv
      exact fun hmem => hv (List.mem_singleton.mp hmem).symm
  · intro _
    show (if v ≠ 0 then 1 else 0) = 0 + (if v = 0 then [] else [v]).length
    by_cases hv : v = 0 <;> simp [hv]

theorem mpqBlockSize_cases (small : Bool) :
    mpqBlockSize small = 64 ∨ mpqBlockSize small = 4096 := by
  cases small
  · exact Or.inr rfl
  · exact Or.inl rfl

/-- The block is new. -/
theorem init_isNew (alignBytes : ℕ) {v : ℕ} {nodes : ℕ → QueueNode} (small : Bool) (hv : v ≠ 0)
    (halign : alignBytes < 64 ∧ alignBytes % 8 = 0)
    (hnodes : ∀ i, 0 < i → nodes i = freshNodes i) :
    IsNew small v (QueueBlock.init alignBytes (mpqBlockSize small) v nodes) := by
  have hsize : 0 < mpqBlockSize small := by
    rcases mpqBlockSize_cases small with h | h <;> omega
  have hvals := init_contains alignBytes v hsize hnodes
  rw [if_neg hv] at hvals
  refine ⟨⟨mpqBlockSize_cases small, halign⟩, rfl, rfl, rfl, rfl, hvals, fun i hi => ?_⟩
  exact (Function.update_of_ne (Nat.ne_of_gt hi) _ _).trans (hnodes i hi)

/-- A block is made of memory from `malloc`. -/
theorem mallocBlock_spec {w : MpqWorld} {S : MpqState} {v : ℕ} (small : Bool) (hv : v ≠ 0) :
    ∃ N, S.mallocBlock w v small = some ({ S with blocks := S.blocks.alloc N }, S.blocks.size) ∧
      IsNew small v N := by
  have halign := w.aligned S.blocks.size
  refine ⟨_, ?_, init_isNew ((64 - w.malloc S.blocks.size % 64) % 64) small hv ?_
    (fun _ _ => rfl)⟩
  · unfold mallocBlock
    simp only [halign, guard_true, Option.bind_eq_bind]
    rfl
  · omega

theorem MpqInv.malloc {S : MpqState} {V : QueueName → BlockList} {own : ℕ → BlockOwner}
    {N : QueueBlock} (h : MpqInv S V own) (hN : Sane N) :
    MpqInv { S with blocks := S.blocks.alloc N } V own := by
  refine h.loose rfl ?_ ?_
  · intro b B hb
    change (S.blocks.alloc N).cell b = some B at hb
    rw [Store.cell_alloc] at hb
    split at hb
    · rw [← Option.some.inj hb]
      exact hN
    · exact h.sane b B hb
  · intro b hb
    refine (Store.cell_alloc _ _).trans (if_neg ?_)
    rintro rfl
    exact hb (h.unused _ (S.blocks.fresh _ le_rfl))

/-! ## A push -/

section Push

variable {w : MpqWorld} {calls : MpqCalls} {S S' : MpqState} {V : QueueName → BlockList}
  {own : ℕ → BlockOwner} {q : QueueName} {v b : ℕ} {r st : Bool} {B : QueueBlock}

@[simp] theorem leave_blocks (S : MpqState) (r st : Bool) (p : Option ℕ) :
    (S.leave r st p).blocks = S.blocks := by
  cases st <;> rfl

@[simp] theorem leave_queues (S : MpqState) (r st : Bool) (p : Option ℕ) :
    (S.leave r st p).queues = S.queues := by
  cases st <;> rfl

theorem leave_hptr (S : MpqState) (r st : Bool) (p : Option ℕ) (i : Fin 3) (hi : i ≠ 2) :
    (S.leave r st p).hptr i = if i = slot r then none else S.hptr i := by
  by_cases his : i = slot r
  · rw [if_pos his, his]
    exact Function.update_self _ _ _
  · rw [if_neg his]
    apply (Function.update_of_ne his _ _).trans
    cases st
    · rfl
    · exact Function.update_of_ne hi _ _

/-- The first state of `mpq_push`, after its attempt in the last block. -/
def pushState (S : MpqState) (q : QueueName) (r : Bool) (B' : QueueBlock) : MpqState :=
  (S.setHptr (slot r) (some (S.queues q).tail)).setBlock (S.queues q).tail B'

/-- A push that finds room. -/
theorem mpqPush_room {pos : ℕ} (hb : S.blocks.cell (S.queues q).tail = some B)
    (hnext : B.next = none) (hpush : (B.push v).2 = some pos) :
    S.mpqPush calls q v r st
      = some ((pushState S q r (B.push v).1).leave r st (some (S.queues q).tail), pos) := by
  have hb' := cell_setHptr hb (slot r) (some (S.queues q).tail)
  unfold mpqPush blockPush
  simp only [hb', hnext, hpush, some_bind]
  rfl

/-- A push that needs a new block, while the queue still ends where it did. -/
theorem mpqPush_link {S₂ : MpqState} {NQB : ℕ} {B₂ : QueueBlock}
    (hb : S.blocks.cell (S.queues q).tail = some B) (hnext : B.next = none)
    (hpush : (B.push v).2 = none)
    (hnew : (pushState S q r (B.push v).1).newBlock calls v r
      (decide ((S.queues q).tail = (S.queues q).head)) = some (S₂, NQB))
    (hhptr : S₂.hptr (slot r) = some (S.queues q).tail)
    (hb₂ : S₂.blocks.cell (S.queues q).tail = some B₂) (hnext₂ : B₂.next = none)
    (htail : (S₂.queues q).tail = (S.queues q).tail) :
    S.mpqPush calls q v r st
      = some ((((S₂.setBlock (S.queues q).tail { B₂ with next := some NQB }).setTail q NQB).leave
          r st (some NQB)), 0) := by
  have hb' := cell_setHptr hb (slot r) (some (S.queues q).tail)
  have htail' : ((S₂.setBlock (S.queues q).tail { B₂ with next := some NQB }).queues q).tail
      = (S.queues q).tail := htail
  unfold mpqPush blockPush
  simp only [hb', hnext, hpush, Option.bind_eq_bind, Option.bind_some]
  change ((pushState S q r (B.push v).1).newBlock calls v r
    (decide ((S.queues q).tail = (S.queues q).head))).bind _ = _
  rw [hnew]
  simp only [Option.bind_some, hhptr, hb₂, hnext₂, htail', guard_true, if_true]
  rfl

/-- A push that needs a new block, while the queue has got another one. -/
theorem mpqPush_again {S₂ : MpqState} {NQB next : ℕ} {B₂ N : QueueBlock}
    (hb : S.blocks.cell (S.queues q).tail = some B) (hnext : B.next = none)
    (hpush : (B.push v).2 = none)
    (hnew : (pushState S q r (B.push v).1).newBlock calls v r
      (decide ((S.queues q).tail = (S.queues q).head)) = some (S₂, NQB))
    (hhptr : S₂.hptr (slot r) = some (S.queues q).tail)
    (hb₂ : S₂.blocks.cell (S.queues q).tail = some B₂) (hnext₂ : B₂.next = some next)
    (hN : S₂.blocks.cell NQB = some N) :
    S.mpqPush calls q v r st
      = (calls.push (S₂.setBlock NQB { N with magic := .prepared })
          (.prepared (decide ((S.queues q).tail = (S.queues q).head))) (mpqBlockPtr NQB) false
            false).bind fun p => calls.push p.1 q v r st := by
  have hb' := cell_setHptr hb (slot r) (some (S.queues q).tail)
  unfold mpqPush blockPush
  simp only [hb', hnext, hpush, Option.bind_eq_bind, Option.bind_some]
  change ((pushState S q r (B.push v).1).newBlock calls v r
    (decide ((S.queues q).tail = (S.queues q).head))).bind _ = _
  rw [hnew]
  simp only [Option.bind_some, hhptr, hb₂, hnext₂, hN, guard_true]
  rfl

/-! ### What it does to the queues -/

theorem Offered.keep {S' : MpqState} {own' : ℕ → BlockOwner} {E : Set ℕ} (ho : Offered S own q v)
    (hkeep : KeepsLoose E S own S' own') (hv : mpqBlockOf v ∉ E) : Offered S' own' q v := by
  intro hq
  obtain ⟨b, B, rfl, hloose, hb, hstock⟩ := ho hq
  rw [mpqBlockOf_ptr] at hv
  obtain ⟨hloose', hb'⟩ := hkeep b B hloose hb hv
  exact ⟨b, B, rfl, hloose', hb', hstock⟩

theorem handOver_of_notMem {a : ℕ} (ha : a ≠ mpqBlockOf v) : handOver own q v a = own a := by
  unfold handOver
  split
  · rfl
  · exact Function.update_of_ne ha _ _

/-- The block at the end of a queue. -/
theorem MpqInv.endBlock (h : MpqInv S V own) (q : QueueName) : ∃ c vals B,
    V q = c ++ [((S.queues q).tail, vals)] ∧ S.blocks.cell (S.queues q).tail = some B ∧
      B.Contains vals ∧ B.next = none ∧ own (S.queues q).tail = .chain q := by
  obtain ⟨c, vals, B, hV, hb, -, hvals, hnext⟩ := (h.chain q).eq_concat
  exact ⟨c, vals, B, hV, hb, hvals, hnext, h.owned q (_, vals) (by rw [hV]; simp)⟩

theorem keepsLoose_pushState (hown : own (S.queues q).tail = .chain q) (B' : QueueBlock) :
    KeepsLoose ∅ S own (pushState S q r B') own := by
  refine fun a A ha hA _ => ⟨ha, (cell_setBlock_ne ?_ B').trans hA⟩
  rintro rfl
  exact BlockOwner.noConfusion (ha.symm.trans hown)

theorem onlyQueue_pushState {own' : ℕ → BlockOwner} (hown : own (S.queues q).tail = .chain q)
    (B' : QueueBlock) (hown' : ∀ a, own a ≠ .loose → own' a = own a) :
    OnlyQueue q S own (pushState S q r B') own' := by
  refine ⟨fun _ _ => rfl, fun a ha hloose => ⟨cell_setBlock_ne ?_ B', hown' a hloose⟩⟩
  rintro rfl
  exact ha hown

/-- **A push into the last block.** -/
theorem MpqInv.push_room {c : BlockList} {vals : List ℕ} (h : MpqInv S V own)
    (ho : Offered S own q v) (hV : V q = c ++ [((S.queues q).tail, vals)])
    (hb : S.blocks.cell (S.queues q).tail = some B) (hsame : Same B (B.push v).1)
    (hvals : (B.push v).1.Contains (vals ++ [v])) (hopen : B.closed = false)
    (hopen' : (B.push v).1.closed = false) (r : Bool) :
    MpqInv (pushState S q r (B.push v).1)
        (Function.update V q (c ++ [((S.queues q).tail, vals ++ [v])])) (handOver own q v) ∧
      Evolves 1 {mpqBlockOf v} S V own (pushState S q r (B.push v).1)
        (Function.update V q (c ++ [((S.queues q).tail, vals ++ [v])])) (handOver own q v) ∧
      OpenEnd (pushState S q r (B.push v).1) q := by
  have hown : own (S.queues q).tail = .chain q := h.owned q (_, vals) (by rw [hV]; simp)
  have hopenEnd : OpenEnd (pushState S q r (B.push v).1) q :=
    ⟨_, cell_setBlock_self (S := S.setHptr (slot r) (some (S.queues q).tail)) hb _, hopen'⟩
  have hS : MpqInv (S.setHptr (slot r) (some (S.queues q).tail)) V own := h.congr rfl rfl
  refine ⟨hS.give ho hV hb hsame (fun hc => absurd (hopen.symm.trans hc) (by simp)) hvals, ?_,
    hopenEnd⟩
  refine OnlyQueue.evolves h (onlyQueue_pushState hown _ (fun a => handOver_of_ne ho)) ?_ ?_ ?_
  · refine Or.inl ⟨rfl, ?_, iff_of_true ⟨B, hb, hopen⟩ hopenEnd⟩
    rw [Function.update_self, hV, lastLength_concat, lastLength_concat, List.length_append]
    exact le_rfl
  · rw [hV]
    refine (Firm.refill ?_).mono (Nat.zero_le 1)
    rw [List.length_append]
    omega
  · intro a A ha hA hav
    obtain ⟨-, hA'⟩ :=
      keepsLoose_pushState (r := r) hown (B.push v).1 a A ha hA (Set.notMem_empty a)
    exact ⟨(handOver_of_notMem hav).trans ha, hA'⟩

/-- **A push into a new block.** -/
theorem MpqInv.push_link {N : QueueBlock} {NQB : ℕ} {small : Bool} (h : MpqInv S V own)
    (ho : Offered S own q v) (hb : S.blocks.cell (S.queues q).tail = some B)
    (hclosed : B.closed = true) (hN : S.blocks.cell NQB = some N) (hloose : own NQB = .loose)
    (hnew : IsNew small v N) : ∃ own',
    MpqInv ((S.setBlock (S.queues q).tail { B with next := some NQB }).setTail q NQB)
        (Function.update V q (V q ++ [(NQB, [v])])) own' ∧
      Evolves 1 {mpqBlockOf v, NQB} S V own
        ((S.setBlock (S.queues q).tail { B with next := some NQB }).setTail q NQB)
        (Function.update V q (V q ++ [(NQB, [v])])) own' ∧
      OpenEnd ((S.setBlock (S.queues q).tail { B with next := some NQB }).setTail q NQB) q := by
  obtain ⟨c, vals, B₁, hV, hb₁, -, -, hown⟩ := h.endBlock q
  obtain rfl := Option.some.inj (hb.symm.trans hb₁)
  have hne : NQB ≠ (S.queues q).tail := by
    intro he
    rw [he, hown] at hloose
    exact BlockOwner.noConfusion hloose
  have hinv := h.link ho hV hb hclosed hN hloose hnew.magic hnew.next hnew.vals
  rw [← hV] at hinv
  have hopen :
      OpenEnd ((S.setBlock (S.queues q).tail { B with next := some NQB }).setTail q NQB) q := by
    refine ⟨N, ?_, hnew.opened⟩
    unfold setTail
    simp only [Function.update_self]
    exact (cell_setBlock_ne hne _).trans hN
  have hkeep : ∀ a, a ≠ (S.queues q).tail →
      ((S.setBlock (S.queues q).tail { B with next := some NQB }).setTail q NQB).blocks.cell a
        = S.blocks.cell a := fun a ha => cell_setBlock_ne ha _
  refine ⟨_, hinv, OnlyQueue.evolves h ⟨?_, ?_⟩ ?_ ?_ ?_, hopen⟩
  · intro p hp
    exact Function.update_of_ne hp _ _
  · intro a ha hal
    refine ⟨hkeep a ?_, ?_⟩
    · rintro rfl
      exact ha hown
    · rw [Function.update_of_ne, handOver_of_ne ho hal]
      rintro rfl
      exact hal hloose
  · refine Or.inr ⟨hopen, ?_⟩
    rw [Function.update_self, lastLength_concat]
    exact le_rfl
  · exact (Firm.append _ _).mono (Nat.zero_le 1)
  · intro a A ha hA hav
    rw [Set.mem_insert_iff, Set.mem_singleton_iff, not_or] at hav
    refine ⟨?_, (hkeep a ?_).trans hA⟩
    · rw [Function.update_of_ne hav.2, handOver_of_notMem hav.1, ha]
    · rintro rfl
      exact BlockOwner.noConfusion (ha.symm.trans hown)

/-- **A push that closed the last block** and got a new one. -/
theorem MpqInv.push_full {S₂ : MpqState} {V₂ : QueueName → BlockList} {own₂ : ℕ → BlockOwner}
    {N B₂ : QueueBlock} {NQB k : ℕ} {small : Bool} {c : BlockList} {vals : List ℕ}
    (h : MpqInv S V own) (ho : Offered S own q v)
    (hV : V q = c ++ [((S.queues q).tail, vals)])
    (he : Evolves k ∅ (pushState S q r (B.push v).1) V own S₂ V₂ own₂) (hinv₂ : MpqInv S₂ V₂ own₂)
    (htail : (S₂.queues q).tail = (S.queues q).tail)
    (hb₂ : S₂.blocks.cell (S.queues q).tail = some B₂) (hclosed : B₂.closed = true)
    (hN : S₂.blocks.cell NQB = some N) (hloose : own₂ NQB = .loose) (hnew : IsNew small v N)
    (hfresh : own NQB = .loose → S.blocks.cell NQB = none) : ∃ own',
    MpqInv ((S₂.setBlock (S.queues q).tail { B₂ with next := some NQB }).setTail q NQB)
        (Function.update V₂ q (V₂ q ++ [(NQB, [v])])) own' ∧
      Evolves (k + 1) {mpqBlockOf v} S V own
        ((S₂.setBlock (S.queues q).tail { B₂ with next := some NQB }).setTail q NQB)
        (Function.update V₂ q (V₂ q ++ [(NQB, [v])])) own' ∧
      OpenEnd ((S₂.setBlock (S.queues q).tail { B₂ with next := some NQB }).setTail q NQB) q := by
  have hown : own (S.queues q).tail = .chain q := h.owned q (_, vals) (by rw [hV]; simp)
  have hkeep := keepsLoose_pushState (r := r) hown (B.push v).1
  have ho₂ : Offered S₂ own₂ q v := ho.keep (hkeep.trans he.loose (fun b _ _ _ _ =>
    ⟨Set.notMem_empty b, Set.notMem_empty b⟩)) (Set.notMem_empty _)
  obtain ⟨own', hinv', hlink, hopen'⟩ := hinv₂.push_link ho₂ (htail ▸ hb₂) hclosed hN hloose hnew
  rw [htail] at hinv' hlink hopen'
  refine ⟨own', hinv', ?_, hopen'⟩
  have hboth : Evolves (k + 1) {mpqBlockOf v, NQB} _ _ _ _ _ _ :=
    he.trans hlink (fun b _ _ _ hbE => ⟨Set.notMem_empty b, hbE⟩)
  refine hboth.before h (onlyQueue_pushState hown _ (fun _ _ => rfl)) hkeep ?_ ?_
  · refine Or.inr ⟨hopen', ?_⟩
    rw [Function.update_self, lastLength_concat]
    exact Nat.le_add_left 1 k
  · intro b A hbl hA hbE
    rw [Set.mem_insert_iff, not_or]
    refine ⟨hbE, ?_⟩
    rintro rfl
    exact absurd (hA.symm.trans (hfresh hbl)) (by simp)

/-- The new block is one from `malloc`. -/
theorem MpqInv.evolves_malloc {N : QueueBlock} (h : MpqInv S V own) :
    Evolves 0 ∅ S V own { S with blocks := S.blocks.alloc N } V own := by
  have hkeep : ∀ b, own b ≠ .loose → (S.blocks.alloc N).cell b = S.blocks.cell b := by
    intro b hb
    refine (Store.cell_alloc _ _).trans (if_neg ?_)
    rintro rfl
    exact hb (h.unused _ (S.blocks.fresh _ le_rfl))
  refine ⟨fun r => Or.inl ⟨rfl, le_rfl, ?_⟩, fun r => Firm.refl (V r), ?_⟩
  · obtain ⟨-, -, -, -, -, -, -, hown⟩ := h.endBlock r
    have hcell : (S.blocks.alloc N).cell (S.queues r).tail = S.blocks.cell (S.queues r).tail := by
      apply hkeep _
      rw [hown]
      exact BlockOwner.noConfusion
    unfold OpenEnd
    simp only [hcell]
  · exact fun b B hb hB _ => ⟨hb, Store.cell_alloc_of_some hB⟩

end Push

/-! ## A pop -/

section Pop

variable {w : MpqWorld} {calls : MpqCalls} {S S' : MpqState} {V : QueueName → BlockList}
  {own : ℕ → BlockOwner} {q : QueueName} {v b : ℕ} {r st : Bool} {B B' B'' : QueueBlock}
  {c : BlockList} {vals : List ℕ}

/-- The state of `mpq_pop` after its attempt on the first block. -/
def popState (S : MpqState) (q : QueueName) (r : Bool) (B' : QueueBlock) : MpqState :=
  (S.setHptr (slot r) (some (S.queues q).head)).setBlock (S.queues q).head B'

theorem mpqPop_value (hb : S.blocks.cell (S.queues q).head = some B) (hpop : B.pop = some (B', v))
    (hv : v ≠ 0) : S.mpqPop w calls q r st
      = some ((popState S q r B').leave r st (some (S.queues q).head), v) := by
  have hb' := cell_setHptr hb (slot r) (some (S.queues q).head)
  unfold mpqPop blockPop
  simp only [hb', hpop, some_bind, if_pos hv]
  rfl

/-- The first block is empty and the only one. -/
theorem mpqPop_none (hb : S.blocks.cell (S.queues q).head = some B) (hpop : B.pop = some (B', 0))
    (hnext : B'.next = none) :
    S.mpqPop w calls q r st = some ((popState S q r B').leave r st none, 0) := by
  have hb' := cell_setHptr hb (slot r) (some (S.queues q).head)
  have hb₁ := cell_setBlock_self hb' B'
  unfold mpqPop blockPop
  simp only [hb', hpop, some_bind, ne_eq, not_true_eq_false, if_false, hb₁, hnext]
  rfl

/-- The first block is empty, and another one follows. -/
theorem mpqPop_drop {next : ℕ} (hb : S.blocks.cell (S.queues q).head = some B)
    (hpop : B.pop = some (B', 0)) (hnext : B'.next = some next) (hpop' : B'.pop = some (B'', 0)) :
    S.mpqPop w calls q r st
      = (((popState S q r B').setBlock (S.queues q).head B'').dropBlock w calls q (S.queues q).head
          next r).bind fun S => calls.pop S q r st := by
  have hb' := cell_setHptr hb (slot r) (some (S.queues q).head)
  have hb₁ := cell_setBlock_self hb' B'
  unfold mpqPop blockPop
  simp only [hb', hpop, some_bind, ne_eq, not_true_eq_false, if_false, hb₁, hnext, hpop']
  rfl

theorem openEnd_setBlock (hb : S.blocks.cell b = some B) (hclosed : B'.closed = B.closed)
    (p : QueueName) : OpenEnd S p ↔ OpenEnd (S.setBlock b B') p := by
  unfold OpenEnd
  rw [cell_setBlock hb]
  show (∃ A, S.blocks.cell (S.queues p).tail = some A ∧ A.closed = false)
    ↔ ∃ A, (if (S.queues p).tail = b then some B' else S.blocks.cell (S.queues p).tail) = some A
      ∧ A.closed = false
  by_cases hp : (S.queues p).tail = b
  · rw [if_pos hp, hp, hb]
    constructor
    · rintro ⟨A, hA, ho⟩
      exact ⟨B', rfl, hclosed.trans (Option.some.inj hA ▸ ho)⟩
    · rintro ⟨A, hA, ho⟩
      exact ⟨B, rfl, hclosed.symm.trans (Option.some.inj hA ▸ ho)⟩
  · rw [if_neg hp]

/-- The first block of a queue. -/
theorem MpqInv.headBlock (h : MpqInv S V own) (q : QueueName) : ∃ vals c B,
    V q = ((S.queues q).head, vals) :: c ∧ S.blocks.cell (S.queues q).head = some B ∧
      B.Contains vals ∧ own (S.queues q).head = .chain q ∧ 0 < B.size ∧ B.magic = .used := by
  obtain ⟨vals, c, hV⟩ := (h.chain q).eq_cons
  have hmem : ((S.queues q).head, vals) ∈ V q := by
    rw [hV]
    exact List.mem_cons_self
  obtain ⟨B, hb, hused, hvals⟩ := (h.chain q).cell hmem
  exact ⟨vals, c, B, hV, hb, hvals, h.owned q _ hmem, (h.sane _ B hb).size_pos, hused⟩

/-- **The first block is not empty.** -/
theorem MpqInv.pop_take (h : MpqInv S V own) (hV : V q = (b, v :: vals) :: c) (w : MpqWorld)
    (calls : MpqCalls) (r st : Bool) : v ≠ 0 ∧ ∃ B',
    S.mpqPop w calls q r st
        = some ((popState S q r B').leave r st (some (S.queues q).head), v) ∧
      MpqInv (popState S q r B') (Function.update V q ((b, vals) :: c)) own ∧
      Evolves 1 ∅ S V own (popState S q r B') (Function.update V q ((b, vals) :: c)) own := by
  obtain ⟨vals₁, c₁, B, hV₁, hb, hvals, hown, hsize, -⟩ := h.headBlock q
  obtain ⟨he, rfl⟩ := List.cons.inj (hV.symm.trans hV₁)
  obtain ⟨rfl, rfl⟩ := Prod.mk.inj he
  have hv : v ≠ 0 := fun hv => hvals.nonzero (hv ▸ List.mem_cons_self)
  obtain ⟨B', hpop, hvals', hsame, hclosed⟩ := hvals.pop_cons hsize
  have hS : MpqInv (S.setHptr (slot r) (some (S.queues q).head)) V own := h.congr rfl rfl
  have hbS := cell_setHptr hb (slot r) (some (S.queues q).head)
  refine ⟨hv, B', mpqPop_value hb hpop hv,
    hS.take hV hbS hsame (fun hc => hclosed.trans hc) hvals', ?_⟩
  refine ⟨fun p => ?_, fun p => ?_, fun a A ha hA _ => ⟨ha, ?_⟩⟩
  · refine Or.inl ⟨rfl, ?_, openEnd_setBlock hbS hclosed p⟩
    by_cases hp : p = q
    · subst hp
      rw [Function.update_self, hV]
      unfold lastLength
      cases c with
      | nil =>
        show vals.length ≤ (v :: vals).length + 1
        rw [List.length_cons]
        omega
      | cons x c => exact Nat.le_succ _
    · rw [Function.update_of_ne hp]
      exact Nat.le_succ _
  · by_cases hp : p = q
    · subst hp
      rw [Function.update_self, hV]
      exact Firm.refill (c := []) (by rw [List.length_cons])
    · rw [Function.update_of_ne hp]
      exact (Firm.refl _).mono (Nat.zero_le 1)
  · refine (cell_setBlock_ne ?_ B').trans hA
    rintro rfl
    exact BlockOwner.noConfusion (ha.symm.trans hown)

/-- **The first block is empty.** -/
theorem MpqInv.pop_touch (h : MpqInv S V own) (hV : V q = (b, []) :: c)
    (hb : S.blocks.cell b = some B) (hsame : Same B B') (hclosed : B'.closed = B.closed)
    (hvals : B'.Contains []) :
    MpqInv (S.setBlock b B') V own ∧ Evolves 0 ∅ S V own (S.setBlock b B') V own := by
  have hown : own b = .chain q := h.owned q (b, []) (by rw [hV]; exact List.mem_cons_self)
  refine ⟨h.touch (show V q = [] ++ (b, []) :: c from hV) hb hsame (fun hc => hclosed.trans hc)
    hvals, fun p => ?_, fun p => Firm.refl _, fun a A ha hA _ => ⟨ha, ?_⟩⟩
  · exact Or.inl ⟨rfl, le_rfl, openEnd_setBlock hb hclosed p⟩
  · refine (cell_setBlock_ne ?_ B').trans hA
    rintro rfl
    exact BlockOwner.noConfusion (ha.symm.trans hown)

theorem setHead_tail (S : MpqState) (q p : QueueName) (next : ℕ) :
    ((S.setHead q next).queues p).tail = (S.queues p).tail := by
  unfold setHead
  by_cases hp : p = q
  · subst hp
    simp only [Function.update_self]
  · simp only [Function.update_of_ne hp]

/-- The first block leaves the queue, and something else takes its place in the memory. -/
theorem MpqInv.drop_put {next : ℕ} {X : Option QueueBlock} (h : MpqInv S V own) (S' : MpqState)
    (hV : V q = (b, []) :: c) (hne : c ≠ []) (hb : S.blocks.cell b = some B)
    (hnext : B.next = some next) (hX : ∀ A, X = some A → Sane A)
    (hblocks : S'.blocks = S.blocks.put b X) (hqueues : S'.queues = (S.setHead q next).queues) :
    MpqInv S' (Function.update V q c) (Function.update own b .loose) ∧
      Evolves 0 ∅ S V own S' (Function.update V q c) (Function.update own b .loose) := by
  have hown : own b = .chain q := h.owned q (b, []) (by rw [hV]; exact List.mem_cons_self)
  have hkeep : ∀ a, a ≠ b → S'.blocks.cell a = S.blocks.cell a := by
    intro a ha
    rw [hblocks]
    exact Store.cell_put_ne ha X
  have hinv := h.drop hV hne hb hnext
  have honly : OnlyQueue q S own S' (Function.update own b .loose) := by
    refine ⟨fun p hp => ?_, fun a ha _ => ?_⟩
    · rw [hqueues]
      exact Function.update_of_ne hp _ _
    · have hab : a ≠ b := by
        rintro rfl
        exact ha hown
      exact ⟨hkeep a hab, Function.update_of_ne hab _ _⟩
  constructor
  · refine hinv.loose hqueues ?_ ?_
    · intro a A ha
      by_cases hab : a = b
      · rw [hblocks, hab, Store.cell_put_self hb] at ha
        exact hX A ha
      · rw [hkeep a hab] at ha
        exact h.sane a A ha
    · intro a ha
      apply hkeep a
      rintro rfl
      exact ha (Function.update_self _ _ _)
  · refine honly.evolves h ?_ ?_ ?_
    · -- the last block is another one
      obtain ⟨c₀, vals, A, hc₀, -⟩ := (h.chain q).eq_concat
      have hmem : ((S.queues q).tail, vals) ∈ c := by
        have hlast := congrArg List.getLast? (hV.symm.trans hc₀)
        rw [List.getLast?_concat, List.getLast?_cons_of_ne_nil hne] at hlast
        exact List.mem_of_getLast? hlast
      have htail : (S.queues q).tail ≠ b := by
        intro he
        have hnodup := h.nodup q
        rw [hV, List.map_cons, List.nodup_cons] at hnodup
        exact hnodup.1 (List.mem_map.mpr ⟨_, hmem, he⟩)
      have hqtail : (S'.queues q).tail = (S.queues q).tail := by
        rw [hqueues]
        exact setHead_tail S q q next
      refine Or.inl ⟨hqtail, ?_, ?_⟩
      · rw [Function.update_self, hV]
        unfold lastLength
        obtain ⟨x, c, rfl⟩ := List.exists_cons_of_ne_nil hne
        exact le_rfl
      · unfold OpenEnd
        rw [hqtail, hkeep _ htail]
    · rw [hV]
      exact Firm.drop b c
    · intro a A ha hA _
      have hab : a ≠ b := by
        rintro rfl
        exact BlockOwner.noConfusion (ha.symm.trans hown)
      exact ⟨(Function.update_of_ne hab _ _).trans ha, (hkeep a hab).trans hA⟩

/-- **An empty block is got rid of**: it is freed, or it is pushed to a queue of garbage blocks. -/
theorem MpqInv.dropBlock {next : ℕ} (h : MpqInv S V own) (hV : V q = (b, []) :: c) (hne : c ≠ [])
    (hb : S.blocks.cell b = some B) (hused : B.magic = .used) (hnext : B.next = some next)
    (w : MpqWorld) (calls : MpqCalls) (r : Bool) : ∃ S',
    MpqInv S' (Function.update V q c) (Function.update own b .loose) ∧
      Evolves 0 ∅ S V own S' (Function.update V q c) (Function.update own b .loose) ∧
      S'.hptr = S.hptr ∧ (∀ p, (S'.queues p).tail = (S.queues p).tail) ∧
      (S.dropBlock w calls q b next r = some S' ∨
        ∃ small, Offered S' (Function.update own b .loose) (.garbage small) (mpqBlockPtr b) ∧
          S.dropBlock w calls q b next r
            = (calls.push S' (.garbage small) (mpqBlockPtr b) r false).bind fun p => some p.1) := by
  have hsane := h.sane b B hb
  unfold MpqState.dropBlock
  dsimp only
  by_cases hhazard : ((S.setHead q next).isHazardPtr w b).1 ≤ 1
  · obtain ⟨hinv, hevolves⟩ := h.drop_put
      { S.setHead q next with blocks := S.blocks.put b none, checks := S.checks + 1 } hV hne hb
      hnext (X := none) (fun A hA => by cases hA) rfl rfl
    refine ⟨_, hinv, hevolves, rfl, fun p => setHead_tail S q p next, Or.inl ?_⟩
    rw [if_pos hhazard]
    have hb' : ((S.setHead q next).isHazardPtr w b).2.blocks.cell b = some B := hb
    unfold freeMpqBlock
    simp only [hb', hused, hsane.align, hsane.size, guard_true, Option.bind_eq_bind,
      Option.bind_some]
    rfl
  · obtain ⟨hinv, hevolves⟩ := h.drop_put
      (((S.setHead q next).isHazardPtr w b).2.setBlock b { B with magic := .garbage }) hV hne hb
      hnext (X := some { B with magic := .garbage })
      (fun A hA => Option.some.inj hA ▸ ⟨hsane.size, hsane.align⟩) rfl rfl
    refine ⟨_, hinv, hevolves, rfl, fun p => setHead_tail S q p next,
      Or.inr ⟨decide (B.size = 64), ?_, ?_⟩⟩
    · refine fun _ => ⟨b, { B with magic := .garbage }, rfl, Function.update_self _ _ _,
        cell_setBlock_self (S := ((S.setHead q next).isHazardPtr w b).2) hb _, rfl, ?_⟩
      rcases hsane.size with hsize | hsize
      · show B.size = mpqBlockSize (decide (B.size = 64))
        rw [hsize]
        rfl
      · show B.size = mpqBlockSize (decide (B.size = 64))
        rw [hsize]
        rfl
    · rw [if_neg hhazard]
      have hb' : (S.setHead q next).blocks.cell b = some B := hb
      simp only [hb', Option.bind_eq_bind, Option.bind_some]

end Pop

end MtprotoProxy
