/-
# The calls of the unbounded queue for blocks

What `mpq_push`, `mpq_pop` and `alloc_mpq_block` do to the queues of garbage blocks and of prepared
blocks when another queue needs a block or gets rid of one.  These calls are recursive, and a push
among them takes its new block from `malloc`, so that it calls nothing else.

The queue that is served stays as it is, and so do the ends of all queues but those of garbage
blocks.
-/
import MtprotoProxy.MpQueueRounds

namespace MtprotoProxy

open QueueBlock MpqState

/-! ## Recursive calls -/

/-- **What a recursive call leaves behind.** -/
structure CallServed (k : ℕ) (E : Set ℕ) (S : MpqState) (V : QueueName → BlockList)
    (own : ℕ → BlockOwner) (S' : MpqState) (V' : QueueName → BlockList) (own' : ℕ → BlockOwner) :
    Prop extends Evolves k E S V own S' V' own', Aside S V S' V' where
  inv : MpqInv S' V' own'
  free : S'.hptr 1 = none

/-- What happened before a recursive call. -/
theorem CallServed.after {k k' : ℕ} {E E' E'' : Set ℕ} {S S' S'' : MpqState}
    {V V' V'' : QueueName → BlockList} {own own' own'' : ℕ → BlockOwner}
    (h : CallServed k' E' S' V' own' S'' V'' own'') (he : Evolves k E S V own S' V' own')
    (ha : Aside S V S' V')
    (hE : ∀ b B, own b = .loose → S.blocks.cell b = some B → b ∉ E'' → b ∉ E ∧ b ∉ E') :
    CallServed (k + k') E'' S V own S'' V'' own'' :=
  ⟨he.trans h.toEvolves hE, ha.trans h.toAside, h.inv, h.free⟩

theorem CallServed.congr {k : ℕ} {E : Set ℕ} {S S' : MpqState} {V V' : QueueName → BlockList}
    {own own' : ℕ → BlockOwner} (h : CallServed k E S V own S' V' own') (T' : MpqState)
    (hblocks : T'.blocks = S'.blocks) (hqueues : T'.queues = S'.queues)
    (hhptr : T'.hptr = S'.hptr) : CallServed k E S V own T' V' own' := by
  refine ⟨h.toEvolves.congr rfl rfl hblocks hqueues, ⟨h.user, ?_, ?_⟩,
    h.inv.congr hblocks hqueues, ?_⟩
  · rw [hqueues]
    exact h.fixed
  · rw [hhptr]
    exact h.hptr
  · rw [hhptr]
    exact h.free

theorem CallServed.mono {k k' : ℕ} {E : Set ℕ} {S S' : MpqState} {V V' : QueueName → BlockList}
    {own own' : ℕ → BlockOwner} (h : CallServed k E S V own S' V' own') (hk : k ≤ k') :
    CallServed k' E S V own S' V' own' := ⟨h.toEvolves.mono hk, h.toAside, h.inv, h.free⟩

/-- No block of the list is empty. -/
def FilledBlocks (c : BlockList) : Prop := ∀ x ∈ c, x.2 ≠ []

section Recursive

variable {w : MpqWorld} {S S' : MpqState} {V : QueueName → BlockList} {own : ℕ → BlockOwner}
  {q : QueueName} {v b : ℕ} {B : QueueBlock}

theorem FilledBlocks.append {c c' : BlockList} (h : FilledBlocks c) (h' : FilledBlocks c') :
    FilledBlocks (c ++ c') :=
  fun x hx => (List.mem_append.mp hx).elim (h x) (h' x)

theorem FilledBlocks.update {c : BlockList} (hc : FilledBlocks (V q) → FilledBlocks c)
    (p : QueueName) (hp : FilledBlocks (V p)) : FilledBlocks (Function.update V q c p) := by
  by_cases hpq : p = q
  · subst hpq
    rw [Function.update_self]
    exact hc hp
  · rw [Function.update_of_ne hpq]
    exact hp

/-- Pushing to a queue of garbage blocks changes no other. -/
theorem aside_garbage {small : Bool} {c : BlockList}
    (hqueues : ∀ r, r ≠ .garbage small → S'.queues r = S.queues r) (hhptr : S'.hptr 0 = S.hptr 0) :
    Aside S V S' (Function.update V (.garbage small) c) :=
  ⟨Function.update_of_ne QueueName.noConfusion _ _, fun r hr => by rw [hqueues r (hr small)], hhptr⟩

/-- **A recursive push to a queue of garbage blocks.** -/
theorem push_recursive (n : ℕ) (small : Bool) (h : MpqInv S V own)
    (ho : Offered S own (.garbage small) v) (hv : v ≠ 0) : ∃ S' pos V' own',
    (mpqCalls w (n + 2)).push S (.garbage small) v true false = some (S', pos) ∧
      CallServed 1 {mpqBlockOf v} S V own S' V' own' ∧
      ∀ p, FilledBlocks (V p) → FilledBlocks (V' p) := by
  obtain ⟨c, vals, B, hV, hb, hvals, hnext, hown⟩ := h.endBlock (.garbage small)
  have hsize := (h.sane _ B hb).size_pos
  rcases hvals.push_cases hsize hv with
    ⟨⟨pos, hpos⟩, hopen, -, hvals', hsame, hopen'⟩ | ⟨hfail, -, hvals', hsame, hclosed'⟩
  · -- there is room in the last block
    obtain ⟨hinv, hevolves, -⟩ := h.push_room ho hV hb hsame hvals' hopen hopen' true
    refine ⟨_, pos, _, _, mpqPush_room hb hnext hpos, ⟨hevolves.congr rfl rfl rfl rfl,
      aside_garbage (fun _ _ => rfl) rfl, hinv.congr rfl rfl, rfl⟩,
      FilledBlocks.update (fun hf => ?_)⟩
    rw [hV] at hf
    apply FilledBlocks.append (fun x hx => hf x (List.mem_append_left _ hx))
    intro x hx
    rw [List.mem_singleton.mp hx]
    exact List.append_ne_nil_of_right_ne_nil _ (List.cons_ne_nil v [])
  · -- a new block follows it
    have hS : MpqInv (S.setHptr 1 (some (S.queues (.garbage small)).tail)) V own := h.congr rfl rfl
    have hinv₁ : MpqInv (pushState S (.garbage small) true (B.push v).1) V own :=
      hS.touch hV hb hsame (fun _ => hclosed') hvals'
    obtain ⟨N, hmalloc, hnew⟩ := mallocBlock_spec (w := w)
      (S := pushState S (.garbage small) true (B.push v).1)
      (decide ((S.queues (.garbage small)).tail = (S.queues (.garbage small)).head)) hv
    have hb₁ : (pushState S (.garbage small) true (B.push v).1).blocks.cell
        (S.queues (.garbage small)).tail = some (B.push v).1 :=
      cell_setBlock_self (S := S.setHptr 1 _) hb _
    have hb₂ := Store.cell_alloc_of_some (a := N) hb₁
    have hloose : own (pushState S (.garbage small) true (B.push v).1).blocks.size = .loose :=
      hinv₁.unused _ (Store.fresh _ _ le_rfl)
    obtain ⟨own', hinv', hevolves, -⟩ := h.push_full (r := true) ho hV hinv₁.evolves_malloc
      (hinv₁.malloc hnew.toSane) rfl hb₂ hclosed' (Store.cell_alloc_self N) hloose hnew
      (fun _ => S.blocks.fresh _ le_rfl)
    refine ⟨_, 0, _, own', mpqPush_link hb hnext hfail hmalloc rfl hb₂ (hsame.next.trans hnext) rfl,
      ⟨hevolves.congr rfl rfl rfl rfl, aside_garbage (fun r hr => ?_) rfl, hinv'.congr rfl rfl,
        rfl⟩,
      FilledBlocks.update (fun hf => hf.append ?_)⟩
    · exact Function.update_of_ne hr _ _
    · intro x hx
      rw [List.mem_singleton.mp hx]
      exact List.cons_ne_nil v []

/-- The block is in the hands of the caller, and was not before. -/
structure InHand (P : QueueBlock → Prop) (S : MpqState) (own : ℕ → BlockOwner) (S' : MpqState)
    (own' : ℕ → BlockOwner) (b : ℕ) : Prop where
  fresh : own b = .loose → S.blocks.cell b = none
  loose : own' b = .loose
  cell : ∃ B, S'.blocks.cell b = some B ∧ P B

/-- What was loose before is another block. -/
theorem InHand.ne {P : QueueBlock → Prop} {own' : ℕ → BlockOwner} {a : ℕ} {A : QueueBlock}
    (h : InHand P S own S' own' b) (ha : own a = .loose) (hA : S.blocks.cell a = some A) :
    a ≠ b := by
  rintro rfl
  exact absurd (hA.symm.trans (h.fresh ha)) (by simp)

/-- The block came into the hands of the caller later. -/
theorem InHand.before {P : QueueBlock → Prop} {S₁ : MpqState} {own₁ own' : ℕ → BlockOwner}
    (h : InHand P S₁ own₁ S' own' b) (hkeep : KeepsLoose ∅ S own S₁ own₁) :
    InHand P S own S' own' b := by
  refine ⟨fun hloose => ?_, h.loose, h.cell⟩
  by_contra hne
  obtain ⟨B, hB⟩ := Option.ne_none_iff_exists'.mp hne
  obtain ⟨hloose₁, hB₁⟩ := hkeep b B hloose hB (Set.notMem_empty b)
  exact absurd (hB₁.symm.trans (h.fresh hloose₁)) (by simp)

/-- A value that was popped is a block. -/
def Popped (q : QueueName) (S : MpqState) (own : ℕ → BlockOwner) (S' : MpqState)
    (own' : ℕ → BlockOwner) (v : ℕ) : Prop :=
  v ≠ 0 → ∃ b, v = mpqBlockPtr b ∧ InHand (StockBlock q) S own S' own' b

/-- The first round of a recursive pop, where there are values. -/
theorem take_recursive {vals : List ℕ} {c : BlockList} (w : MpqWorld) (calls : MpqCalls)
    (h : MpqInv S V own) (hq : q ≠ .user) (hV : V q = (b, v :: vals) :: c) : ∃ S' V' own',
    S.mpqPop w calls q true false = some (S', v) ∧ CallServed 1 ∅ S V own S' V' own' ∧
      Popped q S own S' own' v := by
  obtain ⟨-, B', hpop, hinv, hevolves⟩ := h.pop_take hV w calls true false
  have hmem : v ∈ blockValues (V q) := by
    rw [hV]
    exact List.mem_cons_self
  obtain ⟨a, A, rfl, hown, hA, hstock⟩ := h.fits q v hmem hq
  have hgone : mpqBlockPtr a ∉ blockValues (Function.update V q ((b, vals) :: c) q) := by
    have hnodup := h.distinct q hq
    rw [hV] at hnodup
    rw [Function.update_self]
    exact (List.nodup_cons.mp hnodup).1
  have hA' : (popState S q true B').blocks.cell a = some A := by
    obtain ⟨-, -, -, -, -, -, hhead, -⟩ := h.headBlock q
    refine (cell_setBlock_ne ?_ B').trans hA
    rintro rfl
    exact BlockOwner.noConfusion (hhead.symm.trans hown)
  have hrelease := hinv.release hq hown hgone
  have hloose : KeepsLoose ∅ S own (popState S q true B') (Function.update own a .loose) := by
    intro d D hd hD hdE
    obtain ⟨-, hD'⟩ := hevolves.loose d D hd hD hdE
    refine ⟨(Function.update_of_ne ?_ _ _).trans hd, hD'⟩
    rintro rfl
    exact BlockOwner.noConfusion (hd.symm.trans hown)
  have hevolves' : Evolves 1 ∅ S V own (popState S q true B') _ (Function.update own a .loose) :=
    ⟨hevolves.ends, hevolves.firm, hloose⟩
  refine ⟨_, _, _, hpop, ⟨hevolves'.congr rfl rfl rfl rfl,
    ⟨Function.update_of_ne hq.symm _ _, fun _ _ => rfl, rfl⟩, hrelease.congr rfl rfl, rfl⟩, ?_⟩
  intro _
  refine ⟨a, rfl, fun hd => ?_, Function.update_self _ _ _, A, hA', hstock⟩
  exact BlockOwner.noConfusion (hd.symm.trans hown)

/-- **A recursive pop gets rid of an empty block.** -/
theorem drop_recursive {next : ℕ} {c : BlockList} (w : MpqWorld) (n : ℕ) (h : MpqInv S V own)
    (hq : q ≠ .user) (hV : V q = (b, []) :: c) (hne : c ≠ []) (hb : S.blocks.cell b = some B)
    (hused : B.magic = .used) (hnext : B.next = some next) : ∃ S' V' own',
    S.dropBlock w (mpqCalls w (n + 2)) q b next true = some S' ∧ MpqInv S' V' own' ∧
      Evolves 1 ∅ S V own S' V' own' ∧ Aside S V S' V' ∧ FilledBlocks (V' q) := by
  have hown : own b = .chain q := h.owned q (b, []) (by rw [hV]; exact List.mem_cons_self)
  have hfilled : FilledBlocks (Function.update V q c q) := by
    have hfull := h.full q
    rw [hV] at hfull
    rw [Function.update_self]
    exact hfull
  obtain ⟨S', hinv, hevolves, hhptr, htails, hdrop⟩ :=
    h.dropBlock hV hne hb hused hnext w (mpqCalls w (n + 2)) true
  have haside : Aside S V S' (Function.update V q c) :=
    ⟨Function.update_of_ne hq.symm _ _, fun p _ => htails p, congrFun hhptr 0⟩
  rcases hdrop with hdrop | ⟨small, hoffered, hdrop⟩
  · exact ⟨S', _, _, hdrop, hinv, hevolves.mono (Nat.zero_le 1), haside, hfilled⟩
  · obtain ⟨S'', pos, V'', own'', hpush, hserved, hkeeps⟩ :=
      push_recursive (w := w) n small hinv hoffered (Nat.succ_ne_zero b)
    rw [mpqBlockOf_ptr] at hserved
    refine ⟨S'', V'', own'', ?_, hserved.inv, ?_, haside.trans hserved.toAside, hkeeps q hfilled⟩
    · rw [hdrop, hpush]
      rfl
    · have hboth : Evolves (0 + 1) ∅ S V own S'' V'' own'' := by
        refine hevolves.trans hserved.toEvolves (fun a A ha _ _ => ⟨Set.notMem_empty a, ?_⟩)
        rintro rfl
        exact BlockOwner.noConfusion (ha.symm.trans hown)
      exact hboth

/-- **A recursive pop** from a queue of blocks. -/
theorem pop_recursive (w : MpqWorld) (n : ℕ) (h : MpqInv S V own) (hq : q ≠ .user) :
    ∃ S' v V' own', (mpqCalls w (n + 3)).pop S q true false = some (S', v) ∧
      CallServed 2 ∅ S V own S' V' own' ∧ Popped q S own S' own' v := by
  obtain ⟨vals, c, B, hV, hb, hvals, hown, hsize, hused⟩ := h.headBlock q
  cases vals with
  | cons v vals =>
    obtain ⟨S', V', own', hpop, hserved, hpopped⟩ :=
      take_recursive w (mpqCalls w (n + 2)) h hq hV
    exact ⟨S', v, V', own', hpop, hserved.mono (by omega), hpopped⟩
  | nil =>
    obtain ⟨B', hpop, hvals', hsame, hclosed⟩ := hvals.pop_nil hsize
    have hS : MpqInv (S.setHptr 1 (some (S.queues q).head)) V own := h.congr rfl rfl
    have hbS : (S.setHptr 1 (some (S.queues q).head)).blocks.cell (S.queues q).head = some B := hb
    obtain ⟨hinv₁, hevolves₁⟩ := hS.pop_touch hV hbS hsame hclosed hvals'
    have hb₁ := cell_setBlock_self hbS B'
    by_cases hne : c = []
    · -- there is nothing in the queue
      have hchain := h.chain q
      rw [hV, hne] at hchain
      refine ⟨_, 0, V, own, mpqPop_none hb hpop (hsame.next.trans (hchain.single hb)),
        ⟨(hevolves₁.mono (Nat.zero_le 2)).congr rfl rfl rfl rfl, ⟨rfl, fun _ _ => rfl, rfl⟩,
          hinv₁.congr rfl rfl, rfl⟩, fun hv => absurd rfl hv⟩
    · have hchain := h.chain q
      rw [hV] at hchain
      obtain ⟨-, next, hnext, -⟩ := hchain.rest hne hb
      obtain ⟨B'', hpop', hvals'', hsame', hclosed'⟩ := hvals'.pop_nil (hsame.size ▸ hsize)
      obtain ⟨hinv₂, hevolves₂⟩ := hinv₁.pop_touch hV hb₁ hsame' hclosed' hvals''
      obtain ⟨S', V', own', hdrop, hinv', hevolves, haside, hfilled⟩ :=
        drop_recursive w n hinv₂ hq hV hne (cell_setBlock_self hb₁ B'')
          (hsame'.magic.trans (hsame.magic.trans hused))
          (hsame'.next.trans (hsame.next.trans hnext))
      -- the next block has values
      obtain ⟨vals, c', -, hV', -⟩ := hinv'.headBlock q
      obtain ⟨v, vals, rfl⟩ := List.exists_cons_of_ne_nil (hfilled _ (hV' ▸ List.mem_cons_self))
      obtain ⟨S'', V'', own'', hpop'', hserved, hpopped⟩ :=
        take_recursive w (mpqCalls w (n + 1)) hinv' hq hV'
      have hbefore : Evolves 1 ∅ S V own S' V' own' := by
        have htouch := (hevolves₁.append hevolves₂).append hevolves
        exact htouch.congr rfl rfl rfl rfl
      have haside' : Aside S V S' V' := ⟨haside.user, haside.fixed, haside.hptr⟩
      refine ⟨S'', v, V'', own'', ?_, hserved.after hbefore haside'
        (fun a _ _ _ _ => ⟨Set.notMem_empty a, Set.notMem_empty a⟩), ?_⟩
      · apply (mpqPop_drop hb hpop (hsame.next.trans hnext) hpop').trans
        rw [show ((popState S q true B').setBlock (S.queues q).head B'').dropBlock w
          (mpqCalls w (n + 2)) q (S.queues q).head next true = some S' from hdrop]
        exact hpop''
      · intro hv
        obtain ⟨a, ha, hin⟩ := hpopped hv
        exact ⟨a, ha, hin.before hbefore.loose⟩

/-- **The first part of `alloc_mpq_block`.** -/
theorem takeGarbage_spec (w : MpqWorld) (n : ℕ) (small : Bool) (h : MpqInv S V own) :
    ∃ S' QB V' own', S.takeGarbage w (mpqCalls w (n + 3)) small = some (S', QB) ∧
      CallServed 3 ∅ S V own S' V' own' ∧
      ∀ b, QB = some b → InHand (StockBlock (.garbage small)) S own S' own' b := by
  obtain ⟨S₁, v, V₁, own₁, hpop, hserved, hpopped⟩ :=
    pop_recursive (q := .garbage small) w n h QueueName.noConfusion
  unfold takeGarbage
  simp only [hpop, Option.bind_eq_bind, Option.bind_some]
  by_cases hv : v = 0
  · rw [if_pos hv]
    exact ⟨S₁, none, V₁, own₁, rfl, hserved.mono (by omega), fun b hb => by cases hb⟩
  · rw [if_neg hv]
    obtain ⟨b, rfl, hin⟩ := hpopped hv
    rw [mpqBlockOf_ptr]
    obtain ⟨B, hB, hstock⟩ := hin.cell
    have hchecked := hserved.congr (S₁.isHazardPtr w b).2 rfl rfl rfl
    by_cases hhazard : (S₁.isHazardPtr w b).1 = 0
    · rw [if_pos hhazard]
      refine ⟨(S₁.isHazardPtr w b).2, some b, V₁, own₁, ?_, hchecked.mono (by omega), ?_⟩
      · simp only [hB, hstock.1, guard_true, Option.bind_some]
        rfl
      · intro a ha
        rw [← Option.some.inj ha]
        exact ⟨hin.fresh, hin.loose, B, hB, hstock⟩
    · rw [if_neg hhazard]
      obtain ⟨S₂, pos, V₂, own₂, hpush, hserved₂, -⟩ := push_recursive (w := w) (n + 1) small
        hchecked.inv (fun _ => ⟨b, B, rfl, hin.loose, hB, hstock⟩) hv
      rw [mpqBlockOf_ptr] at hserved₂
      refine ⟨S₂, none, V₂, own₂, ?_, ?_, fun b hb => by cases hb⟩
      · simp only [hpush, Option.bind_some]
      · exact hserved₂.after hchecked.toEvolves hchecked.toAside
          (fun a A ha hA _ => ⟨Set.notMem_empty a, hin.ne ha hA⟩)

/-- **The second part.** -/
theorem takePrepared_spec (w : MpqWorld) (n : ℕ) (small : Bool) (h : MpqInv S V own) :
    ∃ S' QB V' own', S.takePrepared (mpqCalls w (n + 3)) small = some (S', QB) ∧
      CallServed 2 ∅ S V own S' V' own' ∧
      ∀ b, QB = some b → InHand (StockBlock (.prepared small)) S own S' own' b := by
  obtain ⟨S₁, v, V₁, own₁, hpop, hserved, hpopped⟩ :=
    pop_recursive (q := .prepared small) w n h QueueName.noConfusion
  unfold takePrepared
  simp only [hpop, Option.bind_eq_bind, Option.bind_some]
  by_cases hv : v = 0
  · rw [if_pos hv]
    exact ⟨S₁, none, V₁, own₁, rfl, hserved, fun b hb => by cases hb⟩
  · rw [if_neg hv]
    obtain ⟨b, rfl, hin⟩ := hpopped hv
    rw [mpqBlockOf_ptr]
    obtain ⟨B, hB, hstock⟩ := hin.cell
    refine ⟨S₁, some b, V₁, own₁, ?_, hserved, ?_⟩
    · simp only [hB, hstock.1, guard_true, Option.bind_some]
      rfl
    · intro a ha
      rw [← Option.some.inj ha]
      exact hin

/-- A loose block changes. -/
theorem MpqInv.evolves_setLoose (h : MpqInv S V own) (hloose : own b = .loose) (B' : QueueBlock) :
    Evolves 0 {b} S V own (S.setBlock b B') V own := by
  refine ⟨fun p => Or.inl ⟨rfl, le_rfl, ?_⟩, fun p => Firm.refl _, fun a A ha hA hab => ⟨ha, ?_⟩⟩
  · obtain ⟨-, -, -, -, -, -, -, hown⟩ := h.endBlock p
    have hne : (S.queues p).tail ≠ b := by
      intro he
      rw [he, hloose] at hown
      exact BlockOwner.noConfusion hown
    unfold OpenEnd
    rw [show (S.setBlock b B').blocks.cell ((S.setBlock b B').queues p).tail
      = S.blocks.cell (S.queues p).tail from cell_setBlock_ne hne B']
  · exact (cell_setBlock_ne hab B').trans hA

/-- **A block is used again.** -/
theorem reuse_spec (small prepared : Bool) {k : ℕ} {S₁ : MpqState} {V₁ : QueueName → BlockList}
    {own₁ : ℕ → BlockOwner} {P : QueueBlock → Prop} (hserved : CallServed k ∅ S V own S₁ V₁ own₁)
    (hin : InHand P S own S₁ own₁ b) (hsize : ∀ B, P B → B.size = mpqBlockSize small)
    (hnodes : ∀ B, P B → prepared = true → ∀ i, 0 < i → B.nodes i = freshNodes i) (hv : v ≠ 0) :
    ∃ S', S₁.reuse b v small prepared = some (S', b) ∧ CallServed k ∅ S V own S' V₁ own₁ ∧
      InHand (IsNew small v) S own S' own₁ b := by
  obtain ⟨B, hB, hP⟩ := hin.cell
  have hfresh : ∀ i, 0 < i → (if prepared then B.nodes else freshNodes) i = freshNodes i := by
    intro i hi
    by_cases hprepared : prepared = true
    · rw [if_pos hprepared]
      exact hnodes B hP hprepared i hi
    · rw [if_neg hprepared]
  have hnew := init_isNew B.alignBytes small hv (hserved.inv.sane b B hB).align hfresh
  generalize hN : QueueBlock.init B.alignBytes (mpqBlockSize small) v _ = N at hnew
  refine ⟨S₁.setBlock b N, ?_, ⟨?_, hserved.toAside.trans ⟨rfl, fun _ _ => rfl, rfl⟩,
    hserved.inv.setLoose hB hin.loose hnew.toSane, hserved.free⟩,
    hin.fresh, hin.loose, N, cell_setBlock_self hB N, hnew⟩
  · unfold reuse
    simp only [hB, hsize B hP, guard_true, some_bind, hN]
    rfl
  · exact hserved.toEvolves.trans (hserved.inv.evolves_setLoose hin.loose N)
      (fun a A ha hA _ => ⟨Set.notMem_empty a, hin.ne ha hA⟩)

/-- **A new block**, for a call that is not recursive. -/
theorem alloc_recursive (w : MpqWorld) (n : ℕ) (small : Bool) (h : MpqInv S V own) (hv : v ≠ 0) :
    ∃ S' b V' own', (mpqCalls w (n + 4)).alloc S v true small = some (S', b) ∧
      CallServed 5 ∅ S V own S' V' own' ∧ InHand (IsNew small v) S own S' own' b := by
  obtain ⟨S₁, QB, V₁, own₁, htake, hserved₁, hin₁⟩ := takeGarbage_spec w n small h
  show ∃ S' b V' own', S.allocMpqBlock w (mpqCalls w (n + 3)) v true small = some (S', b) ∧
    CallServed 5 ∅ S V own S' V' own' ∧ InHand (IsNew small v) S own S' own' b
  unfold allocMpqBlock
  simp only [if_true, htake, some_bind]
  cases QB with
  | some b =>
    obtain ⟨S', hreuse, hserved, hin⟩ := reuse_spec small false hserved₁
      (hin₁ b rfl) (fun B hB => hB.2) (fun _ _ hb => absurd hb Bool.false_ne_true) hv
    exact ⟨S', b, V₁, own₁, hreuse, hserved.mono (by omega), hin⟩
  | none =>
    obtain ⟨S₂, QB, V₂, own₂, htake₂, hserved₂, hin₂⟩ := takePrepared_spec w n small hserved₁.inv
    have hserved : CallServed 5 ∅ S V own S₂ V₂ own₂ :=
      hserved₂.after hserved₁.toEvolves hserved₁.toAside
        (fun a _ _ _ _ => ⟨Set.notMem_empty a, Set.notMem_empty a⟩)
    simp only [htake₂]
    cases QB with
    | some b =>
      obtain ⟨S', hreuse, hserved', hin⟩ := reuse_spec small true hserved
        ((hin₂ b rfl).before hserved₁.loose) (fun B hB => hB.2.1) (fun B hB _ => hB.2.2) hv
      exact ⟨S', b, V₂, own₂, hreuse, hserved', hin⟩
    | none =>
      obtain ⟨N, hmalloc, hnew⟩ := mallocBlock_spec (w := w) (S := S₂) small hv
      have hunused : own₂ S₂.blocks.size = .loose :=
        hserved.inv.unused _ (S₂.blocks.fresh _ le_rfl)
      refine ⟨_, _, V₂, own₂, hmalloc, ⟨hserved.toEvolves.append hserved.inv.evolves_malloc,
        hserved.toAside.trans ⟨rfl, fun _ _ => rfl, rfl⟩, hserved.inv.malloc hnew.toSane,
        hserved.free⟩, ⟨fun hloose => ?_, hunused, N, Store.cell_alloc_self N, hnew⟩⟩
      by_contra hne
      obtain ⟨B, hB⟩ := Option.ne_none_iff_exists'.mp hne
      obtain ⟨-, hB₂⟩ := hserved.loose _ B hloose hB (Set.notMem_empty _)
      exact absurd (hB₂.symm.trans (S₂.blocks.fresh _ le_rfl)) (by simp)

end Recursive

end MtprotoProxy
