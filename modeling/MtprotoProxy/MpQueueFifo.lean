/-
# The unbounded queue is a queue

`mpq_push`, `mpq_pop` and `mpq_is_empty` on one queue, from the states in which no call is under
way.  Such a call may use the queues of garbage blocks and of prepared blocks on the way, and then a
push to a queue of garbage blocks can find that the queue got another block while a new one was
allocated; the new one becomes a prepared block.

The result is `mpq_fifo`: every sequence of calls gives the answers of a list.
-/
import MtprotoProxy.MpQueueCalls

namespace MtprotoProxy

open QueueBlock MpqState

/-- No call is under way. -/
structure Ready (S : MpqState) (V : QueueName → BlockList) (own : ℕ → BlockOwner) : Prop where
  inv : MpqInv S V own
  opened : ∀ q, OpenEnd S q
  free : S.hptr 1 = none

section Push

variable {w : MpqWorld} {S S' : MpqState} {V V' : QueueName → BlockList} {own own' : ℕ → BlockOwner}
  {q : QueueName} {v b k : ℕ} {B : QueueBlock} {E : Set ℕ}

theorem Evolves.opened (he : Evolves k E S V own S' V' own') (hopen : OpenEnd S q) :
    OpenEnd S' q := by
  rcases he.ends q with ⟨-, -, hiff⟩ | ⟨hopen', -⟩
  · exact hiff.mp hopen
  · exact hopen'

/-- **A full block after a new one was allocated**: it is still the last one, or it is followed by
others. -/
theorem MpqInv.fullBlock {S₂ : MpqState} {V₂ : QueueName → BlockList} {own₂ : ℕ → BlockOwner}
    {c : BlockList} {vals : List ℕ} (hinv₂ : MpqInv S₂ V₂ own₂)
    (he : Evolves 5 ∅ S V own S₂ V₂ own₂) (hV : V q = c ++ [((S.queues q).tail, vals)])
    (hlen : 64 ≤ vals.length) (hclosed : ¬ OpenEnd S q) : ∃ B₂,
    S₂.blocks.cell (S.queues q).tail = some B₂ ∧
      ((S₂.queues q).tail = (S.queues q).tail ∧ B₂.next = none ∧ B₂.closed = true ∨
        (S₂.queues q).tail ≠ (S.queues q).tail ∧ (∃ next, B₂.next = some next) ∧ OpenEnd S₂ q ∧
          lastLength (V₂ q) ≤ 5) := by
  obtain ⟨vals', hmem, hlen'⟩ := he.firm q ((S.queues q).tail, vals) (by rw [hV]; simp) 59
    (by omega) (by show 59 + 5 ≤ vals.length; omega)
  obtain ⟨B₂, hb₂, -, -⟩ := (hinv₂.chain q).cell hmem
  refine ⟨B₂, hb₂, ?_⟩
  obtain ⟨c₀, c₁, hV₂⟩ := List.append_of_mem hmem
  obtain ⟨d, valsd, Bd, hd, hbd, -, -, hnextd⟩ := (hinv₂.chain q).eq_concat
  have hchain := hinv₂.chain q
  have hnodup := hinv₂.nodup q
  rw [hV₂] at hchain hnodup
  by_cases hc₁ : c₁ = []
  · -- it is the last block
    subst hc₁
    obtain ⟨-, hlast⟩ := List.append_inj' (hV₂.symm.trans hd) rfl
    obtain ⟨htail, -⟩ := Prod.mk.inj (List.singleton_inj.mp hlast)
    rw [← htail] at hbd
    obtain rfl := Option.some.inj (hb₂.symm.trans hbd)
    refine Or.inl ⟨htail.symm, hnextd, ?_⟩
    rcases he.ends q with ⟨-, -, hiff⟩ | ⟨-, hlen₂⟩
    · by_contra hopen
      rw [Bool.not_eq_true] at hopen
      exact hclosed (hiff.mpr ⟨B₂, htail ▸ hb₂, hopen⟩)
    · rw [hV₂, lastLength_concat] at hlen₂
      change vals'.length ≤ 5 at hlen₂
      omega
  · obtain ⟨-, next, hnext, -⟩ := hchain.suffix.rest hc₁ hb₂
    have htail : (S₂.queues q).tail ≠ (S.queues q).tail := by
      intro he
      rw [he] at hbd
      obtain rfl := Option.some.inj (hb₂.symm.trans hbd)
      exact absurd (hnext.symm.trans hnextd) (by simp)
    refine Or.inr ⟨htail, ⟨next, hnext⟩, ?_⟩
    rcases he.ends q with ⟨htail', -, -⟩ | hopen
    · exact absurd htail' htail
    · exact hopen

/-- The states after a push whose value is in the queue. -/
theorem Ready.leave {r st : Bool} {p : Option ℕ} (hinv : MpqInv S V own)
    (hopened : ∀ q, OpenEnd S q) (hfree : r = true ∨ S.hptr 1 = none) :
    Ready (S.leave r st p) V own := by
  refine ⟨hinv.congr (leave_blocks _ _ _ _) (leave_queues _ _ _ _),
    fun q => (hopened q).congr (leave_blocks _ _ _ _) (leave_queues _ _ _ _), ?_⟩
  rw [leave_hptr _ _ _ _ _ (by decide)]
  rcases hfree with rfl | hfree
  · rfl
  · split
    · rfl
    · exact hfree

/-- **The first attempt of a push**: it finds room, or it closes the last block, which is full, and
gets a new one. -/
theorem Ready.attempt (w : MpqWorld) (n : ℕ) (st : Bool) (h : Ready S V own)
    (ho : Offered S own q v) (hv : v ≠ 0) :
    (∃ S' pos c own', (∀ calls, S.mpqPush calls q v false st = some (S', pos)) ∧
        Ready S' (Function.update V q c) own' ∧
        Evolves 1 {mpqBlockOf v} S V own S' (Function.update V q c) own' ∧
        blockValues c = blockValues (V q) ++ [v]) ∨
      ∃ c vals B S₂ NQB V₂ own₂, V q = c ++ [((S.queues q).tail, vals)] ∧ 64 ≤ vals.length ∧
        S.blocks.cell (S.queues q).tail = some B ∧ B.next = none ∧ (B.push v).2 = none ∧
        MpqInv (pushState S q false (B.push v).1) V own ∧
        ¬ OpenEnd (pushState S q false (B.push v).1) q ∧
        (pushState S q false (B.push v).1).newBlock (mpqCalls w (n + 4)) v false
          (decide ((S.queues q).tail = (S.queues q).head)) = some (S₂, NQB) ∧
        CallServed 5 ∅ (pushState S q false (B.push v).1) V own S₂ V₂ own₂ ∧
        InHand (IsNew (decide ((S.queues q).tail = (S.queues q).head)) v)
          (pushState S q false (B.push v).1) own S₂ own₂ NQB := by
  obtain ⟨c, vals, B, hV, hb, hvals, hnext, hown⟩ := h.inv.endBlock q
  have hsane := h.inv.sane _ B hb
  obtain ⟨B₁, hb₁, hopen₁⟩ := h.opened q
  obtain rfl := Option.some.inj (hb.symm.trans hb₁)
  have hbS := cell_setHptr hb (slot false) (some (S.queues q).tail)
  rcases hvals.push_cases hsane.size_pos hv with
    ⟨⟨pos, hpos⟩, hopen, -, hvals', hsame, hopen'⟩ | ⟨hfail, hfull, hvals', hsame, hclosed'⟩
  · obtain ⟨hinv, hevolves, -⟩ := h.inv.push_room ho hV hb hsame hvals' hopen hopen' false
    refine Or.inl ⟨_, pos, _, _, fun _ => mpqPush_room hb hnext hpos,
      Ready.leave hinv (fun p => hevolves.opened (h.opened p)) (Or.inr h.free),
      hevolves.congr rfl rfl (leave_blocks _ _ _ _) (leave_queues _ _ _ _), ?_⟩
    rw [hV]
    simp only [blockValues_append, blockValues_cons, List.append_assoc, List.append_nil,
      show blockValues [] = [] from rfl]
  · have hlen : 64 ≤ vals.length := by
      rcases hfull with hfull | hfull
      · exact absurd (hopen₁.symm.trans hfull) (by simp)
      · rcases hsane.size with hsize | hsize <;> omega
    have hS : MpqInv (S.setHptr (slot false) (some (S.queues q).tail)) V own := h.inv.congr rfl rfl
    have hinv : MpqInv (pushState S q false (B.push v).1) V own :=
      hS.touch hV hbS hsame (fun _ => hclosed') hvals'
    have hclosed : ¬ OpenEnd (pushState S q false (B.push v).1) q := by
      rintro ⟨A, hA, hopen⟩
      obtain rfl := Option.some.inj ((cell_setBlock_self hbS _).symm.trans hA)
      exact absurd (hopen.symm.trans hclosed') (by simp)
    obtain ⟨S₂, NQB, V₂, own₂, halloc, hserved, hin⟩ := alloc_recursive w n
      (decide ((S.queues q).tail = (S.queues q).head)) hinv hv
    refine Or.inr ⟨c, vals, B, S₂, NQB, V₂, own₂, hV, hlen, hb, hnext, hfail, hinv, hclosed, ?_,
      hserved, hin⟩
    have hfree : (pushState S q false (B.push v).1).hptr 1 = none := h.free
    unfold newBlock
    simp only [Bool.false_eq_true, if_false, hfree, halloc, hserved.free, guard_true, some_bind]
    rfl

/-- A push where there is room. -/
theorem Ready.push_room (calls : MpqCalls) (st : Bool) (h : Ready S V own)
    (ho : Offered S own q v) (hv : v ≠ 0) (hroom : lastLength (V q) < 64) : ∃ S' pos c own',
    S.mpqPush calls q v false st = some (S', pos) ∧ Ready S' (Function.update V q c) own' := by
  rcases h.attempt ⟨fun _ _ => false, fun _ => 0, fun _ => rfl⟩ 0 st ho hv with
    ⟨S', pos, c, own', hpush, hready, -⟩ | ⟨c, vals, -, -, -, -, -, hV, hlen, -⟩
  · exact ⟨S', pos, c, own', hpush calls, hready⟩
  · rw [hV, lastLength_concat] at hroom
    exact absurd hroom (Nat.not_lt.mpr hlen)

/-- **The new block follows the last one.** -/
theorem Ready.push_link {S₂ : MpqState} {V₂ : QueueName → BlockList} {own₂ : ℕ → BlockOwner}
    {c : BlockList} {vals : List ℕ} {NQB : ℕ} {B₂ : QueueBlock} {small : Bool} (st : Bool)
    (h : Ready S V own) (ho : Offered S own q v) (hV : V q = c ++ [((S.queues q).tail, vals)])
    (hserved : CallServed 5 ∅ (pushState S q false (B.push v).1) V own S₂ V₂ own₂)
    (hin : InHand (IsNew small v) (pushState S q false (B.push v).1) own S₂ own₂ NQB)
    (htail : (S₂.queues q).tail = (S.queues q).tail)
    (hb₂ : S₂.blocks.cell (S.queues q).tail = some B₂) (hclosed : B₂.closed = true) : ∃ own',
    Ready ((((S₂.setBlock (S.queues q).tail { B₂ with next := some NQB }).setTail q NQB).leave
        false st (some NQB))) (Function.update V₂ q (V₂ q ++ [(NQB, [v])])) own' ∧
      Evolves 6 {mpqBlockOf v} S V own
        (((S₂.setBlock (S.queues q).tail { B₂ with next := some NQB }).setTail q NQB).leave
          false st (some NQB)) (Function.update V₂ q (V₂ q ++ [(NQB, [v])])) own' := by
  obtain ⟨N, hN, hnew⟩ := hin.cell
  have hown : own (S.queues q).tail = .chain q := h.inv.owned q (_, vals) (by rw [hV]; simp)
  have hfresh : own NQB = .loose → S.blocks.cell NQB = none := by
    intro hloose
    rw [← hin.fresh hloose]
    refine (cell_setBlock_ne ?_ _).symm
    rintro rfl
    exact BlockOwner.noConfusion (hloose.symm.trans hown)
  obtain ⟨own', hinv', hevolves, -⟩ := h.inv.push_full ho hV hserved.toEvolves hserved.inv htail hb₂
    hclosed hN hin.loose hnew hfresh
  refine ⟨own', Ready.leave hinv' (fun p => hevolves.opened (h.opened p)) (Or.inr hserved.free), ?_⟩
  exact hevolves.congr rfl rfl (leave_blocks _ _ _ _) (leave_queues _ _ _ _)

/-- **A push to a queue that keeps its end** while a block is allocated. -/
theorem push_calm (w : MpqWorld) (n : ℕ) (st : Bool) (h : Ready S V own)
    (hq : ∀ small, q ≠ .garbage small) (ho : Offered S own q v) (hv : v ≠ 0) :
    ∃ S' pos V₂ c own', (mpqCalls w (n + 5)).push S q v false st = some (S', pos) ∧
      Ready S' (Function.update V₂ q c) own' ∧
      Evolves 6 {mpqBlockOf v} S V own S' (Function.update V₂ q c) own' ∧ V₂ .user = V .user ∧
      blockValues c = blockValues (V₂ q) ++ [v] := by
  rcases h.attempt w n st ho hv with ⟨S', pos, c, own', hpush, hready, hevolves, hc⟩ |
    ⟨c, vals, B, S₂, NQB, V₂, own₂, hV, hlen, hb, hnext, hfail, hinv, hclosed, hnew, hserved, hin⟩
  · exact ⟨S', pos, V, c, own', hpush _, hready, hevolves.mono (by omega), rfl, hc⟩
  · have htail : (S₂.queues q).tail = (S.queues q).tail := hserved.fixed q hq
    obtain ⟨B₂, hb₂, ⟨-, hnext₂, hclosed₂⟩ | ⟨hmoved, -⟩⟩ :=
      hserved.inv.fullBlock hserved.toEvolves hV hlen hclosed
    · obtain ⟨own', hready, hevolves⟩ :=
        h.push_link st ho hV hserved hin htail hb₂ hclosed₂
      refine ⟨_, 0, V₂, _, own', mpqPush_link hb hnext hfail hnew (hserved.hptr) hb₂ hnext₂ htail,
        hready, hevolves, hserved.user, ?_⟩
      rw [blockValues_append]
      rfl
    · exact absurd htail hmoved

/-- **A push to a queue of garbage blocks.**  When the queue got another block meanwhile, the new
one becomes a prepared block, and the second attempt finds room. -/
theorem push_garbage (w : MpqWorld) (n : ℕ) (small : Bool) (h : Ready S V own)
    (ho : Offered S own (.garbage small) v) (hv : v ≠ 0) : ∃ S' pos V' own',
    (mpqCalls w (n + 6)).push S (.garbage small) v false false = some (S', pos) ∧
      Ready S' V' own' ∧ V' .user = V .user := by
  rcases h.attempt w (n + 1) false ho hv with ⟨S', pos, c, own', hpush, hready, -⟩ |
    ⟨c, vals, B, S₂, NQB, V₂, own₂, hV, hlen, hb, hnext, hfail, hinv, hclosed, hnew, hserved, hin⟩
  · exact ⟨S', pos, _, own', hpush _, hready, Function.update_of_ne QueueName.noConfusion _ _⟩
  · obtain ⟨B₂, hb₂, hcase⟩ := hserved.inv.fullBlock hserved.toEvolves hV hlen hclosed
    rcases hcase with ⟨htail, hnext₂, hclosed₂⟩ | ⟨-, ⟨next, hnext₂⟩, hopen₂, hlen₂⟩
    · obtain ⟨own', hready, -⟩ := h.push_link false ho hV hserved hin htail hb₂ hclosed₂
      exact ⟨_, 0, _, own', mpqPush_link hb hnext hfail hnew hserved.hptr hb₂ hnext₂ htail, hready,
        (Function.update_of_ne QueueName.noConfusion _ _).trans hserved.user⟩
    · obtain ⟨N, hN, hisNew⟩ := hin.cell
      obtain ⟨b, A, rfl, hloose, hA, hstock⟩ := ho QueueName.noConfusion
      have hown : own (S.queues (.garbage small)).tail = .chain (.garbage small) :=
        h.inv.owned (.garbage small) (_, vals) (by rw [hV]; simp)
      have hkeep := keepsLoose_pushState (r := false) hown (B.push (mpqBlockPtr b)).1
      obtain ⟨-, hA₁⟩ := hkeep b A hloose hA (Set.notMem_empty b)
      have hne : mpqBlockOf (mpqBlockPtr b) ∉ ({NQB} : Set ℕ) := by
        rw [mpqBlockOf_ptr, Set.mem_singleton_iff]
        exact hin.ne hloose hA₁
      -- the new block becomes a prepared one
      have hprepare := hserved.inv.evolves_setLoose hin.loose { N with magic := .prepared }
      have hready₂ : Ready (S₂.setBlock NQB { N with magic := .prepared }) V₂ own₂ := by
        refine ⟨hserved.inv.setLoose hN hin.loose ⟨hisNew.size, hisNew.align⟩, fun p => ?_,
          hserved.free⟩
        by_cases hp : p = .garbage small
        · exact hprepare.opened (hp ▸ hopen₂)
        · have honly := onlyQueue_pushState (r := false) hown (B.push (mpqBlockPtr b)).1
            (fun _ _ => rfl)
          refine hprepare.opened (hserved.toEvolves.opened ?_)
          have hend := honly.endMoves (k := 0) h.inv hp (V (.garbage small))
          rcases hend with ⟨-, -, hiff⟩ | ⟨hopen, -⟩
          · exact hiff.mp (h.opened p)
          · exact hopen
      obtain ⟨S₃, pos₃, V₃, c₃, own₃, hpush₃, hready₃, hevolves₃, huser₃, -⟩ := push_calm w n false
        (q := .prepared
          (decide ((S.queues (.garbage small)).tail = (S.queues (.garbage small)).head)))
        (v := mpqBlockPtr NQB) hready₂ (fun _ => QueueName.noConfusion)
        (fun _ => ⟨NQB, _, rfl, hin.loose, cell_setBlock_self hN _, rfl, hisNew.small,
          hisNew.nodes⟩)
        (Nat.succ_ne_zero NQB)
      rw [mpqBlockOf_ptr] at hevolves₃
      have ho₃ : Offered S₃ own₃ (.garbage small) (mpqBlockPtr b) :=
        (((ho.keep hkeep (Set.notMem_empty _)).keep hserved.loose (Set.notMem_empty _)).keep
          hprepare.loose hne).keep hevolves₃.loose hne
      obtain ⟨S₄, pos, c₄, own₄, hpush₄, hready₄⟩ :=
        hready₃.push_room (mpqCalls w (n + 4)) false ho₃ hv (by
          rcases hevolves₃.ends (.garbage small) with ⟨-, hlen₃, -⟩ | ⟨-, hlen₃⟩ <;> omega)
      refine ⟨S₄, pos, _, own₄, ?_, hready₄, ?_⟩
      · apply (mpqPush_again hb hnext hfail hnew hserved.hptr hb₂ hnext₂ hN).trans
        rw [hpush₃]
        exact hpush₄
      · rw [Function.update_of_ne QueueName.noConfusion,
          Function.update_of_ne QueueName.noConfusion, huser₃, hserved.user]

end Push

/-! ## The calls on a queue -/

section Calls

variable {S S' : MpqState} {V V' : QueueName → BlockList} {own own' : ℕ → BlockOwner}
  {v b : ℕ} {B : QueueBlock} {c : BlockList} {vals : List ℕ}

/-- **A push.** -/
theorem push_user (w : MpqWorld) (n : ℕ) (st : Bool) (h : Ready S V own) (hv : v ≠ 0) :
    ∃ S' pos V' own', (mpqCalls w (n + 5)).push S .user v false st = some (S', pos) ∧
      Ready S' V' own' ∧ blockValues (V' .user) = blockValues (V .user) ++ [v] := by
  obtain ⟨S', pos, V₂, c, own', hpush, hready, -, huser, hc⟩ := push_calm w n st h
    (fun _ => QueueName.noConfusion) (fun hq => absurd rfl hq) hv
  refine ⟨S', pos, _, own', hpush, hready, ?_⟩
  rw [Function.update_self, hc, huser]

/-- **The queue gets rid of its first block.** -/
theorem Ready.drop {next : ℕ} (w : MpqWorld) (n : ℕ) (h : Ready S V own)
    (hV : V .user = (b, []) :: c) (hne : c ≠ []) (hb : S.blocks.cell b = some B)
    (hused : B.magic = .used) (hnext : B.next = some next) : ∃ S' V' own',
    S.dropBlock w (mpqCalls w (n + 6)) .user b next false = some S' ∧ Ready S' V' own' ∧
      V' .user = c := by
  obtain ⟨S₁, hinv, hevolves, hhptr, -, hdrop⟩ :=
    h.inv.dropBlock hV hne hb hused hnext w (mpqCalls w (n + 6)) false
  have hready : Ready S₁ (Function.update V .user c) (Function.update own b .loose) :=
    ⟨hinv, fun q => hevolves.opened (h.opened q), (congrFun hhptr 1).trans h.free⟩
  rcases hdrop with hdrop | ⟨small, hoffered, hdrop⟩
  · exact ⟨S₁, _, _, hdrop, hready, Function.update_self _ _ _⟩
  · obtain ⟨S₂, pos, V₂, own₂, hpush, hready₂, huser⟩ :=
      push_garbage w n small hready hoffered (Nat.succ_ne_zero b)
    refine ⟨S₂, V₂, own₂, ?_, hready₂, huser.trans (Function.update_self _ _ _)⟩
    rw [hdrop, hpush]
    rfl

theorem Ready.touch {B' : QueueBlock} (h : Ready S V own) (hV : V .user = (b, []) :: c)
    (hb : S.blocks.cell b = some B) (hsame : Same B B') (hclosed : B'.closed = B.closed)
    (hvals : B'.Contains []) : Ready (S.setBlock b B') V own := by
  obtain ⟨hinv, hevolves⟩ := h.inv.pop_touch hV hb hsame hclosed hvals
  exact ⟨hinv, fun q => hevolves.opened (h.opened q), h.free⟩

/-- The first round of a pop, where there are values. -/
theorem Ready.take (w : MpqWorld) (calls : MpqCalls) (st : Bool) (h : Ready S V own)
    (hV : V .user = (b, v :: vals) :: c) : v ≠ 0 ∧ ∃ S' V',
    S.mpqPop w calls .user false st = some (S', v) ∧ Ready S' V' own ∧
      blockValues (V .user) = v :: blockValues (V' .user) := by
  obtain ⟨hv, B', hpop, hinv, hevolves⟩ := h.inv.pop_take hV w calls false st
  refine ⟨hv, _, _, hpop, Ready.leave hinv (fun q => hevolves.opened (h.opened q))
    (Or.inr h.free), ?_⟩
  rw [Function.update_self, hV]
  rfl

/-- The first of several blocks. -/
theorem MpqInv.filled (h : MpqInv S V own) {q : QueueName} {x : ℕ × List ℕ} (hV : V q = x :: c) :
    FilledBlocks c := by
  have hfull := h.full q
  rwa [hV] at hfull

/-- **A pop.** -/
theorem pop_user (w : MpqWorld) (n : ℕ) (st : Bool) (h : Ready S V own) : ∃ S' v V' own',
    (mpqCalls w (n + 7)).pop S .user false st = some (S', v) ∧ Ready S' V' own' ∧
      (v = 0 ∧ blockValues (V .user) = [] ∧ blockValues (V' .user) = [] ∨
        blockValues (V .user) = v :: blockValues (V' .user)) := by
  obtain ⟨vals, c, B, hV, hb, hvals, hown, hsize, hused⟩ := h.inv.headBlock .user
  cases vals with
  | cons v vals =>
    obtain ⟨-, S', V', hpop, hready, hcons⟩ := h.take w (mpqCalls w (n + 6)) st hV
    exact ⟨S', v, V', own, hpop, hready, Or.inr hcons⟩
  | nil =>
    obtain ⟨B', hpop, hvals', hsame, hclosed⟩ := hvals.pop_nil hsize
    have hS : Ready (S.setHptr 0 (some (S.queues .user).head)) V own :=
      ⟨h.inv.congr rfl rfl, h.opened, h.free⟩
    have hbS := cell_setHptr hb 0 (some (S.queues .user).head)
    have hready₁ := hS.touch hV hbS hsame hclosed hvals'
    have hb₁ := cell_setBlock_self hbS B'
    have hchain := h.inv.chain .user
    rw [hV] at hchain
    by_cases hne : c = []
    · subst hne
      refine ⟨_, 0, V, own, mpqPop_none hb hpop (hsame.next.trans (hchain.single hb)),
        Ready.leave hready₁.inv hready₁.opened (Or.inr hready₁.free), Or.inl ⟨rfl, ?_, ?_⟩⟩
      · rw [hV]
        rfl
      · rw [hV]
        rfl
    · obtain ⟨-, next, hnext, -⟩ := hchain.rest hne hb
      obtain ⟨B'', hpop', hvals'', hsame', hclosed'⟩ := hvals'.pop_nil (hsame.size ▸ hsize)
      have hready₂ := hready₁.touch hV hb₁ hsame' hclosed' hvals''
      obtain ⟨S', V', own', hdrop, hready', huser⟩ := hready₂.drop w n hV hne
        (cell_setBlock_self hb₁ B'') (hsame'.magic.trans (hsame.magic.trans hused))
        (hsame'.next.trans (hsame.next.trans hnext))
      -- the next block has values
      obtain ⟨x, c', rfl⟩ := List.exists_cons_of_ne_nil hne
      obtain ⟨v, vals, hx⟩ := List.exists_cons_of_ne_nil
        (h.inv.filled hV x List.mem_cons_self)
      obtain ⟨-, S'', V'', hpop'', hready'', hcons⟩ :=
        hready'.take w (mpqCalls w (n + 5)) st (b := x.1) (v := v) (c := c') (by rw [huser, ← hx])
      refine ⟨S'', v, V'', own', ?_, hready'', Or.inr ?_⟩
      · apply (mpqPop_drop hb hpop (hsame.next.trans hnext) hpop').trans
        rw [show ((popState S .user false B').setBlock (S.queues .user).head B'').dropBlock w
          (mpqCalls w (n + 6)) .user (S.queues .user).head next false = some S' from hdrop]
        exact hpop''
      · rw [← hcons, huser, hV]
        rfl

/-- The first round of `mpq_is_empty` answers, unless the first of several blocks is empty. -/
theorem Ready.isEmpty_round (w : MpqWorld) (calls : MpqCalls) (h : Ready S V own) :
    (∃ S', S.mpqIsEmpty w calls .user = some (S', decide (blockValues (V .user) = [])) ∧
        Ready S' V own) ∨
      ∃ c B next, V .user = ((S.queues .user).head, []) :: c ∧ c ≠ [] ∧
        S.blocks.cell (S.queues .user).head = some B ∧ B.magic = .used ∧ B.next = some next ∧
        S.mpqIsEmpty w calls .user
          = ((S.setHptr 0 (some (S.queues .user).head)).dropBlock w calls .user
              (S.queues .user).head next false).bind fun S => calls.isEmpty S .user := by
  obtain ⟨vals, c, B, hV, hb, hvals, hown, hsize, hused⟩ := h.inv.headBlock .user
  have hb' := cell_setHptr hb 0 (some (S.queues .user).head)
  have hchain := h.inv.chain .user
  rw [hV] at hchain
  have hvalues : blockValues (V .user) = vals ++ blockValues c := by
    rw [hV]
    exact blockValues_cons _ c
  have hready : ∀ p, Ready ((S.setHptr 0 p).setHptr 0 none) V own := fun _ =>
    ⟨h.inv.congr rfl rfl, h.opened, h.free⟩
  unfold mpqIsEmpty
  simp only [hb', some_bind]
  by_cases hclosed : B.closed = false
  · -- an open block is the last one
    have hc : c = [] := by
      by_contra hne
      exact absurd (hclosed.symm.trans (hchain.rest hne hb).1) (by simp)
    have htail := hvals.opened hclosed
    refine Or.inl ⟨_, ?_, hready (some (S.queues .user).head)⟩
    rw [if_pos hclosed, hvalues, hc, show blockValues [] = [] from rfl, List.append_nil]
    refine congrArg (fun x => some (_, x)) (decide_eq_decide.mpr ?_)
    rw [htail, ← List.length_eq_zero_iff]
    omega
  · rw [Bool.not_eq_false] at hclosed
    -- a closed block is followed by others, and they have values
    have hne : c ≠ [] := by
      intro hc
      subst hc
      obtain ⟨c₀, vals₀, B₀, hc₀, hb₀, -⟩ := hchain.eq_concat
      obtain ⟨B₁, hb₁, hopen⟩ := h.opened .user
      obtain ⟨-, hlast⟩ := List.append_inj' (show [] ++ [((S.queues .user).head, vals)]
        = c₀ ++ [((S.queues .user).tail, vals₀)] from hc₀) rfl
      obtain ⟨htail, -⟩ := Prod.mk.inj (List.singleton_inj.mp hlast)
      rw [← htail] at hb₁
      obtain rfl := Option.some.inj (hb.symm.trans hb₁)
      exact absurd (hopen.symm.trans hclosed) (by simp)
    obtain ⟨-, next, hnext, -⟩ := hchain.rest hne hb
    have hrest : blockValues (V .user) ≠ [] := by
      obtain ⟨x, c', rfl⟩ := List.exists_cons_of_ne_nil hne
      have hx := h.inv.filled hV x List.mem_cons_self
      rw [hvalues, blockValues_cons]
      exact List.append_ne_nil_of_right_ne_nil _ (List.append_ne_nil_of_left_ne_nil hx _)
    rw [if_neg (by rw [hclosed]; simp)]
    by_cases hlt : B.head < B.tail
    · rw [if_pos hlt]
      refine Or.inl ⟨_, ?_, hready (some (S.queues .user).head)⟩
      rw [decide_eq_false hrest]
    · have hempty : vals = [] := by
        by_contra hvne
        have hshut := hvals.shut hclosed hvne
        have hpos := List.length_pos_iff.mpr hvne
        omega
      rw [if_neg hlt]
      simp only [hnext]
      exact Or.inr ⟨c, B, next, hempty ▸ hV, hne, hb, hused, hnext, rfl⟩

/-- **The test for emptiness.** -/
theorem isEmpty_user (w : MpqWorld) (n : ℕ) (h : Ready S V own) : ∃ S' V' own',
    (mpqCalls w (n + 7)).isEmpty S .user
        = some (S', decide (blockValues (V .user) = [])) ∧
      Ready S' V' own' ∧ blockValues (V' .user) = blockValues (V .user) := by
  rcases h.isEmpty_round w (mpqCalls w (n + 6)) with
    ⟨S', hempty, hready⟩ | ⟨c, B, next, hV, hne, hb, hused, hnext, hempty⟩
  · exact ⟨S', V, own, hempty, hready, rfl⟩
  · have hS : Ready (S.setHptr 0 (some (S.queues .user).head)) V own :=
      ⟨h.inv.congr rfl rfl, h.opened, h.free⟩
    obtain ⟨S', V', own', hdrop, hready', huser⟩ := hS.drop w n hV hne hb hused hnext
    have hvalues : blockValues (V' .user) = blockValues (V .user) := by
      rw [huser, hV]
      rfl
    rcases hready'.isEmpty_round w (mpqCalls w (n + 5)) with
      ⟨S'', hempty', hready''⟩ | ⟨c', -, -, hV', -⟩
    · refine ⟨S'', V', own', ?_, hready'', hvalues⟩
      apply hempty.trans
      rw [hdrop, ← hvalues]
      exact hempty'
    · -- the next block has values
      have hfilled := h.inv.filled hV
      rw [← huser, hV'] at hfilled
      exact absurd rfl (hfilled _ List.mem_cons_self)

end Calls

/-! ## Runs -/

/-- The calls on a queue; `store` is `MPQF_STORE_PTR`. -/
inductive QueueOp where
  | push (val : ℕ) (store : Bool)
  | pop (store : Bool)
  | isEmpty

/-- What they return, except for the position of a push in its block. -/
inductive QueueAnswer where
  | pushed
  | popped (v : ℕ)
  | empty (yes : Bool)

/-- One call, with calls nested up to `n` deep. -/
def runOp (w : MpqWorld) (n : ℕ) (S : MpqState) : QueueOp → Option (MpqState × QueueAnswer)
  | .push val store => do
    let (S, _) ← (mpqCalls w n).push S .user val false store
    some (S, .pushed)
  | .pop store => do
    let (S, v) ← (mpqCalls w n).pop S .user false store
    some (S, .popped v)
  | .isEmpty => do
    let (S, yes) ← (mpqCalls w n).isEmpty S .user
    some (S, .empty yes)

/-- A sequence of calls. -/
def runOps (w : MpqWorld) (n : ℕ) : MpqState → List QueueOp → Option (MpqState × List QueueAnswer)
  | S, [] => some (S, [])
  | S, op :: ops => do
    let (S, a) ← runOp w n S op
    let (S, l) ← runOps w n S ops
    some (S, a :: l)

/-- What a queue is: a list, to which values are added at the end and from which they are taken at
the front. -/
def fifoOp : List ℕ → QueueOp → List ℕ × QueueAnswer
  | l, .push val _ => (l ++ [val], .pushed)
  | [], .pop _ => ([], .popped 0)
  | v :: l, .pop _ => (l, .popped v)
  | l, .isEmpty => (l, .empty (decide (l = [])))

/-- What it holds after a sequence of calls. -/
def fifoList (l : List ℕ) (ops : List QueueOp) : List ℕ := ops.foldl (fun l op => (fifoOp l op).1) l

/-- What it answers. -/
def fifoAnswers : List ℕ → List QueueOp → List QueueAnswer
  | _, [] => []
  | l, op :: ops => (fifoOp l op).2 :: fifoAnswers (fifoOp l op).1 ops

/-- The values that were pushed. -/
def pushedValues (ops : List QueueOp) : List ℕ :=
  ops.flatMap fun | .push val _ => [val] | _ => []

/-- The values that were popped; 0 is none. -/
def poppedValues (answers : List QueueAnswer) : List ℕ :=
  answers.flatMap fun | .popped v => if v = 0 then [] else [v] | _ => []

/-- All values that are pushed are other than 0. -/
def NonzeroOps (ops : List QueueOp) : Prop := ∀ val store, .push val store ∈ ops → val ≠ 0

section Fifo

variable {l : List ℕ} {op : QueueOp} {ops : List QueueOp}

theorem NonzeroOps.tail (h : NonzeroOps (op :: ops)) : NonzeroOps ops :=
  fun val store hmem => h val store (List.mem_cons_of_mem _ hmem)

theorem poppedValues_cons (a : QueueAnswer) (answers : List QueueAnswer) :
    poppedValues (a :: answers) = poppedValues [a] ++ poppedValues answers := by
  simp [poppedValues]

theorem pushedValues_cons (op : QueueOp) (ops : List QueueOp) :
    pushedValues (op :: ops) = pushedValues [op] ++ pushedValues ops := by
  simp [pushedValues]

theorem fifoOp_nonzero (hop : ∀ val store, op = .push val store → val ≠ 0) (hl : 0 ∉ l) :
    0 ∉ (fifoOp l op).1 := by
  cases op with
  | push val store =>
    rintro hmem
    rcases List.mem_append.mp hmem with hmem | hmem
    · exact hl hmem
    · exact hop val store rfl (List.mem_singleton.mp hmem).symm
  | pop store =>
    cases l with
    | nil => exact hl
    | cons v l => exact fun hmem => hl (List.mem_cons_of_mem v hmem)
  | isEmpty =>
    cases l with
    | nil => exact hl
    | cons v l => exact hl

/-- One call: what it pops and what is left is what was there and what it pushes. -/
theorem fifoOp_values (hl : 0 ∉ l) :
    poppedValues [(fifoOp l op).2] ++ (fifoOp l op).1 = l ++ pushedValues [op] := by
  cases op with
  | push val store => rfl
  | pop store =>
    cases l with
    | nil => rfl
    | cons v l =>
      have hv : v ≠ 0 := fun hv => hl (hv ▸ List.mem_cons_self)
      show (if v = 0 then [] else [v]) ++ [] ++ l = v :: l ++ []
      rw [if_neg hv, List.append_nil, List.append_nil]
      rfl
  | isEmpty =>
    cases l with
    | nil => rfl
    | cons v l => exact (List.append_nil _).symm

/-- **What was popped and what is left is what was pushed**, in this order. -/
theorem popped_append_fifoList (hl : 0 ∉ l) (hops : NonzeroOps ops) :
    poppedValues (fifoAnswers l ops) ++ fifoList l ops = l ++ pushedValues ops := by
  induction ops generalizing l with
  | nil => exact (List.append_nil l).symm
  | cons op ops ih =>
    have hop : ∀ val store, op = .push val store → val ≠ 0 := fun val store he =>
      hops val store (he ▸ List.mem_cons_self)
    calc poppedValues (fifoAnswers l (op :: ops)) ++ fifoList l (op :: ops)
        = poppedValues [(fifoOp l op).2] ++ (poppedValues (fifoAnswers (fifoOp l op).1 ops)
            ++ fifoList (fifoOp l op).1 ops) := by
          rw [← List.append_assoc, ← poppedValues_cons]
          rfl
      _ = poppedValues [(fifoOp l op).2] ++ ((fifoOp l op).1 ++ pushedValues ops) := by
          rw [ih (fifoOp_nonzero hop hl) hops.tail]
      _ = l ++ (pushedValues [op] ++ pushedValues ops) := by
          rw [← List.append_assoc, fifoOp_values hl, List.append_assoc]
      _ = l ++ pushedValues (op :: ops) := by rw [← pushedValues_cons]

/-- A call that answers that there is nothing finds nothing. -/
theorem fifoOp_nothing (hl : 0 ∉ l)
    (ha : (fifoOp l op).2 = .popped 0 ∨ (fifoOp l op).2 = .empty true) : l = [] := by
  cases l with
  | nil => rfl
  | cons v l =>
    exfalso
    cases op with
    | push val store => rcases ha with ha | ha <;> exact QueueAnswer.noConfusion ha
    | pop store =>
      rcases ha with ha | ha
      · exact hl (QueueAnswer.popped.inj ha ▸ List.mem_cons_self)
      · exact QueueAnswer.noConfusion ha
    | isEmpty =>
      rcases ha with ha | ha
      · exact QueueAnswer.noConfusion ha
      · exact absurd (QueueAnswer.empty.inj ha) (by simp)

/-- **An answer that there is nothing is true.** -/
theorem fifoAnswers_nothing {i : ℕ} (hl : 0 ∉ l) (hops : NonzeroOps ops)
    (ha : (fifoAnswers l ops)[i]? = some (.popped 0) ∨
      (fifoAnswers l ops)[i]? = some (.empty true)) : fifoList l (ops.take i) = [] := by
  induction ops generalizing l i with
  | nil => simp [fifoAnswers] at ha
  | cons op ops ih =>
    have hop : ∀ val store, op = .push val store → val ≠ 0 := fun val store he =>
      hops val store (he ▸ List.mem_cons_self)
    cases i with
    | zero => exact fifoOp_nothing hl (ha.imp Option.some.inj Option.some.inj)
    | succ i => exact ih (fifoOp_nonzero hop hl) hops.tail ha

end Fifo

/-! ### The code -/

section Run

variable {S : MpqState} {V : QueueName → BlockList} {own : ℕ → BlockOwner}

/-- **A call answers as a list does.** -/
theorem runOp_spec (w : MpqWorld) (n : ℕ) (op : QueueOp) (h : Ready S V own)
    (hop : ∀ val store, op = .push val store → val ≠ 0) : ∃ S' V' own',
    runOp w (n + 7) S op = some (S', (fifoOp (blockValues (V .user)) op).2) ∧ Ready S' V' own' ∧
      blockValues (V' .user) = (fifoOp (blockValues (V .user)) op).1 := by
  unfold runOp
  cases op with
  | push val store =>
    obtain ⟨S', pos, V', own', hpush, hready, hvalues⟩ :=
      push_user w (n + 2) store h (hop val store rfl)
    refine ⟨S', V', own', ?_, hready, hvalues⟩
    simp only [hpush, some_bind]
    rfl
  | pop store =>
    obtain ⟨S', v, V', own', hpop, hready, hcase⟩ := pop_user w n store h
    refine ⟨S', V', own', ?_, hready, ?_⟩
    · simp only [hpop, some_bind]
      rcases hcase with ⟨rfl, hnil, -⟩ | hcons
      · rw [hnil]
        rfl
      · rw [hcons]
        rfl
    · rcases hcase with ⟨rfl, hnil, hnil'⟩ | hcons
      · rw [hnil, hnil']
        rfl
      · rw [hcons]
        rfl
  | isEmpty =>
    obtain ⟨S', V', own', hempty, hready, hvalues⟩ := isEmpty_user w n h
    have hop : fifoOp (blockValues (V .user)) .isEmpty
        = (blockValues (V .user), .empty (decide (blockValues (V .user) = []))) := by
      cases blockValues (V .user) <;> rfl
    refine ⟨S', V', own', ?_, hready, ?_⟩
    · simp only [hempty, some_bind]
      rw [hop]
    · rw [hop, hvalues]

/-- **Every run answers as a list does**, from any state in which no call is under way. -/
theorem runOps_spec (w : MpqWorld) (n : ℕ) (ops : List QueueOp) (h : Ready S V own)
    (hops : NonzeroOps ops) : ∃ S' V' own',
    runOps w (n + 7) S ops = some (S', fifoAnswers (blockValues (V .user)) ops) ∧
      Ready S' V' own' ∧ blockValues (V' .user) = fifoList (blockValues (V .user)) ops := by
  induction ops generalizing S V own with
  | nil => exact ⟨S, V, own, rfl, h, rfl⟩
  | cons op ops ih =>
    obtain ⟨S₁, V₁, own₁, hop, hready₁, hvalues₁⟩ := runOp_spec w n op h
      (fun val store he => hops val store (he ▸ List.mem_cons_self))
    obtain ⟨S', V', own', hrun, hready', hvalues'⟩ := ih hready₁ hops.tail
    rw [hvalues₁] at hrun hvalues'
    refine ⟨S', V', own', ?_, hready', hvalues'⟩
    unfold runOps
    simp only [hop, hrun, some_bind]
    rfl

/-! ### The first state -/

/-- The number of the first block of a queue, in the order in which they are made. -/
def firstBlock : QueueName → ℕ
  | .user => 0
  | .garbage false => 1
  | .prepared false => 2
  | .prepared true => 3
  | .garbage true => 4

/-- The queue to which the block with this number belongs then. -/
def firstQueue : ℕ → QueueName
  | 0 => .user
  | 1 => .garbage false
  | 2 => .prepared false
  | 3 => .prepared true
  | _ => .garbage true

theorem firstQueue_firstBlock (q : QueueName) : firstQueue (firstBlock q) = q := by
  cases q with
  | user => rfl
  | garbage small => cases small <;> rfl
  | prepared small => cases small <;> rfl

theorem firstBlock_lt (q : QueueName) : firstBlock q < 5 := by
  cases q with
  | user => decide
  | garbage small => cases small <;> decide
  | prepared small => cases small <;> decide

/-- A block of a queue that was never used. -/
structure Blank (N : QueueBlock) : Prop extends Sane N where
  magic : N.magic = .used
  next : N.next = none
  opened : N.closed = false
  vals : N.Contains []

/-- The first `n` queues are initialized. -/
structure Started (n : ℕ) (S : MpqState) : Prop where
  size : S.blocks.size = n
  free : S.hptr 1 = none
  queues : ∀ q, firstBlock q < n → S.queues q = ⟨firstBlock q, firstBlock q⟩
  blank : ∀ b, b < n → ∃ N, S.blocks.cell b = some N ∧ Blank N

/-- A queue is initialized with an empty block. -/
theorem initMpQueue_spec (w : MpqWorld) (S : MpqState) (q : QueueName) : ∃ N,
    initMpQueue w S q = some ((({ S with blocks := S.blocks.alloc N } : MpqState).setHead q
      S.blocks.size).setTail q S.blocks.size) ∧ Blank N := by
  have halign := w.aligned S.blocks.size
  have hvals := init_contains ((64 - w.malloc S.blocks.size % 64) % 64)
    0 (by decide : 0 < mpqBlockSize true)
    (fun i _ => (rfl : freshNodes i = freshNodes i))
  refine ⟨_, ?_, ⟨⟨mpqBlockSize_cases true, ?_⟩, rfl, rfl, rfl, hvals⟩⟩
  · unfold initMpQueue allocMpqBlock mallocBlock
    simp only [Bool.false_eq_true, if_false, halign, guard_true, Option.bind_eq_bind]
    rfl
  · show (64 - w.malloc S.blocks.size % 64) % 64 < 64 ∧
      (64 - w.malloc S.blocks.size % 64) % 64 % 8 = 0
    omega

theorem Started.init (w : MpqWorld) (q : QueueName) (h : Started (firstBlock q) S) :
    ∃ S', initMpQueue w S q = some S' ∧ Started (firstBlock q + 1) S' := by
  obtain ⟨N, hinit, hblank⟩ := initMpQueue_spec w S q
  rw [h.size] at hinit
  refine ⟨_, hinit, congrArg (· + 1) h.size, h.free, ?_, ?_⟩
  · intro p hp
    unfold setTail setHead
    by_cases hpq : p = q
    · subst hpq
      simp only [Function.update_self]
    · simp only [Function.update_of_ne hpq]
      refine h.queues p (lt_of_le_of_ne (Nat.le_of_lt_succ hp) ?_)
      intro he
      exact hpq (by rw [← firstQueue_firstBlock p, he, firstQueue_firstBlock])
  · intro b hb
    by_cases hbq : b = firstBlock q
    · exact ⟨N, (Store.cell_alloc N b).trans (if_pos (hbq.trans h.size.symm)), hblank⟩
    · obtain ⟨A, hA, hblank⟩ := h.blank b (by omega)
      exact ⟨A, Store.cell_alloc_of_some hA, hblank⟩

/-- **All queues are ready.** -/
theorem Started.ready (h : Started 5 S) : ∃ V own, Ready S V own ∧ blockValues (V .user) = [] := by
  have hqueue : ∀ q, S.queues q = ⟨firstBlock q, firstBlock q⟩ := fun q =>
    h.queues q (firstBlock_lt q)
  refine ⟨fun q => [(firstBlock q, [])], fun b => if b < 5 then .chain (firstQueue b) else .loose,
    ⟨⟨?_, ?_, ?_, ?_, ?_, ?_, ?_, ?_⟩, ?_, h.free⟩, rfl⟩
  · intro b B hb
    obtain ⟨N, hN, hblank⟩ := h.blank b (h.size ▸ Store.lt_size hb)
    exact Option.some.inj (hN.symm.trans hb) ▸ hblank.toSane
  · intro b hb
    refine if_neg (fun hlt => ?_)
    obtain ⟨N, hN, -⟩ := h.blank b hlt
    exact absurd (hb.symm.trans hN) (by simp)
  · intro q
    obtain ⟨N, hN, hblank⟩ := h.blank (firstBlock q) (firstBlock_lt q)
    rw [hqueue q]
    exact .last hN hblank.magic hblank.vals hblank.next
  · exact fun q => List.nodup_singleton _
  · exact fun q x hx => absurd hx List.not_mem_nil
  · intro q x hx
    rw [List.mem_singleton.mp hx]
    show (if firstBlock q < 5 then _ else _) = _
    rw [if_pos (firstBlock_lt q), firstQueue_firstBlock]
  · exact fun q v hv => absurd hv List.not_mem_nil
  · exact fun q _ => List.nodup_nil
  · intro q
    obtain ⟨N, hN, hblank⟩ := h.blank (firstBlock q) (firstBlock_lt q)
    refine ⟨N, ?_, hblank.opened⟩
    rw [hqueue q]
    exact hN

/-- The first state. -/
theorem startMpq_ready (w : MpqWorld) : ∃ S V own, startMpq w = some S ∧ Ready S V own ∧
    blockValues (V .user) = [] := by
  have h₀ : Started (firstBlock .user) .zero :=
    ⟨rfl, rfl, fun q hq => absurd hq (Nat.not_lt_zero _), fun b hb => absurd hb (Nat.not_lt_zero b)⟩
  obtain ⟨S₁, h₁, hstarted₁⟩ := h₀.init w .user
  obtain ⟨S₂, h₂, hstarted₂⟩ := Started.init w (.garbage false) hstarted₁
  obtain ⟨S₃, h₃, hstarted₃⟩ := Started.init w (.prepared false) hstarted₂
  obtain ⟨S₄, h₄, hstarted₄⟩ := Started.init w (.prepared true) hstarted₃
  obtain ⟨S₅, h₅, hstarted₅⟩ := Started.init w (.garbage true) hstarted₄
  obtain ⟨V, own, hready, hvalues⟩ := Started.ready hstarted₅
  refine ⟨S₅, V, own, ?_, hready, hvalues⟩
  unfold startMpq
  simp only [List.foldlM_cons, List.foldlM_nil, h₁, h₂, h₃, h₄, h₅, some_bind]
  rfl

end Run

/-- **The unbounded queue is a queue.**  Every sequence of calls that pushes no 0 runs, whatever the
rest of the program does, and is answered as by a list: the values that are popped are those
that were pushed, in this order, as long as they are not left, and a call that answers that
there is nothing finds nothing. -/
theorem mpq_fifo (w : MpqWorld) (n : ℕ) (ops : List QueueOp) (hops : NonzeroOps ops) :
    ∃ S₀ S answers, startMpq w = some S₀ ∧ runOps w (n + 7) S₀ ops = some (S, answers) ∧
      answers = fifoAnswers [] ops ∧
      poppedValues answers ++ fifoList [] ops = pushedValues ops ∧
      ∀ i, (answers[i]? = some (.popped 0) ∨ answers[i]? = some (.empty true)) →
        fifoList [] (ops.take i) = [] := by
  obtain ⟨S₀, V, own, hstart, hready, hvalues⟩ := startMpq_ready w
  obtain ⟨S, -, -, hrun, -⟩ := runOps_spec w n ops hready hops
  rw [hvalues] at hrun
  exact ⟨S₀, S, _, hstart, hrun, rfl, popped_append_fifoList List.not_mem_nil hops,
    fun i => fifoAnswers_nothing List.not_mem_nil hops⟩

theorem aligned_of_mul (b : ℕ) : 64 * b % 8 = 0 := by omega

/-- A hundred values are pushed, more than fit into the first block, and popped. -/
def hundredOps : List QueueOp :=
  (List.range' 1 100).map (fun v => .push v false) ++ List.replicate 101 (.pop false)

set_option maxRecDepth 4000 in
/-- They come in order, where every block that is dropped becomes garbage. -/
theorem mpq_fifo_hundred : ∃ S₀ S,
    startMpq ⟨fun _ _ => true, fun b => 64 * b, aligned_of_mul⟩ = some S₀ ∧
    runOps ⟨fun _ _ => true, fun b => 64 * b, aligned_of_mul⟩ 7 S₀ hundredOps = some (S,
      List.replicate 100 .pushed ++ (List.range' 1 100).map .popped ++ [.popped 0]) := by
  have hops : NonzeroOps hundredOps := by
    intro val store hmem
    simp [hundredOps] at hmem
    omega
  obtain ⟨S₀, S, answers, hstart, hrun, hanswers, -⟩ :=
    mpq_fifo ⟨fun _ _ => true, fun b => 64 * b, aligned_of_mul⟩ 0 _ hops
  have hlist : fifoAnswers [] hundredOps
      = List.replicate 100 .pushed ++ (List.range' 1 100).map .popped ++ [.popped 0] := rfl
  rw [hanswers, hlist] at hrun
  exact ⟨S₀, S, hstart, hrun⟩

end MtprotoProxy
