/-
# What the unbounded queue preserves

`MpqInv S V own` says that the queues of the state `S` are lists of blocks with the values `V`.
Only the first block of a queue may be empty, and all blocks but the last one are closed.  A garbage
block or a prepared block is a value in one queue, and once; `own` says of each block to which queue
it belongs, as a part of it or as a value, or that it is loose, in the hands of a running call.

The lemmas say what each change of one queue does to it.
-/
import MtprotoProxy.MpQueue

namespace MtprotoProxy

open QueueBlock MpqState

/-! ## Lists of blocks -/

/-- The blocks of a queue, each with the values that it contains. -/
abbrev BlockList := List (ℕ × List ℕ)

/-- The values of a queue. -/
def blockValues (c : BlockList) : List ℕ := c.flatMap Prod.snd

/-- Used blocks from `h` to `t`.  All but the last one are closed. -/
inductive BlockChain (blocks : Store QueueBlock) : ℕ → ℕ → BlockList → Prop
  | last {b : ℕ} {B : QueueBlock} {vals : List ℕ} (hb : blocks.cell b = some B)
      (hused : B.magic = .used) (hvals : B.Contains vals) (hnext : B.next = none) :
      BlockChain blocks b b [(b, vals)]
  | link {b b' t : ℕ} {B : QueueBlock} {vals : List ℕ} {c : BlockList}
      (hb : blocks.cell b = some B) (hused : B.magic = .used) (hvals : B.Contains vals)
      (hclosed : B.closed = true) (hnext : B.next = some b') (hrest : BlockChain blocks b' t c) :
      BlockChain blocks b t ((b, vals) :: c)

namespace BlockChain

variable {blocks blocks' : Store QueueBlock} {h t t' : ℕ} {c c₀ c₁ c₂ : BlockList} {x : ℕ × List ℕ}

theorem cell (hc : BlockChain blocks h t c) (hx : x ∈ c) :
    ∃ B, blocks.cell x.1 = some B ∧ B.magic = .used ∧ B.Contains x.2 := by
  induction hc with
  | last hb hused hvals _ =>
    obtain rfl := List.mem_singleton.mp hx
    exact ⟨_, hb, hused, hvals⟩
  | link hb hused hvals _ _ _ ih =>
    rcases List.mem_cons.mp hx with rfl | hx
    · exact ⟨_, hb, hused, hvals⟩
    · exact ih hx

/-- Only the blocks of the list matter. -/
theorem frame (hc : BlockChain blocks h t c)
    (hcells : ∀ x ∈ c, blocks'.cell x.1 = blocks.cell x.1) : BlockChain blocks' h t c := by
  induction hc with
  | last hb hused hvals hnext =>
    exact .last ((hcells _ List.mem_cons_self).trans hb) hused hvals hnext
  | link hb hused hvals hclosed hnext _ ih =>
    exact .link ((hcells _ List.mem_cons_self).trans hb) hused hvals hclosed hnext
      (ih (fun x hx => hcells x (List.mem_cons_of_mem _ hx)))

theorem eq_cons (hc : BlockChain blocks h t c) : ∃ vals rest, c = (h, vals) :: rest := by
  cases hc with
  | last => exact ⟨_, _, rfl⟩
  | link => exact ⟨_, _, rfl⟩

/-- The last block. -/
theorem eq_concat (hc : BlockChain blocks h t c) : ∃ c₀ vals B, c = c₀ ++ [(t, vals)] ∧
    blocks.cell t = some B ∧ B.magic = .used ∧ B.Contains vals ∧ B.next = none := by
  induction hc with
  | last hb hused hvals hnext => exact ⟨[], _, _, rfl, hb, hused, hvals, hnext⟩
  | link _ _ _ _ _ _ ih =>
    obtain ⟨c₀, vals, B, rfl, hB⟩ := ih
    exact ⟨_ :: c₀, vals, B, rfl, hB⟩

/-- **The blocks from one on are replaced.** -/
theorem replace (hc : BlockChain blocks h t (c₀ ++ x :: c₁))
    (hcells : ∀ y ∈ c₀, blocks'.cell y.1 = blocks.cell y.1) (hnew : BlockChain blocks' x.1 t' c₂) :
    BlockChain blocks' h t' (c₀ ++ c₂) := by
  induction c₀ generalizing h with
  | nil =>
    obtain ⟨vals, rest, heq⟩ := hc.eq_cons
    obtain ⟨rfl, rfl⟩ := List.cons.inj heq
    exact hnew
  | cons y c₀ ih =>
    generalize hl : y :: c₀ ++ x :: c₁ = l at hc
    cases hc with
    | last => exact absurd (List.cons.inj hl).2 (by simp)
    | link hb hused hvals hclosed hnext hrest =>
      obtain ⟨rfl, rfl⟩ := List.cons.inj hl
      exact .link ((hcells _ List.mem_cons_self).trans hb) hused hvals hclosed hnext
        (ih hrest (fun z hz => hcells z (List.mem_cons_of_mem _ hz)))

/-- The blocks from one on. -/
theorem suffix (hc : BlockChain blocks h t (c₀ ++ x :: c₁)) :
    BlockChain blocks x.1 t (x :: c₁) := by
  induction c₀ generalizing h with
  | nil =>
    obtain ⟨vals, rest, heq⟩ := hc.eq_cons
    obtain ⟨rfl, rfl⟩ := List.cons.inj heq
    exact hc
  | cons y c₀ ih =>
    generalize hl : y :: c₀ ++ x :: c₁ = l at hc
    cases hc with
    | last => exact absurd (List.cons.inj hl).2 (by simp)
    | link _ _ _ _ _ hrest =>
      obtain ⟨rfl, rfl⟩ := List.cons.inj hl
      exact ih hrest

/-- A block that others follow. -/
theorem rest {B : QueueBlock} (hc : BlockChain blocks h t (x :: c)) (hne : c ≠ [])
    (hb : blocks.cell x.1 = some B) :
    B.closed = true ∧ ∃ b', B.next = some b' ∧ BlockChain blocks b' t c := by
  generalize hl : x :: c = l at hc
  cases hc with
  | last => exact absurd (List.cons.inj hl).2 hne
  | link hcell _ _ hclosed hnext hrest =>
    obtain ⟨rfl, rfl⟩ := List.cons.inj hl
    obtain rfl := Option.some.inj (hb.symm.trans hcell)
    exact ⟨hclosed, _, hnext, hrest⟩

/-- A block that none follows. -/
theorem single {B : QueueBlock} (hc : BlockChain blocks h t [x]) (hb : blocks.cell x.1 = some B) :
    B.next = none := by
  cases hc with
  | last hcell _ _ hnext =>
    obtain rfl := Option.some.inj (hb.symm.trans hcell)
    exact hnext
  | link _ _ _ _ _ hrest =>
    obtain ⟨vals, rest, heq⟩ := hrest.eq_cons
    exact absurd heq (by simp)

/-- **One block gets other contents.** -/
theorem refill {b : ℕ} {B B' : QueueBlock} {vals vals' : List ℕ}
    (hc : BlockChain blocks h t (c₀ ++ (b, vals) :: c₁))
    (hnodup : ((c₀ ++ (b, vals) :: c₁).map Prod.fst).Nodup) (hb : blocks.cell b = some B)
    (hb' : blocks'.cell b = some B') (hother : ∀ a, a ≠ b → blocks'.cell a = blocks.cell a)
    (hsame : Same B B') (hclosed : B.closed = true → B'.closed = true)
    (hvals : B'.Contains vals') : BlockChain blocks' h t (c₀ ++ (b, vals') :: c₁) := by
  rw [List.map_append, List.map_cons, List.nodup_append, List.nodup_cons] at hnodup
  obtain ⟨-, ⟨hc₁, -⟩, hc₀⟩ := hnodup
  refine hc.replace (fun y hy => hother y.1 ?_) ?_
  · exact hc₀ y.1 (List.mem_map_of_mem hy) b List.mem_cons_self
  · have hsuffix := hc.suffix
    generalize hl : (b, vals) :: c₁ = l at hsuffix
    cases hsuffix with
    | last hcell hused _ hnext =>
      obtain ⟨-, rfl⟩ := List.cons.inj hl
      obtain rfl := Option.some.inj (hb.symm.trans hcell)
      exact .last hb' (hsame.magic.trans hused) hvals (hsame.next.trans hnext)
    | link hcell hused _ hclosed' hnext hrest =>
      obtain ⟨-, rfl⟩ := List.cons.inj hl
      obtain rfl := Option.some.inj (hb.symm.trans hcell)
      refine .link hb' (hsame.magic.trans hused) hvals (hclosed hclosed')
        (hsame.next.trans hnext) (hrest.frame (fun y hy => hother y.1 ?_))
      rintro rfl
      exact hc₁ (List.mem_map.mpr ⟨y, hy, rfl⟩)

end BlockChain

/-! ## The invariant -/

/-- To whom a block belongs: it is a part of a queue, or a value in it, or nobody's. -/
inductive BlockOwner where
  | chain (q : QueueName)
  | stock (q : QueueName)
  | loose

/-- A block that may be a value of the queue. -/
def StockBlock : QueueName → QueueBlock → Prop
  | .user, _ => True
  | .garbage small, B => B.magic = .garbage ∧ B.size = mpqBlockSize small
  | .prepared small, B =>
    B.magic = .prepared ∧ B.size = mpqBlockSize small ∧ ∀ i, 0 < i → B.nodes i = freshNodes i

/-- A value that stands in the queue. -/
def Fits (blocks : Store QueueBlock) (own : ℕ → BlockOwner) (q : QueueName) (v : ℕ) : Prop :=
  q ≠ .user → ∃ b B, v = mpqBlockPtr b ∧ own b = .stock q ∧ blocks.cell b = some B ∧ StockBlock q B

/-- The size and the alignment of a block are as `malloc` left them. -/
structure Sane (B : QueueBlock) : Prop where
  size : B.size = 64 ∨ B.size = 4096
  align : B.alignBytes < 64 ∧ B.alignBytes % 8 = 0

theorem Sane.size_pos {B : QueueBlock} (h : Sane B) : 0 < B.size := by
  rcases h.size with h | h <;> omega

theorem Sane.same {B B' : QueueBlock} (h : Sane B) (hsame : Same B B') : Sane B' :=
  ⟨hsame.size ▸ h.size, hsame.alignBytes ▸ h.align⟩

/-- **The invariant** of the queues. -/
structure MpqInv (S : MpqState) (V : QueueName → BlockList) (own : ℕ → BlockOwner) : Prop where
  sane : ∀ b B, S.blocks.cell b = some B → Sane B
  unused : ∀ b, S.blocks.cell b = none → own b = .loose
  chain : ∀ q, BlockChain S.blocks (S.queues q).head (S.queues q).tail (V q)
  nodup : ∀ q, ((V q).map Prod.fst).Nodup
  full : ∀ q, ∀ x ∈ (V q).tail, x.2 ≠ []
  owned : ∀ q, ∀ x ∈ V q, own x.1 = .chain q
  fits : ∀ q, ∀ v ∈ blockValues (V q), Fits S.blocks own q v
  distinct : ∀ q, q ≠ .user → (blockValues (V q)).Nodup

/-- Nothing changes but the queue, its own blocks and loose ones. -/
structure OnlyQueue (q : QueueName) (S : MpqState) (own : ℕ → BlockOwner) (S' : MpqState)
    (own' : ℕ → BlockOwner) : Prop where
  queues : ∀ r, r ≠ q → S'.queues r = S.queues r
  keep : ∀ b, own b ≠ .chain q → own b ≠ .loose →
    S'.blocks.cell b = S.blocks.cell b ∧ own' b = own b

section Changes

variable {S S' : MpqState} {V : QueueName → BlockList} {own own' : ℕ → BlockOwner} {q : QueueName}
  {c : BlockList} {b v : ℕ} {B : QueueBlock}

theorem Fits.keep (h : Fits S.blocks own q v)
    (hkeep : ∀ b, own b = .stock q → S'.blocks.cell b = S.blocks.cell b ∧ own' b = own b) :
    Fits S'.blocks own' q v := by
  intro hq
  obtain ⟨b, B, hv, hown, hb, hstock⟩ := h hq
  obtain ⟨hcell, hsame⟩ := hkeep b hown
  exact ⟨b, B, hv, hsame.trans hown, hcell.trans hb, hstock⟩

/-- The hazard pointers do not matter. -/
theorem MpqInv.congr (h : MpqInv S V own) (hblocks : S'.blocks = S.blocks)
    (hqueues : S'.queues = S.queues) : MpqInv S' V own := by
  obtain ⟨blocks, queues, hptr, checks⟩ := S
  obtain ⟨blocks', queues', hptr', checks'⟩ := S'
  obtain rfl : blocks' = blocks := hblocks
  obtain rfl : queues' = queues := hqueues
  exact ⟨h.sane, h.unused, h.chain, h.nodup, h.full, h.owned, h.fits, h.distinct⟩

/-- **One queue changes.** -/
theorem MpqInv.change (h : MpqInv S V own) (honly : OnlyQueue q S own S' own')
    (hsane : ∀ b B, S'.blocks.cell b = some B → Sane B)
    (hunused : ∀ b, S'.blocks.cell b = none → own' b = .loose)
    (hchain : BlockChain S'.blocks (S'.queues q).head (S'.queues q).tail c)
    (hnodup : (c.map Prod.fst).Nodup) (hfull : ∀ x ∈ c.tail, x.2 ≠ [])
    (howned : ∀ x ∈ c, own' x.1 = .chain q)
    (hfits : ∀ v ∈ blockValues c, Fits S'.blocks own' q v)
    (hdistinct : q ≠ .user → (blockValues c).Nodup) :
    MpqInv S' (Function.update V q c) own' := by
  have hother : ∀ {r : QueueName}, r ≠ q → ∀ x ∈ V r,
      S'.blocks.cell x.1 = S.blocks.cell x.1 ∧ own' x.1 = own x.1 := by
    intro r hr x hx
    have hown := h.owned r x hx
    refine honly.keep x.1 ?_ ?_
    · rw [hown]
      exact fun he => hr (BlockOwner.chain.inj he)
    · rw [hown]
      exact BlockOwner.noConfusion
  refine ⟨hsane, hunused, ?_, ?_, ?_, ?_, ?_, ?_⟩
  · intro r
    by_cases hr : r = q
    · subst hr
      rw [Function.update_self]
      exact hchain
    · rw [Function.update_of_ne hr, honly.queues r hr]
      exact (h.chain r).frame (fun x hx => (hother hr x hx).1)
  · intro r
    by_cases hr : r = q
    · subst hr
      rw [Function.update_self]
      exact hnodup
    · rw [Function.update_of_ne hr]
      exact h.nodup r
  · intro r
    by_cases hr : r = q
    · subst hr
      rw [Function.update_self]
      exact hfull
    · rw [Function.update_of_ne hr]
      exact h.full r
  · intro r
    by_cases hr : r = q
    · subst hr
      rw [Function.update_self]
      exact howned
    · rw [Function.update_of_ne hr]
      exact fun x hx => (hother hr x hx).2.trans (h.owned r x hx)
  · intro r
    by_cases hr : r = q
    · subst hr
      rw [Function.update_self]
      exact hfits
    · rw [Function.update_of_ne hr]
      intro v hv
      refine (h.fits r v hv).keep (fun b hb => honly.keep b ?_ ?_)
      · rw [hb]
        exact BlockOwner.noConfusion
      · rw [hb]
        exact BlockOwner.noConfusion
  · intro r hr'
    by_cases hr : r = q
    · subst hr
      rw [Function.update_self]
      exact hdistinct hr'
    · rw [Function.update_of_ne hr]
      exact h.distinct r hr'

/-- Loose blocks change. -/
theorem MpqInv.loose (h : MpqInv S V own) (hqueues : S'.queues = S.queues)
    (hsane : ∀ b B, S'.blocks.cell b = some B → Sane B)
    (hkeep : ∀ b, own b ≠ .loose → S'.blocks.cell b = S.blocks.cell b) : MpqInv S' V own := by
  have honly : OnlyQueue .user S own S' own :=
    ⟨fun r _ => congrFun hqueues r, fun b _ hb => ⟨hkeep b hb, rfl⟩⟩
  have hchange := @MpqInv.change S S' V own own .user (V .user) h honly hsane ?_ ?_ (h.nodup _)
    (h.full _) (h.owned _) (fun v _ hne => absurd rfl hne) (fun hne => absurd rfl hne)
  · rwa [Function.update_eq_self] at hchange
  · intro b hb
    by_contra hne
    rw [hkeep b hne] at hb
    exact hne (h.unused b hb)
  · rw [hqueues]
    refine (h.chain .user).frame (fun x hx => hkeep x.1 ?_)
    rw [h.owned .user x hx]
    exact BlockOwner.noConfusion

/-- A block that was a value becomes loose once it is one no more. -/
theorem MpqInv.release (h : MpqInv S V own) (hq : q ≠ .user) (hb : own b = .stock q)
    (hgone : mpqBlockPtr b ∉ blockValues (V q)) :
    MpqInv S V (Function.update own b .loose) := by
  refine ⟨h.sane, ?_, h.chain, h.nodup, h.full, ?_, ?_, h.distinct⟩
  · intro a ha
    by_cases hab : a = b
    · rw [hab, Function.update_self]
    · rw [Function.update_of_ne hab]
      exact h.unused a ha
  · intro r x hx
    have hown := h.owned r x hx
    have hne : x.1 ≠ b := by
      rintro he
      rw [he, hb] at hown
      exact BlockOwner.noConfusion hown
    rw [Function.update_of_ne hne]
    exact hown
  · intro r v hv hr
    obtain ⟨a, A, rfl, ha, hA, hstock⟩ := h.fits r v hv hr
    have hne : a ≠ b := by
      rintro rfl
      obtain rfl := BlockOwner.stock.inj (ha.symm.trans hb)
      exact hgone hv
    exact ⟨a, A, rfl, by rw [Function.update_of_ne hne, ha], hA, hstock⟩

theorem cell_setHptr (hb : S.blocks.cell b = some B) (i : Fin 3) (p : Option ℕ) :
    (S.setHptr i p).blocks.cell b = some B := hb

theorem cell_setBlock (hb : S.blocks.cell b = some B) (B' : QueueBlock) (a : ℕ) :
    (S.setBlock b B').blocks.cell a = if a = b then some B' else S.blocks.cell a :=
  Store.cell_put hb _ a

theorem cell_setBlock_self (hb : S.blocks.cell b = some B) (B' : QueueBlock) :
    (S.setBlock b B').blocks.cell b = some B' := (cell_setBlock hb B' b).trans (if_pos rfl)

theorem cell_setBlock_ne {a : ℕ} (hab : a ≠ b) (B' : QueueBlock) :
    (S.setBlock b B').blocks.cell a = S.blocks.cell a := Store.cell_put_ne hab _

/-- A loose block is replaced by a sane one. -/
theorem MpqInv.setLoose (h : MpqInv S V own) (hb : S.blocks.cell b = some B)
    (hloose : own b = .loose) {B' : QueueBlock} (hsane : Sane B') :
    MpqInv (S.setBlock b B') V own := by
  refine h.loose rfl ?_ ?_
  · intro a A ha
    rw [cell_setBlock hb] at ha
    split at ha
    · rw [← Option.some.inj ha]
      exact hsane
    · exact h.sane a A ha
  · intro a ha
    refine cell_setBlock_ne ?_ _
    rintro rfl
    exact ha hloose

/-! ### Changes of one queue -/

theorem blockValues_append (c c' : BlockList) :
    blockValues (c ++ c') = blockValues c ++ blockValues c' := List.flatMap_append

theorem blockValues_cons (x : ℕ × List ℕ) (c : BlockList) :
    blockValues (x :: c) = x.2 ++ blockValues c := List.flatMap_cons

@[simp] theorem mpqBlockOf_ptr (b : ℕ) : mpqBlockOf (mpqBlockPtr b) = b := Nat.add_sub_cancel b 1

/-- Only the block `b` of the queue changes. -/
theorem OnlyQueue.setBlock (hb : own b = .chain q) (B' : QueueBlock)
    (hown : ∀ a, own a ≠ .loose → own' a = own a) : OnlyQueue q S own (S.setBlock b B') own' := by
  refine ⟨fun _ _ => rfl, fun a ha hloose => ⟨cell_setBlock_ne ?_ _, hown a hloose⟩⟩
  rintro rfl
  exact ha hb

/-- **One block of a queue gets other contents.** -/
theorem MpqInv.refill {B' : QueueBlock} {vals vals' : List ℕ} {c₀ c₁ : BlockList}
    (h : MpqInv S V own) (hV : V q = c₀ ++ (b, vals) :: c₁) (hb : S.blocks.cell b = some B)
    (hsame : Same B B') (hclosed : B.closed = true → B'.closed = true) (hvals : B'.Contains vals')
    (hfull : c₀ ≠ [] → vals' ≠ []) (hunused : ∀ a, S.blocks.cell a = none → own' a = .loose)
    (hown : ∀ a, own a ≠ .loose → own' a = own a)
    (hfits : ∀ v ∈ vals', v ∈ vals ∨ Fits S.blocks own' q v)
    (hdistinct : q ≠ .user → (blockValues (c₀ ++ (b, vals') :: c₁)).Nodup) :
    MpqInv (S.setBlock b B') (Function.update V q (c₀ ++ (b, vals') :: c₁)) own' := by
  have hnodup := h.nodup q
  have hchain := h.chain q
  have hfullq := h.full q
  have howned := h.owned q
  have hfitsq := h.fits q
  rw [hV] at hnodup hchain hfullq howned hfitsq
  have hownb : own b = .chain q := howned (b, vals) (by simp)
  -- a value in a block of its own stays what it is
  have hkeep : ∀ v, Fits S.blocks own' q v → Fits (S.setBlock b B').blocks own' q v := by
    refine fun v hv => hv.keep (fun a ha => ⟨cell_setBlock_ne ?_ _, rfl⟩)
    rintro rfl
    rw [hown a (by rw [hownb]; exact BlockOwner.noConfusion), hownb] at ha
    exact BlockOwner.noConfusion ha
  have hold : ∀ v ∈ blockValues (V q), Fits S.blocks own' q v := by
    refine fun v hv => (h.fits q v hv).keep (fun a ha => ⟨rfl, hown a ?_⟩)
    rw [ha]
    exact BlockOwner.noConfusion
  rw [hV] at hold
  refine h.change (OnlyQueue.setBlock hownb B' hown) ?_ ?_ ?_ ?_ ?_ ?_ ?_ hdistinct
  · intro a A ha
    rw [cell_setBlock hb] at ha
    split at ha
    · rw [← Option.some.inj ha]
      exact (h.sane b B hb).same hsame
    · exact h.sane a A ha
  · intro a ha
    rw [cell_setBlock hb] at ha
    split at ha
    · exact absurd ha (by simp)
    · exact hunused a ha
  · exact hchain.refill hnodup hb (cell_setBlock_self hb B') (fun a ha => cell_setBlock_ne ha B')
      hsame hclosed hvals
  · rwa [List.map_append, List.map_cons] at hnodup ⊢
  · intro x hx
    cases c₀ with
    | nil => exact hfullq x hx
    | cons y c₀ =>
      rcases List.mem_append.mp hx with hx | hx
      · exact hfullq x (List.mem_append_left _ hx)
      · rcases List.mem_cons.mp hx with rfl | hx
        · exact hfull (List.cons_ne_nil y c₀)
        · exact hfullq x (List.mem_append_right _ (List.mem_cons_of_mem _ hx))
  · intro x hx
    have hmem : ∃ y ∈ c₀ ++ (b, vals) :: c₁, y.1 = x.1 := by
      rcases List.mem_append.mp hx with hx | hx
      · exact ⟨x, List.mem_append_left _ hx, rfl⟩
      · rcases List.mem_cons.mp hx with rfl | hx
        · exact ⟨(b, vals), by simp, rfl⟩
        · exact ⟨x, List.mem_append_right _ (List.mem_cons_of_mem _ hx), rfl⟩
    obtain ⟨y, hy, hyx⟩ := hmem
    have := howned y hy
    rw [hyx] at this
    rw [hown x.1 (by rw [this]; exact BlockOwner.noConfusion)]
    exact this
  · intro v hv
    rw [blockValues_append, blockValues_cons] at hold
    rw [blockValues_append, blockValues_cons] at hv
    apply hkeep v
    rcases List.mem_append.mp hv with hv | hv
    · exact hold v (List.mem_append_left _ hv)
    · rcases List.mem_append.mp hv with hv | hv
      · rcases hfits v hv with hv | hv
        · exact hold v (List.mem_append_right _ (List.mem_append_left _ hv))
        · exact hv
      · exact hold v (List.mem_append_right _ (List.mem_append_right _ hv))

/-- A block of a queue changes, and its contents do not. -/
theorem MpqInv.touch {B' : QueueBlock} {vals : List ℕ} {c₀ c₁ : BlockList} (h : MpqInv S V own)
    (hV : V q = c₀ ++ (b, vals) :: c₁) (hb : S.blocks.cell b = some B) (hsame : Same B B')
    (hclosed : B.closed = true → B'.closed = true) (hvals : B'.Contains vals) :
    MpqInv (S.setBlock b B') V own := by
  have hfull : c₀ ≠ [] → vals ≠ [] := by
    intro hne
    obtain ⟨y, c, rfl⟩ := List.exists_cons_of_ne_nil hne
    apply h.full q (b, vals)
    rw [hV]
    exact List.mem_append_right c List.mem_cons_self
  have hrefill := h.refill hV hb hsame hclosed hvals hfull h.unused (fun _ _ => rfl)
    (fun v hv => Or.inl hv) (fun hq => hV ▸ h.distinct q hq)
  rwa [← hV, Function.update_eq_self] at hrefill

/-- **The first value is taken out.** -/
theorem MpqInv.take {B' : QueueBlock} {vals : List ℕ} {c : BlockList} (h : MpqInv S V own)
    (hV : V q = (b, v :: vals) :: c) (hb : S.blocks.cell b = some B) (hsame : Same B B')
    (hclosed : B.closed = true → B'.closed = true) (hvals : B'.Contains vals) :
    MpqInv (S.setBlock b B') (Function.update V q ((b, vals) :: c)) own := by
  refine h.refill (show V q = [] ++ (b, v :: vals) :: c from hV) hb hsame hclosed hvals
    (fun hne => absurd rfl hne) h.unused
    (fun _ _ => rfl) (fun w hw => Or.inl (List.mem_cons_of_mem _ hw)) ?_
  intro hq
  have hnodup := h.distinct q hq
  rw [hV] at hnodup
  exact (List.nodup_cons.mp hnodup).2

/-- What is pushed to a queue of blocks is a loose block that fits. -/
def Offered (S : MpqState) (own : ℕ → BlockOwner) (q : QueueName) (v : ℕ) : Prop :=
  q ≠ .user → ∃ b B, v = mpqBlockPtr b ∧ own b = .loose ∧ S.blocks.cell b = some B ∧ StockBlock q B

/-- The owners after a push. -/
def handOver (own : ℕ → BlockOwner) (q : QueueName) (v : ℕ) : ℕ → BlockOwner :=
  if q = .user then own else Function.update own (mpqBlockOf v) (.stock q)

theorem handOver_of_ne {a : ℕ} (ho : Offered S own q v) (ha : own a ≠ .loose) :
    handOver own q v a = own a := by
  unfold handOver
  split
  · rfl
  · rename_i hq
    obtain ⟨b, -, rfl, hloose, -⟩ := ho hq
    rw [mpqBlockOf_ptr, Function.update_of_ne]
    rintro rfl
    exact ha hloose

theorem handOver_of_unused {a : ℕ} (h : MpqInv S V own) (ho : Offered S own q v)
    (ha : S.blocks.cell a = none) : handOver own q v a = .loose := by
  unfold handOver
  split
  · exact h.unused a ha
  · rename_i hq
    obtain ⟨b, B, rfl, -, hb, -⟩ := ho hq
    rw [mpqBlockOf_ptr, Function.update_of_ne]
    · exact h.unused a ha
    · rintro rfl
      exact absurd (ha.symm.trans hb) (by simp)

theorem Offered.fits (ho : Offered S own q v) : Fits S.blocks (handOver own q v) q v := by
  intro hq
  obtain ⟨b, B, rfl, -, hb, hstock⟩ := ho hq
  refine ⟨b, B, rfl, ?_, hb, hstock⟩
  unfold handOver
  rw [if_neg hq, mpqBlockOf_ptr, Function.update_self]

/-- What is offered is not in the queue. -/
theorem Offered.notMem (h : MpqInv S V own) (ho : Offered S own q v) (hq : q ≠ .user) :
    v ∉ blockValues (V q) := by
  intro hv
  obtain ⟨b, -, rfl, hloose, -⟩ := ho hq
  obtain ⟨a, -, hab, hown, -⟩ := h.fits q _ hv hq
  obtain rfl : b = a := Nat.succ_injective hab
  exact BlockOwner.noConfusion (hloose.symm.trans hown)

theorem Offered.nodup (h : MpqInv S V own) (ho : Offered S own q v) (hq : q ≠ .user) :
    (blockValues (V q) ++ [v]).Nodup := by
  refine List.nodup_append.mpr ⟨h.distinct q hq, List.nodup_singleton v, ?_⟩
  intro a ha b hb hab
  rw [List.mem_singleton.mp hb] at hab
  exact ho.notMem h hq (hab ▸ ha)

/-- **A value is put into the last block.** -/
theorem MpqInv.give {B' : QueueBlock} {vals : List ℕ} {c : BlockList} (h : MpqInv S V own)
    (ho : Offered S own q v) (hV : V q = c ++ [(b, vals)]) (hb : S.blocks.cell b = some B)
    (hsame : Same B B') (hclosed : B.closed = true → B'.closed = true)
    (hvals : B'.Contains (vals ++ [v])) :
    MpqInv (S.setBlock b B') (Function.update V q (c ++ [(b, vals ++ [v])]))
      (handOver own q v) := by
  refine h.refill hV hb hsame hclosed hvals (fun _ => by simp) (fun a => handOver_of_unused h ho)
    (fun a => handOver_of_ne ho) ?_ ?_
  · intro w hw
    rcases List.mem_append.mp hw with hw | hw
    · exact Or.inl hw
    · rw [List.mem_singleton.mp hw]
      exact Or.inr ho.fits
  · intro hq
    have hnodup := ho.nodup h hq
    rw [hV] at hnodup
    simpa only [blockValues_append, blockValues_cons, List.append_assoc, List.append_nil,
      List.nil_append, show blockValues [] = [] from rfl] using hnodup

/-- **A new block follows the last one**, which is closed. -/
theorem MpqInv.link {N : QueueBlock} {NQB : ℕ} {vals : List ℕ} {c : BlockList}
    (h : MpqInv S V own) (ho : Offered S own q v) (hV : V q = c ++ [(b, vals)])
    (hb : S.blocks.cell b = some B) (hclosed : B.closed = true) (hN : S.blocks.cell NQB = some N)
    (hloose : own NQB = .loose) (hused : N.magic = .used) (hnext : N.next = none)
    (hvals : N.Contains [v]) :
    MpqInv ((S.setBlock b { B with next := some NQB }).setTail q NQB)
      (Function.update V q (c ++ [(b, vals)] ++ [(NQB, [v])]))
      (Function.update (handOver own q v) NQB (.chain q)) := by
  have hchain := h.chain q
  have howned := h.owned q
  have hnodup := h.nodup q
  have hfull := h.full q
  rw [hV] at hchain howned hnodup hfull
  have hownb : own b = .chain q := howned (b, vals) (by simp)
  have hne : NQB ≠ b := by
    rintro rfl
    exact BlockOwner.noConfusion (hloose.symm.trans hownb)
  obtain ⟨B₁, hb₁, hused₁, hvals₁⟩ := hchain.cell (x := (b, vals)) (by simp)
  obtain rfl := Option.some.inj (hb.symm.trans hb₁)
  -- the new block is not the one in the value
  have hfits : ∀ w, Fits S.blocks (handOver own q v) q w →
      Fits (S.setBlock b { B with next := some NQB }).blocks
        (Function.update (handOver own q v) NQB (.chain q)) q w := by
    intro w hw hq
    obtain ⟨a, A, rfl, hown, hA, hstock⟩ := hw hq
    have ha : a ≠ NQB := by
      rintro rfl
      obtain rfl := Option.some.inj (hN.symm.trans hA)
      cases q with
      | user => exact hq rfl
      | garbage small => exact BlockMagic.noConfusion (hused.symm.trans hstock.1)
      | prepared small => exact BlockMagic.noConfusion (hused.symm.trans hstock.1)
    have hab : a ≠ b := by
      rintro rfl
      rw [handOver_of_ne ho (by rw [hownb]; exact BlockOwner.noConfusion), hownb] at hown
      exact BlockOwner.noConfusion hown
    exact ⟨a, A, rfl, by rw [Function.update_of_ne ha, hown], (cell_setBlock_ne hab _).trans hA,
      hstock⟩
  have hcell : ∀ a, ((S.setBlock b { B with next := some NQB }).setTail q NQB).blocks.cell a
      = if a = b then some { B with next := some NQB } else S.blocks.cell a := cell_setBlock hb _
  refine h.change (q := q) ⟨?_, ?_⟩ ?_ ?_ ?_ ?_ ?_ ?_ ?_ ?_
  · intro r hr
    exact Function.update_of_ne hr _ _
  · intro a ha hal
    refine ⟨(hcell a).trans (if_neg ?_), ?_⟩
    · rintro rfl
      exact ha hownb
    · rw [Function.update_of_ne, handOver_of_ne ho hal]
      rintro rfl
      exact hal hloose
  · intro a A ha
    rw [hcell] at ha
    split at ha
    · rw [← Option.some.inj ha]
      exact ⟨(h.sane b B hb).size, (h.sane b B hb).align⟩
    · exact h.sane a A ha
  · intro a ha
    rw [hcell] at ha
    split at ha
    · exact absurd ha (by simp)
    · rw [Function.update_of_ne]
      · exact handOver_of_unused h ho ha
      · rintro rfl
        exact absurd (ha.symm.trans hN) (by simp)
  · rw [List.append_assoc]
    have htail : (((S.setBlock b { B with next := some NQB }).setTail q NQB).queues q)
        = { S.queues q with tail := NQB } := Function.update_self _ _ _
    rw [htail]
    refine hchain.replace (fun y hy => (hcell y.1).trans (if_neg ?_)) ?_
    · rintro hyb
      rw [List.map_append, List.nodup_append] at hnodup
      exact hnodup.2.2 y.1 (List.mem_map_of_mem hy) b (by simp) hyb
    · exact .link ((hcell b).trans (if_pos rfl)) hused₁ 
        ⟨⟨hvals₁.length, hvals₁.node, hvals₁.nonzero⟩, hvals₁.opened, hvals₁.shut⟩ hclosed rfl
        (.last ((hcell NQB).trans (by rw [if_neg hne, hN])) hused hvals hnext)
  · rw [List.map_append]
    refine List.nodup_append.mpr ⟨hnodup, List.nodup_singleton _, ?_⟩
    intro a ha a' ha' haa
    obtain rfl := List.mem_singleton.mp ha'
    obtain ⟨x, hx, rfl⟩ := List.mem_map.mp ha
    have := howned x hx
    rw [haa] at this
    exact BlockOwner.noConfusion (hloose.symm.trans this)
  · intro x hx
    rw [List.tail_append_of_ne_nil (by simp)] at hx
    rcases List.mem_append.mp hx with hx | hx
    · exact hfull x hx
    · rw [List.mem_singleton.mp hx]
      exact List.cons_ne_nil v []
  · intro x hx
    rcases List.mem_append.mp hx with hx | hx
    · have hown := howned x hx
      have hal : own x.1 ≠ .loose := by
        rw [hown]
        exact BlockOwner.noConfusion
      rw [Function.update_of_ne, handOver_of_ne ho hal, hown]
      rintro he
      exact hal (he ▸ hloose)
    · rw [List.mem_singleton.mp hx, Function.update_self]
  · intro w hw
    apply hfits w
    rw [blockValues_append] at hw
    rcases List.mem_append.mp hw with hw | hw
    · rw [← hV] at hw
      refine (h.fits q w hw).keep (S := S) (fun a ha => ⟨rfl, handOver_of_ne ho ?_⟩)
      rw [ha]
      exact BlockOwner.noConfusion
    · rw [show w = v by simpa [blockValues] using hw]
      exact ho.fits
  · intro hq
    have hnew := ho.nodup h hq
    rw [hV] at hnew
    rw [blockValues_append]
    exact hnew

/-- **The first block is taken off the queue**; it is empty. -/
theorem MpqInv.drop {next : ℕ} {c : BlockList} (h : MpqInv S V own) (hV : V q = (b, []) :: c)
    (hne : c ≠ []) (hb : S.blocks.cell b = some B) (hnext : B.next = some next) :
    MpqInv (S.setHead q next) (Function.update V q c) (Function.update own b .loose) := by
  have hchain := h.chain q
  have howned := h.owned q
  have hnodup := h.nodup q
  have hfits := h.fits q
  have hfull := h.full q
  have hdistinct := h.distinct q
  rw [hV] at hchain howned hnodup hfits hfull hdistinct
  have hownb : own b = .chain q := howned (b, []) List.mem_cons_self
  have hkeep : ∀ a, a ≠ b → Function.update own b .loose a = own a := fun a ha =>
    Function.update_of_ne ha _ _
  have hhead : (S.setHead q next).queues q = { S.queues q with head := next } :=
    Function.update_self _ _ _
  refine h.change (q := q) ⟨?_, ?_⟩ h.sane ?_ ?_ (List.nodup_cons.mp hnodup).2 ?_ ?_ ?_ hdistinct
  · intro r hr
    exact Function.update_of_ne hr _ _
  · intro a ha _
    refine ⟨rfl, hkeep a ?_⟩
    rintro rfl
    exact ha hownb
  · intro a ha
    by_cases hab : a = b
    · rw [hab, Function.update_self]
    · rw [hkeep a hab]
      exact h.unused a ha
  · rw [hhead]
    obtain ⟨-, next', hnext', hrest⟩ := hchain.rest hne hb
    obtain rfl := Option.some.inj (hnext.symm.trans hnext')
    exact hrest
  · exact fun x hx => hfull x (List.mem_of_mem_tail hx)
  · intro x hx
    rw [hkeep x.1]
    · exact howned x (List.mem_cons_of_mem _ hx)
    · rintro rfl
      exact (List.nodup_cons.mp hnodup).1 (List.mem_map.mpr ⟨x, hx, rfl⟩)
  · intro w hw
    refine (hfits w hw).keep (S := S) (fun a ha => ⟨rfl, hkeep a ?_⟩)
    rintro rfl
    exact BlockOwner.noConfusion (ha.symm.trans hownb)

end Changes

end MtprotoProxy
