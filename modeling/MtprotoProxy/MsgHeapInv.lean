/-
# What the memory of raw messages preserves

`Inv H r` says that the reference counts of the memory `H` are exact: a part has as many
references as `r` says there are from outside, from messages, plus one for each part before it;
a buffer has one for each part on it.  The pointers from part to part have no cycles.

The lemmas say what each change of one part does to it.
-/
import MtprotoProxy.MsgHeap

namespace MtprotoProxy

open CLib

/-- One reference, to the part `x`. -/
def ref (x : Option ℕ) (p : ℕ) : ℕ := if x = some p then 1 else 0

@[simp] theorem ref_none (p : ℕ) : ref none p = 0 := rfl

@[simp] theorem ref_self (p : ℕ) : ref (some p) p = 1 := if_pos rfl

theorem ref_of_ne {p q : ℕ} (h : p ≠ q) : ref (some p) q = 0 :=
  if_neg (fun he => h (Option.some.inj he))

theorem ref_pos {x : Option ℕ} {p : ℕ} : 0 < ref x p ↔ x = some p := by
  unfold ref
  split_ifs with h <;> simp [h]

namespace MsgHeap

/-- The pointer from a part to the next one. -/
def Next (H : MsgHeap) (p q : ℕ) : Prop := ∃ mp, H.parts.cell p = some mp ∧ mp.next = some q

/-- A part is reached from another one. -/
def Path (H : MsgHeap) : ℕ → ℕ → Prop := Relation.ReflTransGen H.Next

/-- The references to a part from other parts. -/
def links (H : MsgHeap) (p : ℕ) : ℕ := H.parts.total (fun mp => ref mp.next p)

/-- The references to a buffer. -/
def uses (H : MsgHeap) (b : ℕ) : ℕ := H.parts.total (fun mp => if mp.part = b then 1 else 0)

/-- **The invariant** of the memory, with the references `r` from outside. -/
structure Inv (H : MsgHeap) (r : ℕ → ℕ) : Prop where
  refcnt : ∀ p mp, H.parts.cell p = some mp → mp.refcnt = r p + H.links p
  counted : ∀ p mp, H.parts.cell p = some mp → 0 < mp.refcnt
  root : ∀ p, 0 < r p → ∃ mp, H.parts.cell p = some mp
  next : ∀ p q, H.Next p q → ∃ mq, H.parts.cell q = some mq
  acyclic : ∀ p, Acc (fun q p => H.Next p q) p
  buffer : ∀ p mp, H.parts.cell p = some mp → ∃ X, H.buffers.cell mp.part = some X ∧
    mp.offset ≤ mp.dataEnd ∧ mp.dataEnd ≤ X.data.length
  bufferRefcnt : ∀ b X, H.buffers.cell b = some X → X.refcnt = H.uses b
  bufferCounted : ∀ b X, H.buffers.cell b = some X → 0 < X.refcnt

variable {H H' : MsgHeap} {r r₀ : ℕ → ℕ}

theorem Inv.congr {r' : ℕ → ℕ} (h : Inv H r) (hr : ∀ p, r p = r' p) : Inv H r' := by
  rwa [← funext hr]

/-- The memory without parts. -/
theorem Inv.empty (junk : ℕ → ℕ → UInt8) : Inv (MsgHeap.empty junk) (fun _ => 0) where
  refcnt := by
    intro p mp hp
    exact absurd hp (by simp [MsgHeap.empty])
  counted := by
    intro p mp hp
    exact absurd hp (by simp [MsgHeap.empty])
  root := by
    intro p hp
    exact absurd hp (lt_irrefl 0)
  next := by
    rintro p q ⟨mp, hp, -⟩
    exact absurd hp (by simp [MsgHeap.empty])
  acyclic := by
    intro p
    constructor
    rintro q ⟨mp, hp, -⟩
    exact absurd hp (by simp [MsgHeap.empty])
  buffer := by
    intro p mp hp
    exact absurd hp (by simp [MsgHeap.empty])
  bufferRefcnt := by
    intro b X hb
    exact absurd hb (by simp [MsgHeap.empty])
  bufferCounted := by
    intro b X hb
    exact absurd hb (by simp [MsgHeap.empty])

/-! ## Paths -/

theorem Next.unique {p q q' : ℕ} (h : H.Next p q) (h' : H.Next p q') : q = q' := by
  obtain ⟨mp, hp, hq⟩ := h
  obtain ⟨mp', hp', hq'⟩ := h'
  rw [← Option.mem_unique hp hp'] at hq'
  exact Option.some.inj (hq.symm.trans hq')

/-- No part comes behind itself. -/
theorem Inv.not_cycle (h : Inv H r) {p q : ℕ} (hpq : H.Next p q) : ¬ H.Path q p := by
  intro hback
  induction h.acyclic p generalizing q with
  | intro p _ ih =>
    -- the cycle goes through `q` as well
    rcases Relation.ReflTransGen.cases_head hback with rfl | ⟨q', hqq', hrest⟩
    · exact ih q hpq hpq Relation.ReflTransGen.refl
    · exact ih q hpq hqq' (hrest.tail hpq)

/-- Two parts that are the last of their chain, and are reached from one part, are one. -/
theorem Path.last_unique {p l l' : ℕ} (h : H.Path p l) (h' : H.Path p l')
    (hl : ∀ q, ¬ H.Next l q) (hl' : ∀ q, ¬ H.Next l' q) : l = l' := by
  induction h using Relation.ReflTransGen.head_induction_on with
  | refl =>
    rcases Relation.ReflTransGen.cases_head h' with rfl | ⟨q, hq, -⟩
    · rfl
    · exact absurd hq (hl q)
  | head hab _ ih =>
    rcases Relation.ReflTransGen.cases_head h' with rfl | ⟨q, hq, hrest⟩
    · exact absurd hab (hl' _)
    · rw [hab.unique hq] at ih
      exact ih hrest

/-- `n` pointers lead from a part to another one. -/
inductive Steps (H : MsgHeap) : ℕ → ℕ → ℕ → Prop
  | refl (p : ℕ) : Steps H 0 p p
  | head {n p q l : ℕ} (hpq : H.Next p q) (hql : Steps H n q l) : Steps H (n + 1) p l

theorem Steps.path {n p l : ℕ} (h : Steps H n p l) : H.Path p l := by
  induction h with
  | refl p => exact Relation.ReflTransGen.refl
  | head hpq _ ih => exact ih.head hpq

/-- Beside the parts of a chain there is room for parts that the chain does not come to. -/
theorem Inv.card_add_lt (h : Inv H r) {S : Finset ℕ} {n p l : ℕ} (hsteps : Steps H n p l)
    (hlive : p < H.parts.size) (hS : ∀ x ∈ S, x < H.parts.size ∧ ¬ H.Path p x) :
    S.card + n < H.parts.size := by
  induction hsteps generalizing S with
  | refl p =>
    have hp : p ∉ S := fun hp => (hS p hp).2 Relation.ReflTransGen.refl
    have hsub : insert p S ⊆ Finset.range H.parts.size := by
      intro x hx
      rw [Finset.mem_range]
      rcases Finset.mem_insert.mp hx with rfl | hx
      · exact hlive
      · exact (hS x hx).1
    have hcard := Finset.card_le_card hsub
    rw [Finset.card_insert_of_notMem hp, Finset.card_range] at hcard
    omega
  | @head n p q l hpq hql ih =>
    have hp : p ∉ S := fun hp => (hS p hp).2 Relation.ReflTransGen.refl
    obtain ⟨mq, hq⟩ := h.next _ _ hpq
    have hrest : (insert p S).card + n < H.parts.size := by
      apply ih (Store.lt_size hq)
      intro x hx
      rcases Finset.mem_insert.mp hx with rfl | hx
      · exact ⟨hlive, h.not_cycle hpq⟩
      · exact ⟨(hS x hx).1, fun hpath => (hS x hx).2 (hpath.head hpq)⟩
    rw [Finset.card_insert_of_notMem hp] at hrest
    omega

/-- **Chains are short**: they have fewer pointers than there have ever been parts. -/
theorem Inv.steps_lt (h : Inv H r) {n p l : ℕ} (hsteps : Steps H n p l)
    (hlive : p < H.parts.size) : n < H.parts.size := by
  have hcard := h.card_add_lt (S := ∅) hsteps hlive (by simp)
  rwa [Finset.card_empty, Nat.zero_add] at hcard

/-! ## Changing one part -/

section SetPart

variable {p : ℕ} {mp mp' : MsgPart}

theorem cell_setPart (hp : H.parts.cell p = some mp) (q : ℕ) :
    (H.setPart p mp').parts.cell q = if q = p then some mp' else H.parts.cell q :=
  Store.cell_put hp _ q

theorem cell_setPart_self (hp : H.parts.cell p = some mp) :
    (H.setPart p mp').parts.cell p = some mp' :=
  Store.cell_put_self hp _

theorem cell_setPart_ne {q : ℕ} (hq : q ≠ p) :
    (H.setPart p mp').parts.cell q = H.parts.cell q :=
  Store.cell_put_ne hq _

theorem links_setPart (hp : H.parts.cell p = some mp) (q : ℕ) :
    (H.setPart p mp').links q + ref mp.next q = H.links q + ref mp'.next q :=
  Store.total_put hp (some mp')

theorem uses_setPart (hp : H.parts.cell p = some mp) (hpart : mp'.part = mp.part) (b : ℕ) :
    (H.setPart p mp').uses b = H.uses b := by
  have h := Store.total_put (w := fun mp : MsgPart => if mp.part = b then 1 else 0) hp (some mp')
  simp only [Option.elim_some, hpart] at h
  exact Nat.add_right_cancel h

theorem next_setPart (hp : H.parts.cell p = some mp) {a b : ℕ} :
    (H.setPart p mp').Next a b ↔ (a ≠ p ∧ H.Next a b) ∨ (a = p ∧ mp'.next = some b) := by
  unfold Next
  by_cases ha : a = p
  · subst ha
    rw [cell_setPart_self hp]
    simp
  · rw [cell_setPart_ne ha]
    simp [ha]

/-- **One part changes**: its own references as the ones from outside do, the references to
others as its pointer does, and the new pointer closes no cycle. -/
theorem Inv.setPart {r' : ℕ → ℕ} (h : Inv H r) (hp : H.parts.cell p = some mp)
    (hpart : mp'.part = mp.part)
    (hoffset : mp'.offset ≤ mp'.dataEnd)
    (hend : ∀ X, H.buffers.cell mp.part = some X → mp'.dataEnd ≤ X.data.length)
    (hpos : 0 < mp'.refcnt)
    (hself : mp'.refcnt + r p = mp.refcnt + r' p)
    (hother : ∀ q, q ≠ p → r' q + ref mp'.next q = r q + ref mp.next q)
    (hnext : ∀ q, mp'.next = some q → mp.next = some q ∨
      ((∃ mq, H.parts.cell q = some mq) ∧ ¬ H.Path q p)) :
    Inv (H.setPart p mp') r' := by
  have hold : ∀ q, mp.next = some q → H.Next p q := fun q hq => ⟨mp, hp, hq⟩
  have hloop : ∀ q, mp'.next = some q → q ≠ p := by
    rintro q hq rfl
    rcases hnext q hq with hsame | ⟨-, hno⟩
    · exact h.not_cycle (hold q hsame) Relation.ReflTransGen.refl
    · exact hno Relation.ReflTransGen.refl
  refine ⟨?_, ?_, ?_, ?_, ?_, ?_, ?_, h.bufferCounted⟩
  · intro q mq hq
    have hlinks : (H.setPart p mp').links q + ref mp.next q = H.links q + ref mp'.next q :=
      links_setPart hp q
    by_cases hqp : q = p
    · subst hqp
      rw [cell_setPart_self hp] at hq
      rw [← Option.some.inj hq]
      have hcount := h.refcnt q mp hp
      have hnone : ref mp.next q = 0 := by
        by_contra hne
        have := (ref_pos).mp (Nat.pos_of_ne_zero hne)
        exact h.not_cycle (hold q this) Relation.ReflTransGen.refl
      have hnone' : ref mp'.next q = 0 := by
        by_contra hne
        exact hloop q ((ref_pos).mp (Nat.pos_of_ne_zero hne)) rfl
      omega
    · rw [cell_setPart_ne hqp] at hq
      have hcount := h.refcnt q mq hq
      have := hother q hqp
      omega
  · intro q mq hq
    rw [cell_setPart hp] at hq
    split_ifs at hq with hqp
    · rw [← Option.some.inj hq]
      exact hpos
    · exact h.counted q mq hq
  · intro q hq
    rw [cell_setPart hp]
    split_ifs with hqp
    · exact ⟨mp', rfl⟩
    · have hor : 0 < r q ∨ 0 < ref mp.next q := by
        have := hother q hqp
        omega
      rcases hor with hr | hr
      · exact h.root q hr
      · exact h.next p q (hold q ((ref_pos).mp hr))
  · intro a b hab
    rw [cell_setPart hp]
    split_ifs with hbp
    · exact ⟨mp', rfl⟩
    · rcases (next_setPart hp).mp hab with ⟨-, hab⟩ | ⟨-, hnew⟩
      · exact h.next a b hab
      · rcases hnext b hnew with hsame | ⟨hlive, -⟩
        · exact h.next p b (hold b hsame)
        · exact hlive
  · -- a chain that does not come to `p` has stayed as it was
    have haway : ∀ q, ¬ H.Path q p → Acc (fun b a => (H.setPart p mp').Next a b) q := by
      intro q
      induction h.acyclic q with
      | intro q _ ih =>
        intro hq
        constructor
        intro b hb
        rcases (next_setPart hp).mp hb with ⟨-, hb⟩ | ⟨rfl, -⟩
        · exact ih b hb (fun hpath => hq (hpath.head hb))
        · exact absurd Relation.ReflTransGen.refl hq
    have hself : Acc (fun b a => (H.setPart p mp').Next a b) p := by
      constructor
      intro b hb
      rcases (next_setPart hp).mp hb with ⟨hne, -⟩ | ⟨-, hb⟩
      · exact absurd rfl hne
      · apply haway
        rcases hnext b hb with hsame | ⟨-, hno⟩
        · exact h.not_cycle (hold b hsame)
        · exact hno
    intro q
    induction h.acyclic q with
    | intro q _ ih =>
      constructor
      intro b hb
      rcases (next_setPart hp).mp hb with ⟨-, hb⟩ | ⟨rfl, -⟩
      · exact ih b hb
      · exact hself.inv hb
  · intro q mq hq
    rw [cell_setPart hp] at hq
    split_ifs at hq with hqp
    · rw [← Option.some.inj hq, hpart]
      obtain ⟨X, hX, -, -⟩ := h.buffer p mp hp
      exact ⟨X, hX, hoffset, hend X hX⟩
    · exact h.buffer q mq hq
  · intro b X hb
    rw [uses_setPart hp hpart]
    exact h.bufferRefcnt b X hb

end SetPart

/-- **One more reference** from outside. -/
theorem msgPartIncref_inv {p : ℕ} {mp : MsgPart} (h : Inv H r)
    (hp : H.parts.cell p = some mp) :
    ∃ H', H.msgPartIncref p = some H' ∧ H' = H.setPart p { mp with refcnt := mp.refcnt + 1 } ∧
      Inv H' (fun q => ref (some p) q + r q) := by
  refine ⟨_, by rw [msgPartIncref, hp]; rfl, rfl, ?_⟩
  obtain ⟨X, hX, hle, hend⟩ := h.buffer p mp hp
  refine h.setPart hp rfl hle ?_ (Nat.succ_pos _) ?_ ?_ ?_
  · intro Y hY
    rw [← Option.mem_unique hX hY]
    exact hend
  · dsimp only
    rw [ref_self]
    omega
  · intro q hq
    dsimp only
    rw [ref_of_ne (Ne.symm hq), Nat.zero_add]
  · exact fun q hq => Or.inl hq

/-- A part may start or end elsewhere in its buffer. -/
theorem Inv.setRange {p : ℕ} {mp : MsgPart} {o e : ℕ} (h : Inv H r)
    (hp : H.parts.cell p = some mp) (hle : o ≤ e)
    (hend : ∀ X, H.buffers.cell mp.part = some X → e ≤ X.data.length) :
    Inv (H.setPart p { mp with offset := o, dataEnd := e }) r :=
  h.setPart hp rfl hle hend (h.counted p mp hp) rfl (fun _ _ => rfl) (fun _ hq => Or.inl hq)

/-- A pointer may be cleared, and leaves its reference outside. -/
theorem Inv.cut {p : ℕ} {mp : MsgPart} {o e : ℕ} (h : Inv H r)
    (hp : H.parts.cell p = some mp) (hle : o ≤ e)
    (hend : ∀ X, H.buffers.cell mp.part = some X → e ≤ X.data.length) :
    Inv (H.setPart p { mp with offset := o, dataEnd := e, next := none })
      (fun q => ref mp.next q + r q) := by
  refine h.setPart hp rfl hle hend (h.counted p mp hp) ?_ ?_ ?_
  · have hnone : ref mp.next p = 0 := by
      by_contra hne
      have hself : H.Next p p := ⟨mp, hp, (ref_pos).mp (Nat.pos_of_ne_zero hne)⟩
      exact h.not_cycle hself Relation.ReflTransGen.refl
    dsimp only
    omega
  · intro q _
    dsimp only
    rw [ref_none]
    omega
  · intro q hq
    exact absurd hq (by simp)

/-- A reference from outside may become a pointer; the old pointer leaves its reference. -/
theorem Inv.link {p t : ℕ} {mp : MsgPart} (h : Inv H (fun q => ref (some t) q + r q))
    (hp : H.parts.cell p = some mp) (hno : ¬ H.Path t p) :
    Inv (H.setPart p { mp with next := some t }) (fun q => ref mp.next q + r q) := by
  obtain ⟨X, hX, hle, hend⟩ := h.buffer p mp hp
  have htp : t ≠ p := by
    rintro rfl
    exact hno Relation.ReflTransGen.refl
  refine h.setPart hp rfl hle ?_ (h.counted p mp hp) ?_ ?_ ?_
  · intro Y hY
    rw [← Option.mem_unique hX hY]
    exact hend
  · have hnone : ref mp.next p = 0 := by
      by_contra hne
      have hself : H.Next p p := ⟨mp, hp, (ref_pos).mp (Nat.pos_of_ne_zero hne)⟩
      exact h.not_cycle hself Relation.ReflTransGen.refl
    dsimp only
    rw [ref_of_ne htp, hnone]
  · intro q _
    dsimp only
    omega
  · intro q hq
    dsimp only at hq
    obtain rfl := Option.some.inj hq
    refine Or.inr ⟨h.root t ?_, hno⟩
    rw [ref_self]
    omega

/-! ## New parts -/

/-- The links of a heap with a new part. -/
theorem next_newPart {H' : MsgHeap} {mp : MsgPart} (hparts : H'.parts = H.parts.alloc mp) {a b : ℕ}
    (hab : H'.Next a b) : (a = H.parts.size ∧ mp.next = some b) ∨ H.Next a b := by
  obtain ⟨ma, ha, hab⟩ := hab
  rw [hparts, Store.cell_alloc] at ha
  split_ifs at ha with hnew
  · rw [← Option.some.inj ha] at hab
    exact .inl ⟨hnew, hab⟩
  · exact .inr ⟨ma, ha, hab⟩

/-- No link leads to the place of a new part. -/
theorem Inv.not_next_size (h : Inv H r) (q : ℕ) : ¬ H.Next q H.parts.size := by
  intro hq
  obtain ⟨m, hm⟩ := h.next _ _ hq
  rw [H.parts.fresh _ le_rfl] at hm
  exact absurd hm (by simp)

theorem Inv.unused_size (h : Inv H r) : r H.parts.size = 0 ∧ H.links H.parts.size = 0 := by
  constructor
  · by_contra hne
    obtain ⟨mq, hq⟩ := h.root _ (Nat.pos_of_ne_zero hne)
    rw [H.parts.fresh _ le_rfl] at hq
    exact absurd hq (by simp)
  · apply Store.total_eq_zero
    intro q mq hq
    by_contra hne
    exact h.not_next_size q ⟨mq, hq, (ref_pos).mp (Nat.pos_of_ne_zero hne)⟩

/-- A new part that does not lead to itself makes no cycle. -/
theorem Inv.acyclic_newPart {H' : MsgHeap} {mp : MsgPart} (h : Inv H r)
    (hparts : H'.parts = H.parts.alloc mp) (hself : mp.next ≠ some H.parts.size) (q : ℕ) :
    Acc (fun b a => H'.Next a b) q := by
  have hacc : ∀ q, q ≠ H.parts.size → Acc (fun b a => H'.Next a b) q := by
    intro q
    induction h.acyclic q with
    | intro q _ ih =>
      intro hq
      constructor
      intro b hb
      rcases next_newPart hparts hb with ⟨hnew, -⟩ | hqb
      · exact absurd hnew hq
      · exact ih b hqb (fun hb => h.not_next_size q (hb ▸ hqb))
  by_cases hq : q = H.parts.size
  · subst hq
    constructor
    intro b hb
    apply hacc
    rintro rfl
    rcases next_newPart hparts hb with ⟨-, hnew⟩ | hloop
    · exact hself hnew
    · exact h.not_next_size _ hloop
  · exact hacc q hq

/-- What is new in a memory with one more part, on a buffer with one more reference. -/
theorem Inv.newPart {H' : MsgHeap} {mp : MsgPart} {r' : ℕ → ℕ} (h : Inv H r)
    (hparts : H'.parts = H.parts.alloc mp) (hone : mp.refcnt = 1) (hle : mp.offset ≤ mp.dataEnd)
    (hroot : ∀ q, r q = ref mp.next q + r' q)
    (hold : ∀ b X, H.buffers.cell b = some X → ∃ X', H'.buffers.cell b = some X' ∧
      X'.data.length = X.data.length)
    (hbuffer : ∃ X, H'.buffers.cell mp.part = some X ∧ mp.dataEnd ≤ X.data.length)
    (hcount : ∀ b X, H'.buffers.cell b = some X →
      X.refcnt = H.uses b + if mp.part = b then 1 else 0)
    (hpos : ∀ b X, H'.buffers.cell b = some X → 0 < X.refcnt) :
    Inv H' (fun q => ref (some H.parts.size) q + r' q) := by
  have hcell : ∀ q, H'.parts.cell q
      = if q = H.parts.size then some mp else H.parts.cell q := by
    intro q
    rw [hparts]
    rfl
  have hlive : ∀ q mq, H.parts.cell q = some mq → H'.parts.cell q = some mq := by
    intro q mq hq
    rw [hparts]
    exact Store.cell_alloc_of_some hq
  have hlinks : ∀ q, H'.links q = H.links q + ref mp.next q := by
    intro q
    unfold links
    rw [hparts]
    exact Store.total_alloc mp
  obtain ⟨hroot₀, hlinks₀⟩ := h.unused_size
  refine ⟨?_, ?_, ?_, ?_, ?_, ?_, ?_, hpos⟩
  · intro q mq hq
    have hr := hroot q
    have hl := hlinks q
    rw [hcell] at hq
    split_ifs at hq with hnew
    · subst hnew
      rw [← Option.some.inj hq, hone]
      rw [ref_self]
      omega
    · have hcount' := h.refcnt q mq hq
      rw [ref_of_ne (Ne.symm hnew)]
      omega
  · intro q mq hq
    rw [hcell] at hq
    split_ifs at hq
    · rw [← Option.some.inj hq, hone]
      exact Nat.one_pos
    · exact h.counted q mq hq
  · intro q hq
    rw [hcell]
    split_ifs with hnew
    · exact ⟨mp, rfl⟩
    · rw [ref_of_ne (Ne.symm hnew), Nat.zero_add] at hq
      apply h.root q
      have := hroot q
      omega
  · intro a b hab
    rcases next_newPart hparts hab with ⟨-, hnew⟩ | hab
    · obtain ⟨mb, hb⟩ := h.root b (by
        have := hroot b
        have := (ref_pos).mpr hnew
        omega)
      exact ⟨mb, hlive b mb hb⟩
    · obtain ⟨mb, hb⟩ := h.next a b hab
      exact ⟨mb, hlive b mb hb⟩
  · refine h.acyclic_newPart hparts (fun hself => ?_)
    have hr := hroot H.parts.size
    have hpos := (ref_pos).mpr hself
    omega
  · intro q mq hq
    rw [hcell] at hq
    split_ifs at hq
    · rw [← Option.some.inj hq]
      obtain ⟨X, hX, hend⟩ := hbuffer
      exact ⟨X, hX, hle, hend⟩
    · obtain ⟨X, hX, hle', hend⟩ := h.buffer q mq hq
      obtain ⟨X', hX', hlen⟩ := hold _ X hX
      exact ⟨X', hX', hle', by omega⟩
  · intro b X hb
    have huses : H'.uses b = H.uses b + if mp.part = b then 1 else 0 := by
      unfold uses
      rw [hparts]
      exact Store.total_alloc mp
    rw [huses]
    exact hcount b X hb

/-- The bytes of a fresh buffer. -/
theorem length_newData (i : ℕ) (hint : ℕ) (src : Bytes) (b : ℕ)
    (h : i + src.length ≤ bufferSize hint) :
    (memcpyAt ((List.range (bufferSize hint)).map (H.junk b)) i src).length = bufferSize hint := by
  unfold memcpyAt
  simp only [List.length_append, List.length_take, List.length_drop, List.length_map,
    List.length_range]
  omega

/-- **A new part on a new buffer**; it takes over a reference to the part behind it. -/
theorem Inv.newDataPart {hint i : ℕ} {src : Bytes} {next : Option ℕ} {r' : ℕ → ℕ}
    (h : Inv H r) (hroot : ∀ q, r q = ref next q + r' q)
    (hfit : i + src.length ≤ bufferSize hint) :
    Inv (H.newDataPart hint i src next) (fun q => ref (some H.parts.size) q + r' q) := by
  have hlen := length_newData (H := H) i hint src H.buffers.size hfit
  have hfresh : H.buffers.cell H.buffers.size = none := H.buffers.fresh _ le_rfl
  have hunused : H.uses H.buffers.size = 0 := by
    apply Store.total_eq_zero
    intro q mq hq
    obtain ⟨X, hX, -⟩ := h.buffer q mq hq
    rw [if_neg]
    intro he
    rw [he, hfresh] at hX
    exact absurd hX (by simp)
  refine h.newPart rfl rfl (Nat.le_add_right _ _) hroot ?_ ?_ ?_ ?_
  · intro b X hb
    exact ⟨X, Store.cell_alloc_of_some hb, rfl⟩
  · refine ⟨_, Store.cell_alloc_self _, ?_⟩
    dsimp only
    rw [hlen]
    exact hfit
  · intro b X hb
    unfold MsgHeap.newDataPart at hb
    rw [Store.cell_alloc] at hb
    split_ifs at hb with hnew
    · subst hnew
      rw [← Option.some.inj hb, hunused, if_pos rfl]
    · rw [if_neg (Ne.symm hnew), h.bufferRefcnt b X hb, Nat.add_zero]
  · intro b X hb
    unfold MsgHeap.newDataPart at hb
    rw [Store.cell_alloc] at hb
    split_ifs at hb
    · rw [← Option.some.inj hb]
      exact Nat.one_pos
    · exact h.bufferCounted b X hb

theorem cell_setBuffer {b : ℕ} {X : MsgBuffer} (hb : H.buffers.cell b = some X) (X' : MsgBuffer)
    (a : ℕ) :
    (H.setBuffer b X').buffers.cell a = if a = b then some X' else H.buffers.cell a :=
  Store.cell_put hb _ a

/-- **A new part on an old buffer.** -/
theorem Inv.sharePart {b o e : ℕ} {X : MsgBuffer} {next : Option ℕ} {r' : ℕ → ℕ}
    (h : Inv H r) (hb : H.buffers.cell b = some X) (hroot : ∀ q, r q = ref next q + r' q)
    (hle : o ≤ e) (hend : e ≤ X.data.length) :
    Inv ((H.setBuffer b { X with refcnt := X.refcnt + 1 }).newMsgPart ⟨1, next, b, o, e⟩)
      (fun q => ref (some H.parts.size) q + r' q) := by
  refine h.newPart rfl rfl hle hroot ?_ ?_ ?_ ?_
  · intro a Y ha
    have hcell := cell_setBuffer hb { X with refcnt := X.refcnt + 1 } a
    by_cases hab : a = b
    · subst hab
      rw [← Option.mem_unique hb ha]
      rw [if_pos rfl] at hcell
      exact ⟨_, hcell, rfl⟩
    · rw [if_neg hab] at hcell
      exact ⟨Y, hcell.trans ha, rfl⟩
  · have hcell := cell_setBuffer hb { X with refcnt := X.refcnt + 1 } b
    rw [if_pos rfl] at hcell
    exact ⟨_, hcell, hend⟩
  · intro a Y ha
    have ha' : (if a = b then some { X with refcnt := X.refcnt + 1 } else H.buffers.cell a)
        = some Y := (cell_setBuffer hb _ a).symm.trans ha
    split_ifs at ha' with hab
    · subst hab
      rw [← Option.some.inj ha', if_pos rfl]
      dsimp only
      rw [h.bufferRefcnt a X hb]
    · rw [if_neg (Ne.symm hab), h.bufferRefcnt a Y ha', Nat.add_zero]
  · intro a Y ha
    have ha' : (if a = b then some { X with refcnt := X.refcnt + 1 } else H.buffers.cell a)
        = some Y := (cell_setBuffer hb _ a).symm.trans ha
    split_ifs at ha'
    · rw [← Option.some.inj ha']
      exact Nat.succ_pos _
    · exact h.bufferCounted a Y ha'

/-- **Bytes are written** to a buffer. -/
theorem Inv.write {b i : ℕ} {X : MsgBuffer} {src : Bytes} (h : Inv H r)
    (hb : H.buffers.cell b = some X) (hfit : i + src.length ≤ X.data.length) :
    Inv (H.write b X i src) r := by
  have hlen : (memcpyAt X.data i src).length = X.data.length := by
    unfold memcpyAt
    simp only [List.length_append, List.length_take, List.length_drop]
    omega
  refine ⟨h.refcnt, h.counted, h.root, h.next, h.acyclic, ?_, ?_, ?_⟩
  · intro p mp hp
    obtain ⟨Y, hY, hle, hend⟩ := h.buffer p mp hp
    have hcell := cell_setBuffer hb { X with data := memcpyAt X.data i src } mp.part
    split_ifs at hcell with hpb
    · rw [hpb, hb] at hY
      refine ⟨_, hcell, hle, ?_⟩
      dsimp only
      rw [hlen, Option.some.inj hY]
      exact hend
    · exact ⟨Y, hcell.trans hY, hle, hend⟩
  · intro a Y ha
    have ha' : (if a = b then some { X with data := memcpyAt X.data i src }
        else H.buffers.cell a) = some Y := (cell_setBuffer hb _ a).symm.trans ha
    split_ifs at ha' with hab
    · subst hab
      rw [← Option.some.inj ha']
      exact h.bufferRefcnt a X hb
    · exact h.bufferRefcnt a Y ha'
  · intro a Y ha
    have ha' : (if a = b then some { X with data := memcpyAt X.data i src }
        else H.buffers.cell a) = some Y := (cell_setBuffer hb _ a).symm.trans ha
    split_ifs at ha'
    · rw [← Option.some.inj ha']
      exact h.bufferCounted b X hb
    · exact h.bufferCounted a Y ha'

end MsgHeap

end MtprotoProxy
