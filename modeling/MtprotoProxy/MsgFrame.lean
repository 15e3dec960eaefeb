/-
# What others see of a change to the memory

`Reach r H p` says that a holder of the references `r` can come to the part `p`.  `Frame grow r
H H'` says that he finds in `H'` what he found in `H`: every part that he can reach still covers
the same bytes and goes on to the same part.  With `grow`, a part without a successor may have
got one, and more bytes at its end.

A part that is reached from a message over parts with one reference each is reached from nowhere
else (`Sole.not_reach`), and may be changed in any way.
-/
import MtprotoProxy.MsgHeapInv

namespace MtprotoProxy

open CLib

namespace MsgHeap

variable {H H' H'' : MsgHeap} {r r' : ℕ → ℕ} {grow : Prop}

/-- The holder of the references `r` can come to the part `p`. -/
def Reach (r : ℕ → ℕ) (H : MsgHeap) (p : ℕ) : Prop := ∃ a, 0 < r a ∧ H.Path a p

theorem Reach.mono (hle : ∀ q, r q ≤ r' q) {p : ℕ} (h : Reach r H p) : Reach r' H p := by
  obtain ⟨a, ha, hp⟩ := h
  exact ⟨a, lt_of_lt_of_le ha (hle a), hp⟩

theorem Reach.next {p q : ℕ} (h : Reach r H p) (hpq : H.Next p q) : Reach r H q := by
  obtain ⟨a, ha, hp⟩ := h
  exact ⟨a, ha, hp.tail hpq⟩

theorem Reach.path {p q : ℕ} (h : Reach r H p) (hpq : H.Path p q) : Reach r H q := by
  obtain ⟨a, ha, hp⟩ := h
  exact ⟨a, ha, hp.trans hpq⟩

/-- A reference reaches its part. -/
theorem reach_ref (p : ℕ) : Reach (fun q => ref (some p) q + r q) H p := by
  refine ⟨p, ?_, Relation.ReflTransGen.refl⟩
  dsimp only
  rw [ref_self]
  omega

theorem Inv.live_path (h : Inv H r) {p q : ℕ} {mp : MsgPart} (hp : H.parts.cell p = some mp)
    (hpq : H.Path p q) : ∃ mq, H.parts.cell q = some mq := by
  rcases Relation.ReflTransGen.cases_tail hpq with rfl | ⟨x, -, hxq⟩
  · exact ⟨mp, hp⟩
  · exact h.next x q hxq

theorem Inv.live (h : Inv H r) {p : ℕ} (hp : Reach r H p) : ∃ mp, H.parts.cell p = some mp := by
  obtain ⟨a, ha, hap⟩ := hp
  obtain ⟨ma, hma⟩ := h.root a ha
  exact h.live_path hma hap

/-! ## Frames -/

/-- What is kept of one part. -/
structure KeepsPart (grow : Prop) (mp mp' : MsgPart) : Prop where
  part : mp'.part = mp.part
  offset : mp'.offset = mp.offset
  rest : (mp'.next = mp.next ∧ mp'.dataEnd = mp.dataEnd) ∨
    (grow ∧ mp.next = none ∧ mp.dataEnd ≤ mp'.dataEnd)

/-- The bytes between two places are kept. -/
def SameBytes (X X' : MsgBuffer) (o e : ℕ) : Prop :=
  ∀ i n, o ≤ i → i + n ≤ e → slice X'.data i n = slice X.data i n

/-- A part is kept, and the bytes it covers. -/
def Keeps (grow : Prop) (H H' : MsgHeap) (p : ℕ) : Prop :=
  ∀ mp, H.parts.cell p = some mp → ∃ mp', H'.parts.cell p = some mp' ∧ KeepsPart grow mp mp' ∧
    ∀ X, H.buffers.cell mp.part = some X → ∃ X', H'.buffers.cell mp.part = some X' ∧
      SameBytes X X' mp.offset mp.dataEnd

/-- Everything is kept that the holder of `r` can come to. -/
def Frame (grow : Prop) (r : ℕ → ℕ) (H H' : MsgHeap) : Prop := ∀ p, Reach r H p → Keeps grow H H' p

theorem KeepsPart.refl (mp : MsgPart) : KeepsPart grow mp mp := ⟨rfl, rfl, Or.inl ⟨rfl, rfl⟩⟩

theorem KeepsPart.trans {mp mp' mp'' : MsgPart} (h : KeepsPart grow mp mp')
    (h' : KeepsPart grow mp' mp'') : KeepsPart grow mp mp'' := by
  refine ⟨h'.part.trans h.part, h'.offset.trans h.offset, ?_⟩
  rcases h.rest with ⟨hnext, hend⟩ | ⟨hgrow, hnone, hle⟩
  · rcases h'.rest with ⟨hnext', hend'⟩ | ⟨hgrow, hnone, hle⟩
    · exact Or.inl ⟨hnext'.trans hnext, hend'.trans hend⟩
    · exact Or.inr ⟨hgrow, hnext ▸ hnone, hend ▸ hle⟩
  · rcases h'.rest with ⟨-, hend'⟩ | ⟨-, -, hle'⟩
    · exact Or.inr ⟨hgrow, hnone, by omega⟩
    · exact Or.inr ⟨hgrow, hnone, by omega⟩

theorem KeepsPart.dataEnd_le {mp mp' : MsgPart} (h : KeepsPart grow mp mp') :
    mp.dataEnd ≤ mp'.dataEnd := by
  rcases h.rest with ⟨-, hend⟩ | ⟨-, -, hle⟩
  · omega
  · exact hle

/-- A part with a successor is kept as it is. -/
theorem KeepsPart.of_next {mp mp' : MsgPart} {q : ℕ} (h : KeepsPart grow mp mp')
    (hq : mp.next = some q) : mp'.next = some q ∧ mp'.dataEnd = mp.dataEnd := by
  rcases h.rest with ⟨hnext, hend⟩ | ⟨-, hnone, -⟩
  · exact ⟨hnext.trans hq, hend⟩
  · rw [hnone] at hq
    exact absurd hq (by simp)

/-- Without `grow`, so is every part. -/
theorem KeepsPart.exact {mp mp' : MsgPart} (h : KeepsPart False mp mp') :
    mp'.next = mp.next ∧ mp'.dataEnd = mp.dataEnd := by
  rcases h.rest with hsame | ⟨hfalse, -⟩
  · exact hsame
  · exact hfalse.elim

theorem KeepsPart.weaken {mp mp' : MsgPart} (h : KeepsPart False mp mp') :
    KeepsPart grow mp mp' :=
  ⟨h.part, h.offset, Or.inl h.exact⟩

theorem Keeps.trans {p : ℕ} (h : Keeps grow H H' p) (h' : Keeps grow H' H'' p) :
    Keeps grow H H'' p := by
  intro mp hp
  obtain ⟨mp', hp', hkeep, hX⟩ := h mp hp
  obtain ⟨mp'', hp'', hkeep', hX'⟩ := h' mp' hp'
  refine ⟨mp'', hp'', hkeep.trans hkeep', ?_⟩
  intro X hXp
  obtain ⟨X', hXp', hsame⟩ := hX X hXp
  rw [← hkeep.part] at hXp'
  obtain ⟨X'', hXp'', hsame'⟩ := hX' X' hXp'
  rw [hkeep.part] at hXp''
  refine ⟨X'', hXp'', ?_⟩
  intro i n hi hn
  have hoff := hkeep.offset
  have hend := hkeep.dataEnd_le
  rw [hsame' i n (by omega) (by omega), hsame i n hi hn]

theorem Keeps.weaken {p : ℕ} (h : Keeps False H H' p) : Keeps grow H H' p := by
  intro mp hp
  obtain ⟨mp', hp', hkeep, hX⟩ := h mp hp
  exact ⟨mp', hp', hkeep.weaken, hX⟩

/-- A part with the same contents, on a buffer with the same bytes. -/
theorem Keeps.of_eq {p : ℕ} (hpart : H'.parts.cell p = H.parts.cell p)
    (hbuffer : ∀ mp X, H.parts.cell p = some mp → H.buffers.cell mp.part = some X →
      ∃ X', H'.buffers.cell mp.part = some X' ∧ SameBytes X X' mp.offset mp.dataEnd) :
    Keeps grow H H' p := by
  intro mp hp
  exact ⟨mp, hpart.trans hp, KeepsPart.refl mp, fun X hX => hbuffer mp X hp hX⟩

theorem SameBytes.refl (X : MsgBuffer) (o e : ℕ) : SameBytes X X o e := fun _ _ _ _ => rfl

theorem Keeps.next {p q : ℕ} (h : Keeps grow H H' p) (hpq : H.Next p q) : H'.Next p q := by
  obtain ⟨mp, hp, hq⟩ := hpq
  obtain ⟨mp', hp', hkeep, -⟩ := h mp hp
  exact ⟨mp', hp', (hkeep.of_next hq).1⟩

theorem Frame.path (h : Frame grow r H H') {a p : ℕ} (ha : Reach r H a) (hp : H.Path a p) :
    H'.Path a p := by
  induction hp with
  | refl => exact Relation.ReflTransGen.refl
  | tail hab hbc ih => exact ih.tail ((h _ (ha.path hab)).next hbc)

theorem Frame.reach (h : Frame grow r H H') {p : ℕ} (hp : Reach r H p) : Reach r H' p := by
  obtain ⟨a, ha, hap⟩ := hp
  exact ⟨a, ha, h.path ⟨a, ha, Relation.ReflTransGen.refl⟩ hap⟩

theorem Frame.refl (grow : Prop) (r : ℕ → ℕ) (H : MsgHeap) : Frame grow r H H :=
  fun _ _ => Keeps.of_eq rfl (fun _ X _ hX => ⟨X, hX, SameBytes.refl X _ _⟩)

theorem Frame.trans (h : Frame grow r H H') (h' : Frame grow r H' H'') : Frame grow r H H'' :=
  fun p hp => (h p hp).trans (h' p (h.reach hp))

theorem Frame.weaken (h : Frame False r H H') : Frame grow r H H' := fun p hp => (h p hp).weaken

theorem Frame.mono (h : Frame grow r' H H') (hle : ∀ q, r q ≤ r' q) : Frame grow r H H' :=
  fun p hp => h p (hp.mono hle)

/-- Without `grow`, nothing comes within reach. -/
theorem Frame.reach_back (h : Frame False r H H') (hlive : ∀ p, Reach r H p →
    ∃ mp, H.parts.cell p = some mp) {p : ℕ} (hp : Reach r H' p) : Reach r H p := by
  obtain ⟨a, ha, hap⟩ := hp
  induction hap with
  | refl => exact ⟨a, ha, Relation.ReflTransGen.refl⟩
  | @tail b c _ hbc ih =>
    obtain ⟨mb, hb⟩ := hlive b ih
    obtain ⟨mb', hb', hkeep, -⟩ := h b ih mb hb
    obtain ⟨m, hm, hc⟩ := hbc
    rw [← Option.mem_unique hb' hm, hkeep.exact.1] at hc
    exact ih.next ⟨mb, hb, hc⟩

/-! ## Frames of single changes -/

/-- A part may be changed that is out of reach. -/
theorem Frame.setPart {p : ℕ} (mp' : MsgPart) (hp : ¬ Reach r H p) :
    Frame grow r H (H.setPart p mp') := by
  intro q hq
  have hne : q ≠ p := by
    rintro rfl
    exact hp hq
  exact Keeps.of_eq (cell_setPart_ne hne) (fun mp X _ hX => ⟨X, hX, SameBytes.refl X _ _⟩)

/-- A part may be changed in what others do not see. -/
theorem Frame.setPart_keep {p : ℕ} {mp mp' : MsgPart} (hp : H.parts.cell p = some mp)
    (hkeep : KeepsPart grow mp mp') : Frame grow r H (H.setPart p mp') := by
  intro q _
  by_cases hq : q = p
  · subst hq
    intro m hm
    rw [← Option.mem_unique hp hm]
    exact ⟨mp', cell_setPart_self hp, hkeep, fun X hX => ⟨X, hX, SameBytes.refl X _ _⟩⟩
  · exact Keeps.of_eq (cell_setPart_ne hq) (fun mp X _ hX => ⟨X, hX, SameBytes.refl X _ _⟩)

/-- A buffer may be changed where nothing within reach covers it. -/
theorem Frame.setBuffer {b : ℕ} {X X' : MsgBuffer} (hb : H.buffers.cell b = some X)
    (hsame : ∀ q mq, Reach r H q → H.parts.cell q = some mq → mq.part = b →
      SameBytes X X' mq.offset mq.dataEnd) :
    Frame grow r H (H.setBuffer b X') := by
  intro q hq
  refine Keeps.of_eq rfl ?_
  intro mq Y hmq hY
  have hcell := cell_setBuffer hb X' mq.part
  by_cases hqb : mq.part = b
  · rw [hqb, hb] at hY
    rw [if_pos hqb] at hcell
    rw [← Option.some.inj hY]
    exact ⟨X', hcell, hsame q mq hq hmq hqb⟩
  · rw [if_neg hqb] at hcell
    exact ⟨Y, hcell.trans hY, SameBytes.refl Y _ _⟩

/-- New parts and buffers do not matter. -/
theorem Frame.alloc (hparts : ∀ p mp, H.parts.cell p = some mp → H'.parts.cell p = some mp)
    (hbuffers : ∀ b X, H.buffers.cell b = some X → ∃ X', H'.buffers.cell b = some X' ∧
      X'.data = X.data) : Frame grow r H H' := by
  intro p _ mp hp
  refine ⟨mp, hparts p mp hp, KeepsPart.refl mp, ?_⟩
  intro X hX
  obtain ⟨X', hX', hdata⟩ := hbuffers _ X hX
  refine ⟨X', hX', ?_⟩
  intro i n _ _
  rw [hdata]

theorem Frame.newDataPart (hint i : ℕ) (src : Bytes) (next : Option ℕ) :
    Frame grow r H (H.newDataPart hint i src next) :=
  Frame.alloc (fun _ _ hp => Store.cell_alloc_of_some hp)
    (fun _ X hX => ⟨X, Store.cell_alloc_of_some hX, rfl⟩)

/-- The bytes outside of what is written are kept. -/
theorem slice_memcpyAt_of_le {dst src : Bytes} {i j n : ℕ} (h : j + n ≤ i) (hi : i ≤ dst.length) :
    slice (memcpyAt dst i src) j n = slice dst j n := by
  unfold slice memcpyAt
  rw [List.append_assoc, List.drop_append_of_le_length (by rw [List.length_take]; omega),
    List.take_append_of_le_length (by rw [List.length_drop, List.length_take]; omega),
    List.drop_take, List.take_take]
  congr 1
  omega

theorem slice_memcpyAt_of_ge {dst src : Bytes} {i j n : ℕ} (h : i + src.length ≤ j)
    (hi : i ≤ dst.length) : slice (memcpyAt dst i src) j n = slice dst j n := by
  unfold slice memcpyAt
  have hlen : (dst.take i ++ src).length = i + src.length := by
    rw [List.length_append, List.length_take]
    omega
  rw [List.drop_append, hlen, List.drop_of_length_le (by omega), List.nil_append, List.drop_drop]
  congr 2
  omega

/-- The bytes that are written. -/
theorem slice_memcpyAt_self {dst src : Bytes} {i : ℕ} (hi : i ≤ dst.length) :
    slice (memcpyAt dst i src) i src.length = src := by
  unfold slice memcpyAt
  have hlen : (dst.take i).length = i := by
    rw [List.length_take]
    omega
  rw [List.append_assoc, List.drop_append_of_le_length (by omega),
    List.drop_of_length_le (by omega), List.nil_append, List.take_left]

/-- **A buffer with one reference** has one part. -/
theorem Inv.part_unique (h : Inv H r) {p q b : ℕ} {mp mq : MsgPart} {X : MsgBuffer}
    (hb : H.buffers.cell b = some X) (hone : X.refcnt = 1) (hp : H.parts.cell p = some mp)
    (hpb : mp.part = b) (hq : H.parts.cell q = some mq) (hqb : mq.part = b) : q = p := by
  by_contra hne
  have hle := Store.add_le_total (w := fun mp : MsgPart => if mp.part = b then 1 else 0) hp hq
    (Ne.symm hne)
  rw [if_pos hpb, if_pos hqb] at hle
  have hcount := h.bufferRefcnt b X hb
  unfold uses at hcount
  omega

/-! ## Parts that are reached over one way only -/

/-- All parts from `f` to the part have one reference. -/
inductive Sole (H : MsgHeap) (f : ℕ) : ℕ → Prop
  | first {mf : MsgPart} (hf : H.parts.cell f = some mf) (hone : mf.refcnt = 1) : Sole H f f
  | next {p q : ℕ} {mq : MsgPart} (hp : Sole H f p) (hpq : H.Next p q)
      (hq : H.parts.cell q = some mq) (hone : mq.refcnt = 1) : Sole H f q

theorem Sole.cell {f p : ℕ} (h : Sole H f p) :
    ∃ mp, H.parts.cell p = some mp ∧ mp.refcnt = 1 := by
  cases h with
  | first hf hone => exact ⟨_, hf, hone⟩
  | next _ _ hq hone => exact ⟨_, hq, hone⟩

theorem Sole.start {f p : ℕ} (h : Sole H f p) : Sole H f f := by
  induction h with
  | first hf hone => exact Sole.first hf hone
  | next _ _ _ _ ih => exact ih

/-- The last part may get another successor. -/
theorem Sole.keep {f p : ℕ} (h : Sole H f p) (hinv : Inv H r)
    (hcells : ∀ q mq, q ≠ p → H.parts.cell q = some mq → H'.parts.cell q = some mq)
    (hlast : ∃ mp, H'.parts.cell p = some mp ∧ mp.refcnt = 1) : Sole H' f p := by
  -- a part before the last one is not the last one
  have hbefore : ∀ b, Sole H f b → H.Path b p → b ≠ p → Sole H' f b := by
    intro b hb
    induction hb with
    | first hf hone =>
      intro _ hne
      exact Sole.first (hcells f _ hne hf) hone
    | @next b c mc hb hbc hc hone ih =>
      intro hcp hne
      have hbp : b ≠ p := by
        rintro rfl
        exact hinv.not_cycle hbc hcp
      obtain ⟨mb, hcell, hnext⟩ := hbc
      exact Sole.next (ih (hcp.head ⟨mb, hcell, hnext⟩) hbp) ⟨mb, hcells b mb hbp hcell, hnext⟩
        (hcells c mc hne hc) hone
  obtain ⟨mp, hp, hone⟩ := hlast
  cases h with
  | first => exact Sole.first hp hone
  | @next b _ _ hb hbp =>
    have hne : b ≠ p := by
      rintro rfl
      exact hinv.not_cycle hbp Relation.ReflTransGen.refl
    have hb' := hbefore b hb (Relation.ReflTransGen.single hbp) hne
    obtain ⟨mb, hcell, hnext⟩ := hbp
    exact Sole.next hb' ⟨mb, hcells b mb hne hcell, hnext⟩ hp hone

/-- A part without references from outside and from other parts is out of reach. -/
theorem not_reach_of_zero {p : ℕ} (hr : r p = 0) (hlinks : H.links p = 0) : ¬ Reach r H p := by
  rintro ⟨a, ha, hap⟩
  rcases Relation.ReflTransGen.cases_tail hap with rfl | ⟨x, -, mx, hx, hxp⟩
  · omega
  · have hle := Store.le_total (w := fun mp : MsgPart => ref mp.next p) hx
    have hpos := ref_pos.mpr hxp
    unfold links at hlinks
    omega

theorem Inv.links_pos (_h : Inv H r) {p q : ℕ} (hpq : H.Next p q) : 0 < H.links q := by
  obtain ⟨mp, hp, hq⟩ := hpq
  have hle := Store.le_total (w := fun mp : MsgPart => ref mp.next q) hp
  have hpos := ref_pos.mpr hq
  unfold links
  omega

/-- A part with one reference has one part before it. -/
theorem Inv.next_unique (h : Inv H r) {p p' q : ℕ} {mq : MsgPart} (hpq : H.Next p q)
    (hpq' : H.Next p' q) (hq : H.parts.cell q = some mq) (hone : mq.refcnt = 1) : p' = p := by
  by_contra hne
  obtain ⟨mp, hp, hnext⟩ := hpq
  obtain ⟨mp', hp', hnext'⟩ := hpq'
  have hle := Store.add_le_total (w := fun mp : MsgPart => ref mp.next q) hp hp' (Ne.symm hne)
  have hpos := ref_pos.mpr hnext
  have hpos' := ref_pos.mpr hnext'
  have hcount := h.refcnt q mq hq
  unfold links at hcount
  omega

/-- **A part reached over parts with one reference** is out of reach for others. -/
theorem Sole.not_reach {f p : ℕ} (hs : Sole H f p)
    (h : Inv H (fun q => ref (some f) q + r q)) : ¬ Reach r H p := by
  induction hs with
  | first hf hone =>
    have hcount := h.refcnt f _ hf
    rw [ref_self] at hcount
    exact not_reach_of_zero (by omega) (by omega)
  | @next b c mc hb hbc hc hone ih =>
    have hcount := h.refcnt c mc hc
    have hlinks := h.links_pos hbc
    rintro ⟨a, ha, hac⟩
    rcases Relation.ReflTransGen.cases_tail hac with rfl | ⟨x, hax, hxc⟩
    · omega
    · -- the only way to `c` is over `b`
      rw [h.next_unique hbc hxc hc hone] at hax
      exact ih ⟨a, ha, hax⟩

/-! ## References given up -/

/-- The number of parts in use. -/
def live (H : MsgHeap) : ℕ := H.parts.total (fun _ => 1)

theorem live_le (H : MsgHeap) : H.live ≤ H.parts.size := Store.total_one_le_size

/-- What `msg_buffer_decref` does to a buffer. -/
theorem msgBufferDecref_spec (H : MsgHeap) {b : ℕ} {X : MsgBuffer}
    (hb : H.buffers.cell b = some X) :
    ∃ H', H.msgBufferDecref b = some H' ∧ H'.parts = H.parts ∧ ∀ a, H'.buffers.cell a =
      if a = b then (if X.refcnt = 1 then none else some { X with refcnt := X.refcnt - 1 })
      else H.buffers.cell a := by
  unfold msgBufferDecref
  rw [hb]
  by_cases hone : X.refcnt = 1
  · refine ⟨{ H with buffers := H.buffers.put b none }, if_pos hone, rfl, ?_⟩
    intro a
    rw [if_pos hone]
    exact Store.cell_put hb none a
  · refine ⟨H.setBuffer b { X with refcnt := X.refcnt - 1 }, if_neg hone, rfl, ?_⟩
    intro a
    rw [if_neg hone]
    exact cell_setBuffer hb _ a

/-- **A part is freed** that has one reference, with its reference to the buffer; the reference
to the part behind it is left. -/
theorem Inv.freePart {p : ℕ} {mp : MsgPart} {X : MsgBuffer}
    (h : Inv H (fun q => ref (some p) q + r q)) (hp : H.parts.cell p = some mp)
    (hone : mp.refcnt = 1) (hX : H.buffers.cell mp.part = some X)
    (hparts : H'.parts = H.parts.put p none)
    (hbuffers : ∀ a, H'.buffers.cell a = if a = mp.part then
      (if X.refcnt = 1 then none else some { X with refcnt := X.refcnt - 1 })
      else H.buffers.cell a) :
    Inv H' (fun q => ref mp.next q + r q) ∧ Frame False r H H' ∧ H'.live + 1 = H.live := by
  have hcell : ∀ q, H'.parts.cell q = if q = p then none else H.parts.cell q := by
    intro q
    rw [hparts]
    exact Store.cell_put hp none q
  have hcount := h.refcnt p mp hp
  rw [ref_self] at hcount
  have hzero : r p = 0 ∧ H.links p = 0 := by omega
  have hlinks : ∀ q, H'.links q + ref mp.next q = H.links q := by
    intro q
    unfold links
    rw [hparts]
    exact Store.total_put hp none
  have huses : ∀ b, H'.uses b + (if mp.part = b then 1 else 0) = H.uses b := by
    intro b
    unfold uses
    rw [hparts]
    exact Store.total_put hp none
  have hnext : ∀ a b, H'.Next a b → H.Next a b := by
    rintro a b ⟨ma, ha, hab⟩
    rw [hcell] at ha
    split_ifs at ha
    exact ⟨ma, ha, hab⟩
  -- another part keeps its buffer: it holds a reference of its own
  have hshared : ∀ q mq, q ≠ p → H.parts.cell q = some mq → mq.part = mp.part →
      X.refcnt ≠ 1 := by
    intro q mq hne hq hpart hX1
    exact hne (h.part_unique hX hX1 hp rfl hq hpart)
  refine ⟨⟨?_, ?_, ?_, ?_, ?_, ?_, ?_, ?_⟩, ?_, ?_⟩
  · intro q mq hq
    rw [hcell] at hq
    split_ifs at hq with hqp
    have hcount' := h.refcnt q mq hq
    rw [ref_of_ne (Ne.symm hqp)] at hcount'
    have := hlinks q
    omega
  · intro q mq hq
    rw [hcell] at hq
    split_ifs at hq
    exact h.counted q mq hq
  · intro q hq
    have hqp : q ≠ p := by
      rintro rfl
      have hself : ref mp.next q = 0 := by
        by_contra hne
        have hloop : H.Next q q := ⟨mp, hp, ref_pos.mp (Nat.pos_of_ne_zero hne)⟩
        exact h.not_cycle hloop Relation.ReflTransGen.refl
      omega
    rw [hcell, if_neg hqp]
    by_cases hr : 0 < r q
    · exact h.root q (by omega)
    · exact h.next p q ⟨mp, hp, ref_pos.mp (by omega)⟩
  · intro a b hab
    have hbp : b ≠ p := by
      rintro rfl
      have := h.links_pos (hnext a b hab)
      omega
    rw [hcell, if_neg hbp]
    exact h.next a b (hnext a b hab)
  · intro q
    induction h.acyclic q with
    | intro q _ ih =>
      constructor
      intro b hb
      exact ih b (hnext q b hb)
  · intro q mq hq
    rw [hcell] at hq
    split_ifs at hq with hqp
    obtain ⟨Y, hY, hle, hend⟩ := h.buffer q mq hq
    rw [hbuffers]
    by_cases hpart : mq.part = mp.part
    · rw [if_pos hpart, if_neg (hshared q mq hqp hq hpart)]
      rw [hpart, hX] at hY
      rw [← Option.some.inj hY] at hend
      exact ⟨_, rfl, hle, hend⟩
    · rw [if_neg hpart]
      exact ⟨Y, hY, hle, hend⟩
  · intro b Y hb
    rw [hbuffers] at hb
    have huses' := huses b
    split_ifs at hb with hbp hX1
    · subst hbp
      rw [if_pos rfl] at huses'
      rw [← Option.some.inj hb]
      have := h.bufferRefcnt _ X hX
      dsimp only
      omega
    · rw [if_neg (Ne.symm hbp)] at huses'
      have := h.bufferRefcnt b Y hb
      omega
  · intro b Y hb
    rw [hbuffers] at hb
    split_ifs at hb with hbp hX1
    · rw [← Option.some.inj hb]
      have := h.bufferCounted _ X hX
      dsimp only
      omega
    · exact h.bufferCounted b Y hb
  · intro q hq
    have hqp : q ≠ p := by
      rintro rfl
      exact not_reach_of_zero hzero.1 hzero.2 hq
    apply Keeps.of_eq (by rw [hcell, if_neg hqp])
    intro mq Y hmq hY
    rw [hbuffers]
    by_cases hpart : mq.part = mp.part
    · rw [if_pos hpart, if_neg (hshared q mq hqp hmq hpart)]
      rw [hpart, hX] at hY
      rw [← Option.some.inj hY]
      exact ⟨_, rfl, fun _ _ _ _ => rfl⟩
    · rw [if_neg hpart]
      exact ⟨Y, hY, SameBytes.refl Y _ _⟩
  · unfold MsgHeap.live
    rw [hparts]
    exact Store.total_put hp none

theorem msgPartDecrefLoop_spec {held : Option ℕ} (n : ℕ) {p : Option ℕ}
    (h : Inv H (fun q => ref p q + r q)) (hn : H.live < n)
    (hheld : ∀ x, held = some x → Reach r H x) :
    ∃ H', msgPartDecrefLoop held n H p = some H' ∧ Inv H' r ∧ Frame False r H H' := by
  induction n generalizing H p with
  | zero => exact absurd hn (Nat.not_lt_zero _)
  | succ n ih =>
    cases p with
    | none => exact ⟨H, rfl, h.congr (fun q => by rw [ref_none, Nat.zero_add]), Frame.refl _ _ _⟩
    | some p =>
      obtain ⟨mp, hp⟩ := h.root p (by rw [ref_self]; omega)
      obtain ⟨X, hX, hle, hend⟩ := h.buffer p mp hp
      have hpos := h.counted p mp hp
      have hcount := h.refcnt p mp hp
      rw [ref_self] at hcount
      unfold msgPartDecrefLoop
      by_cases hmany : 1 < mp.refcnt
      · -- others still use it
        refine ⟨H.setPart p { mp with refcnt := mp.refcnt - 1 }, ?_, ?_,
          Frame.setPart_keep hp ⟨rfl, rfl, Or.inl ⟨rfl, rfl⟩⟩⟩
        · rw [hp]
          exact if_pos hmany
        · refine h.setPart hp rfl hle ?_ ?_ ?_ ?_ (fun _ hq => Or.inl hq)
          · intro Y hY
            rw [← Option.mem_unique hX hY]
            exact hend
          · dsimp only
            omega
          · dsimp only
            rw [ref_self]
            omega
          · intro q hq
            dsimp only
            rw [ref_of_ne (Ne.symm hq), Nat.zero_add]
      · have hone : mp.refcnt = 1 := by omega
        have hfree : held ≠ some p := by
          intro he
          exact not_reach_of_zero (by omega) (by omega) (hheld p he)
        obtain ⟨H₁, hdec, hparts, hbuffers⟩ := msgBufferDecref_spec H hX
        have hput : ({ H₁ with parts := H₁.parts.put p none } : MsgHeap).parts
            = H.parts.put p none := by rw [hparts]
        obtain ⟨hinv, hframe, hlive⟩ := h.freePart hp hone hX hput hbuffers
        obtain ⟨H', hloop, hinv', hframe'⟩ := ih hinv (by omega)
          (fun x hx => hframe.reach (hheld x hx))
        refine ⟨H', ?_, hinv', hframe.trans hframe'⟩
        rw [hp]
        show (if 1 < mp.refcnt then _ else if mp.refcnt = 1 ∧ held ≠ some p then _ else _) = _
        rw [if_neg hmany, if_pos ⟨hone, hfree⟩, hdec]
        exact hloop

/-- **`msg_part_decref`** gives up a reference to `p`, and frees what has no other. -/
theorem msgPartDecref_spec (held : Option ℕ) {p : Option ℕ} (h : Inv H (fun q => ref p q + r q))
    (hheld : ∀ x, held = some x → Reach r H x) :
    ∃ H', H.msgPartDecref held p = some H' ∧ Inv H' r ∧ Frame False r H H' :=
  msgPartDecrefLoop_spec _ h (Nat.lt_succ_of_le H.live_le) hheld

end MsgHeap

end MtprotoProxy
