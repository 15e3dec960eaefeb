/-
# Chains after a fork

What the comment above `fork_message_chain` in `net/net-msg.c` promises: afterwards the message has
a chain of its own, whose parts have one reference each, and whose ends are the ends of the message
(`Forked`).  All appends in place rest on it.

The counts follow from the invariant of the memory alone: no other message reaches the end of the
chain, so that none reaches any part of it, and each part is referred to from the one before it.
The offset of the first part is followed through the code: nothing changes the offset of a part
behind the start of the function (`SameOffsets`).
-/
import MtprotoProxy.MsgRun

namespace MtprotoProxy

open CLib

namespace MsgHeap

variable {H H' : MsgHeap} {r : ℕ → ℕ} {held : Option ℕ}

/-! ## Parts that only one message reaches -/

/-- Of two parts behind one part, one comes behind the other. -/
theorem Path.total {p a b : ℕ} (ha : H.Path p a) (hb : H.Path p b) : H.Path a b ∨ H.Path b a :=
  Relation.ReflTransGen.total_of_right_unique (fun _ _ _ => Next.unique) ha hb

/-- The end of a chain comes behind each of its parts. -/
theorem Path.to_last {f p l : ℕ} (hp : H.Path f p) (hl : H.Path f l) (hlast : ∀ q, ¬ H.Next l q) :
    H.Path p l := by
  rcases hp.total hl with h | h
  · exact h
  · rcases Relation.ReflTransGen.cases_head h with rfl | ⟨q, hq, -⟩
    · exact Relation.ReflTransGen.refl
    · exact absurd hq (hlast q)

section OwnChain

variable {f l p : ℕ} (h : Inv H (fun q => ref (some f) q + r q)) (haway : ¬ Reach r H l)
  (hlast : ∀ q, ¬ H.Next l q) (hl : H.Path f l)

include haway hlast hl

/-- No other message reaches a part of the chain. -/
theorem not_reach_of_path (hp : H.Path f p) : ¬ Reach r H p := by
  intro hreach
  exact haway (hreach.path (hp.to_last hl hlast))

include h

/-- What goes on to a part of the chain is in the chain. -/
theorem Inv.path_of_next (hp : H.Path f p) {a : ℕ} (ha : H.Next a p) : H.Path f a := by
  obtain ⟨ma, hma, hnext⟩ := ha
  obtain ⟨b, hb, hba⟩ := h.reach hma
  dsimp only at hb
  by_cases hr : 0 < r b
  · have hreach : Reach r H p := ⟨b, hr, hba.tail ⟨ma, hma, hnext⟩⟩
    exact absurd hreach (not_reach_of_path haway hlast hl hp)
  · obtain rfl := Option.some.inj (ref_pos.mp (by omega : 0 < ref (some f) b))
    exact hba

/-- **The parts of a chain** whose end no other message reaches have one reference each. -/
theorem Inv.refcnt_eq_one {mp : MsgPart} (hp : H.Path f p) (hcell : H.parts.cell p = some mp) :
    mp.refcnt = 1 := by
  have hcount := h.refcnt p mp hcell
  have hzero : r p = 0 := by
    by_contra hne
    exact not_reach_of_path haway hlast hl hp
      ⟨p, Nat.pos_of_ne_zero hne, Relation.ReflTransGen.refl⟩
  rcases Relation.ReflTransGen.cases_tail hp with rfl | ⟨b, hb, hbp⟩
  · -- nothing goes on to the first part
    have hlinks : H.links p = 0 := by
      refine Store.total_eq_zero (fun a ma ha => ?_)
      by_contra hne
      have hap : H.Next a p := ⟨ma, ha, ref_pos.mp (Nat.pos_of_ne_zero hne)⟩
      exact h.not_cycle hap (h.path_of_next haway hlast hl hp hap)
    rw [ref_self] at hcount
    omega
  · -- the part before it is the only one that goes on to it
    have hne : f ≠ p := by
      rintro rfl
      exact h.not_cycle hbp hb
    have honly : ∀ a, H.Next a p → a = b := by
      intro a hap
      have hback : ∀ {x y : ℕ}, H.Next x p → H.Next y p → H.Path x y → x = y := by
        intro x y hx hy hxy
        rcases Relation.ReflTransGen.cases_head hxy with rfl | ⟨q, hq, hqy⟩
        · rfl
        · rw [hq.unique hx] at hqy
          exact absurd hqy (h.not_cycle hy)
      rcases (h.path_of_next haway hlast hl hp hap).total hb with hab | hba
      · exact hback hap hbp hab
      · exact (hback hbp hap hba).symm
    obtain ⟨mb, hmb, hnext⟩ := hbp
    have hlinks : H.links p = 1 := by
      have hput := Store.total_put (w := fun mp : MsgPart => ref mp.next p) hmb none
      have hrest : (H.parts.put b none).total (fun mp : MsgPart => ref mp.next p) = 0 := by
        refine Store.total_eq_zero (fun a ma ha => ?_)
        by_contra hpos
        have hab : a ≠ b := by
          rintro rfl
          rw [Store.cell_put_self hmb] at ha
          exact absurd ha (by simp)
        rw [Store.cell_put_ne hab] at ha
        exact hab (honly a ⟨ma, ha, ref_pos.mp (Nat.pos_of_ne_zero hpos)⟩)
      rw [hrest, hnext, ref_self, Option.elim_none] at hput
      unfold links
      omega
    rw [ref_of_ne hne] at hcount
    omega

end OwnChain

/-! ## Offsets -/

/-- The parts that are still in use have the offsets that they had. -/
def SameOffsets (H H' : MsgHeap) : Prop :=
  H.parts.size ≤ H'.parts.size ∧
    ∀ q < H.parts.size, ∀ mq', H'.parts.cell q = some mq' →
      ∃ mq, H.parts.cell q = some mq ∧ mq'.offset = mq.offset

theorem SameOffsets.of_parts (h : H'.parts = H.parts) : SameOffsets H H' := by
  refine ⟨h ▸ le_rfl, ?_⟩
  intro q _ mq' hq
  exact ⟨mq', h ▸ hq, rfl⟩

theorem SameOffsets.trans {H'' : MsgHeap} (h : SameOffsets H H') (h' : SameOffsets H' H'') :
    SameOffsets H H'' := by
  refine ⟨h.1.trans h'.1, ?_⟩
  intro q hq mq'' hcell
  obtain ⟨mq', hcell', heq'⟩ := h'.2 q (lt_of_lt_of_le hq h.1) mq'' hcell
  obtain ⟨mq, hcell'', heq⟩ := h.2 q hq mq' hcell'
  exact ⟨mq, hcell'', heq'.trans heq⟩

theorem SameOffsets.setPart {p : ℕ} {mp mp' : MsgPart} (hp : H.parts.cell p = some mp)
    (hoff : mp'.offset = mp.offset) : SameOffsets H (H.setPart p mp') := by
  refine ⟨le_rfl, ?_⟩
  intro q _ mq' hq
  rw [cell_setPart hp] at hq
  split at hq
  · rename_i hqp
    subst hqp
    rw [← Option.some.inj hq]
    exact ⟨mp, hp, hoff⟩
  · exact ⟨mq', hq, rfl⟩

theorem SameOffsets.newMsgPart (mp : MsgPart) : SameOffsets H (H.newMsgPart mp) := by
  refine ⟨Nat.le_succ _, ?_⟩
  intro q hlt mq' hq
  rw [MsgHeap.newMsgPart, Store.cell_alloc, if_neg (ne_of_lt hlt)] at hq
  exact ⟨mq', hq, rfl⟩

theorem SameOffsets.linkAfter {raw raw' : RawMessage} {mpl : Option ℕ} {c : ℕ}
    (hrun : H.linkAfter raw mpl c = some (H', raw')) : SameOffsets H H' := by
  cases mpl with
  | none =>
    obtain ⟨rfl, -⟩ := Prod.mk.inj (Option.some.inj hrun)
    exact .of_parts rfl
  | some m =>
    obtain ⟨mm, hm, hrun⟩ := Option.bind_eq_some_iff.mp hrun
    obtain ⟨rfl, -⟩ := Prod.mk.inj (Option.some.inj hrun)
    exact .setPart hm rfl

theorem SameOffsets.msgPartDecrefLoop {n : ℕ} {p : Option ℕ}
    (hrun : msgPartDecrefLoop held n H p = some H') : SameOffsets H H' := by
  induction n generalizing H p with
  | zero =>
    cases p with
    | none =>
      obtain rfl := Option.some.inj hrun
      exact .of_parts rfl
    | some p => exact absurd hrun (by simp [MsgHeap.msgPartDecrefLoop])
  | succ n ih =>
    cases p with
    | none =>
      obtain rfl := Option.some.inj hrun
      exact .of_parts rfl
    | some p =>
      obtain ⟨mp, hp, hrun⟩ := Option.bind_eq_some_iff.mp hrun
      split at hrun
      · obtain rfl := Option.some.inj hrun
        exact .setPart hp rfl
      · split at hrun
        · obtain ⟨H₁, hbuf, hrun⟩ := Option.bind_eq_some_iff.mp hrun
          have hparts : H₁.parts = H.parts := by
            obtain ⟨X, -, hbuf⟩ := Option.bind_eq_some_iff.mp hbuf
            split at hbuf
            · rw [← Option.some.inj hbuf]
            · rw [← Option.some.inj hbuf]
              rfl
          refine SameOffsets.trans ?_ (ih hrun)
          refine ⟨le_of_eq (congrArg Store.size hparts).symm, ?_⟩
          intro q _ mq' hq
          have hq' : (H.parts.put p none).cell q = some mq' := hparts ▸ hq
          rw [Store.cell_put hp] at hq'
          split at hq'
          · exact absurd hq' (by simp)
          · exact ⟨mq', hq', rfl⟩
        · exact absurd hrun (by simp)

/-- The first loop stops at the first part, or behind some part. -/
theorem forkSkip_start {last mpl mpl' : Option ℕ} {n p p' : ℕ} {total total' : ℤ}
    (hrun : H.forkSkip held last n mpl p total = some (mpl', p', total')) :
    (mpl' = mpl ∧ p' = p) ∨ mpl' ≠ none := by
  induction n generalizing mpl p total with
  | zero => exact absurd hrun (by simp [forkSkip])
  | succ n ih =>
    obtain ⟨mp, -, hrun⟩ := Option.bind_eq_some_iff.mp hrun
    split at hrun
    · split at hrun
      · exact absurd hrun (by simp)
      · obtain ⟨q, -, hrun⟩ := Option.bind_eq_some_iff.mp hrun
        rcases ih hrun with ⟨rfl, -⟩ | hne
        · exact Or.inr (by simp)
        · exact Or.inr hne
    · simp only [Option.some.injEq, Prod.mk.injEq] at hrun
      exact Or.inl ⟨hrun.1.symm, hrun.2.1.symm⟩

/-- **The second loop** keeps the offsets.  Behind a part it leaves the first part of the message
alone; else the first copy becomes that part, and starts with the message. -/
theorem forkCopy_offsets {n p : ℕ} {mpl : Option ℕ} {raw raw' : RawMessage} {total total' : ℤ}
    (hrun : forkCopy n H raw mpl p total = some (H', raw', total')) :
    H.parts.size < H'.parts.size ∧ SameOffsets H H' ∧ (mpl ≠ none → raw'.first = raw.first) ∧
      (mpl = none → raw'.first = some H.parts.size ∧
        (raw.first = some p → ∀ mc, H'.parts.cell H.parts.size = some mc →
          mc.offset = raw.firstOffset)) := by
  induction n generalizing H raw mpl p total with
  | zero => exact absurd hrun (by simp [forkCopy])
  | succ n ih =>
    obtain ⟨mp, hp, hrun⟩ := Option.bind_eq_some_iff.mp hrun
    obtain ⟨H₁, hinc, hrun⟩ := Option.bind_eq_some_iff.mp hrun
    obtain ⟨⟨H₂, raw₂⟩, hlink, hrun⟩ := Option.bind_eq_some_iff.mp hrun
    have hparts : H₁.parts = H.parts := by
      obtain ⟨X, -, hinc⟩ := Option.bind_eq_some_iff.mp hinc
      rw [← Option.some.inj hinc]
      rfl
    have hsize : H₁.parts.size = H.parts.size := congrArg Store.size hparts
    rw [hsize] at hlink hrun
    have hnew := SameOffsets.linkAfter hlink
    have hkept : SameOffsets H H₂ :=
      ((SameOffsets.of_parts hparts).trans (.newMsgPart _)).trans hnew
    -- the first round
    have hfirst : (mpl ≠ none → raw₂.first = raw.first) ∧
        (mpl = none → raw₂.first = some H.parts.size) := by
      cases mpl with
      | none =>
        obtain ⟨-, rfl⟩ := Prod.mk.inj (Option.some.inj hlink)
        exact ⟨fun hne => absurd rfl hne, fun _ => rfl⟩
      | some m =>
        obtain ⟨mm, -, hlink⟩ := Option.bind_eq_some_iff.mp hlink
        obtain ⟨-, rfl⟩ := Prod.mk.inj (Option.some.inj hlink)
        refine ⟨fun _ => ?_, by simp⟩
        split <;> rfl
    have hlt : H.parts.size < H₂.parts.size := by
      have hle := hnew.1
      rw [MsgHeap.newMsgPart, Store.size_alloc, hsize] at hle
      exact hle
    have hcopy : raw.first = some p → ∀ mc, H₂.parts.cell H.parts.size = some mc →
        mc.offset = raw.firstOffset := by
      intro hf mc hc
      obtain ⟨mc₁, hc₁, hoff⟩ := hnew.2 H.parts.size (by
        rw [MsgHeap.newMsgPart, Store.size_alloc, hsize]
        exact Nat.lt_succ_self _) mc hc
      rw [MsgHeap.newMsgPart, ← hsize, Store.cell_alloc_self] at hc₁
      rw [hoff, ← Option.some.inj hc₁]
      by_cases hne : raw.firstOffset = mp.offset
      · exact (if_neg (fun hb => hb.2 hne)).trans hne.symm
      · exact if_pos ⟨hf, hne⟩
    dsimp only at hrun
    split at hrun
    · -- the last part was copied
      simp only [Option.some.injEq, Prod.mk.injEq] at hrun
      obtain ⟨rfl, rfl, -⟩ := hrun
      exact ⟨hlt, hkept, hfirst.1, fun hnone => ⟨hfirst.2 hnone, hcopy⟩⟩
    · obtain ⟨q, -, hrun⟩ := Option.bind_eq_some_iff.mp hrun
      obtain ⟨hlt', hkept', hsame, -⟩ := ih hrun
      have hsame' := hsame (by simp)
      refine ⟨hlt.trans hlt', hkept.trans hkept', fun hne => hsame'.trans (hfirst.1 hne),
        fun hnone => ⟨hsame'.trans (hfirst.2 hnone), ?_⟩⟩
      intro hf mc hc
      obtain ⟨mc₂, hc₂, hoff⟩ := hkept'.2 _ hlt mc hc
      rw [hoff]
      exact hcopy hf mc₂ hc₂

/-- **The first part starts with the message** after `fork_message_chain`. -/
theorem forkMessageChain_first {f f' : ℕ} {raw raw' : RawMessage} {mf' : MsgPart}
    (hf : raw.first = some f) (hrun : H.forkMessageChain held raw = some (H', raw'))
    (hf' : raw'.first = some f') (hcell' : H'.parts.cell f' = some mf') :
    mf'.offset = raw.firstOffset := by
  unfold forkMessageChain at hrun
  rw [hf] at hrun
  dsimp only at hrun
  obtain ⟨mf, hmf, hrun⟩ := Option.bind_eq_some_iff.mp hrun
  obtain ⟨⟨mpl, p, total⟩, hstart, hrun⟩ := Option.bind_eq_some_iff.mp hrun
  obtain ⟨mp, hp, hrun⟩ := Option.bind_eq_some_iff.mp hrun
  dsimp only at hstart hp hrun
  set H₀ := if mf.refcnt = 1 then H.setPart f { mf with offset := raw.firstOffset } else H with hH₀
  have hlt : f < H₀.parts.size := by
    have hlt := Store.lt_size hmf
    rw [hH₀]
    split <;> exact hlt
  -- the first part starts with the message, if the loops may pass it
  have hok : (raw.firstOffset = mf.offset ∨ mf.refcnt = 1) → ∀ m, H₀.parts.cell f = some m →
      m.offset = raw.firstOffset := by
    intro hok m hm
    rw [hH₀] at hm
    split at hm
    · rw [cell_setPart_self hmf] at hm
      rw [← Option.some.inj hm]
    · rename_i hone
      rw [← Option.mem_unique hmf hm]
      exact (hok.resolve_right hone).symm
  have hkeep : ∀ {H₁ : MsgHeap} {m : MsgPart}, (raw.firstOffset = mf.offset ∨ mf.refcnt = 1) →
      SameOffsets H₀ H₁ → H₁.parts.cell f = some m → m.offset = raw.firstOffset := by
    intro H₁ m hokc hsame hm
    obtain ⟨m₀, hm₀, hoff⟩ := hsame.2 f hlt m hm
    rw [hoff]
    exact hok hokc m₀ hm₀
  have hstart' : (mpl = none ∧ p = f) ∨
      (mpl ≠ none ∧ (raw.firstOffset = mf.offset ∨ mf.refcnt = 1)) := by
    unfold forkStart at hstart
    split at hstart
    · rename_i hokc
      rcases forkSkip_start hstart with hsame | hne
      · exact Or.inl hsame
      · exact Or.inr ⟨hne, hokc⟩
    · simp only [Option.some.injEq, Prod.mk.injEq] at hstart
      exact Or.inl ⟨hstart.1.symm, hstart.2.1.symm⟩
  split at hrun
  · -- parts are copied
    obtain ⟨⟨H₁, raw₁, total₁⟩, hcopy, hrun⟩ := Option.bind_eq_some_iff.mp hrun
    obtain ⟨H₂, hdec, hrun⟩ := Option.bind_eq_some_iff.mp hrun
    dsimp only at hdec hrun
    split at hrun
    · obtain ⟨rfl, rfl⟩ := Prod.mk.inj (Option.some.inj hrun)
      obtain ⟨hnewlt, hsame, hbehind, hnew⟩ := forkCopy_offsets hcopy
      have hdec' := SameOffsets.msgPartDecrefLoop hdec
      rcases hstart' with ⟨rfl, rfl⟩ | ⟨hne, hokc⟩
      · obtain ⟨hfirst, hoff⟩ := hnew rfl
        obtain rfl := Option.some.inj (hf'.symm.trans hfirst)
        obtain ⟨m₁, hm₁, heq⟩ := hdec'.2 _ hnewlt mf' hcell'
        rw [heq]
        exact hoff hf m₁ hm₁
      · obtain rfl := Option.some.inj ((hbehind hne).symm.trans hf' |>.symm.trans hf)
        exact hkeep hokc (hsame.trans hdec') hcell'
    · exact absurd hrun (by simp)
  · -- the end is cut off
    rename_i hnot
    push Not at hnot
    obtain ⟨⟨H₁, total₁⟩, hcut, hrun⟩ := Option.bind_eq_some_iff.mp hrun
    dsimp only at hrun
    split at hrun
    · obtain ⟨rfl, rfl⟩ := Prod.mk.inj (Option.some.inj hrun)
      obtain rfl := Option.some.inj (hf'.symm.trans hf)
      refine hkeep hnot.1 ?_ hcell'
      obtain ⟨m, hm, hcut⟩ := Option.bind_eq_some_iff.mp hcut
      split at hcut
      · exact absurd hcut (by simp)
      · obtain ⟨H₂, hdec, hcut⟩ := Option.bind_eq_some_iff.mp hcut
        obtain ⟨rfl, -⟩ := Prod.mk.inj (Option.some.inj hcut)
        have hset : SameOffsets H₀ (H₀.setPart p
            { m with dataEnd := raw.lastOffset, next := none }) := .setPart hm rfl
        exact hset.trans (SameOffsets.msgPartDecrefLoop hdec)
    · exact absurd hrun (by simp)

/-! ## The message and the others -/

/-- **What `fork_message_chain` leaves**: the parts of the message have one reference each, it
starts where its first part starts, and ends where its last part ends, which is the last one. -/
structure Forked (H : MsgHeap) (raw : RawMessage) : Prop where
  refcnt : ∀ f p, raw.first = some f → H.Path f p →
    ∃ mp, H.parts.cell p = some mp ∧ mp.refcnt = 1
  first : ∀ f, raw.first = some f → ∃ mf, H.parts.cell f = some mf ∧ mf.offset = raw.firstOffset
  last : raw.first ≠ none → ∃ l ml, raw.last = some l ∧ H.parts.cell l = some ml ∧
    ml.dataEnd = raw.lastOffset ∧ ml.next = none

/-- One call, for a message with parts. -/
theorem forkMessageChain_forked {n f l s e : ℕ} {bs : Bytes}
    (hinv : Inv H (fun q => ref (some f) q + r q)) (hheld : ∀ x, held = some x → Reach r H x)
    (hspan : Span H n f s l e bs) :
    ∃ H' raw', H.forkMessageChain held ⟨some f, some l, bs.length, s, e⟩ = some (H', raw') ∧
      Forked H' raw' ∧ Owns H' r raw' bs ∧ Frame False r H H' := by
  obtain ⟨H', f', c', hrun, happ, hfr, haway⟩ := forkMessageChain_spec hinv hheld hspan
  obtain ⟨l', ml, hl', hml, hnone, hend⟩ := happ.last
  obtain rfl := Option.some.inj hl'
  obtain ⟨-, k, hspan'⟩ := happ.holds.span
  have hlast : ∀ q, ¬ H'.Next c' q := by
    rintro q ⟨m, hm, hq⟩
    rw [← Option.mem_unique hml hm, hnone] at hq
    exact absurd hq (by simp)
  refine ⟨H', _, hrun, ⟨?_, ?_, ?_⟩, ⟨happ.inv, happ.holds⟩, hfr⟩
  · intro f₀ p hf₀ hp
    obtain rfl := Option.some.inj hf₀
    obtain ⟨mp, hmp⟩ := happ.inv.live ((reach_ref f').path hp)
    exact ⟨mp, hmp, happ.inv.refcnt_eq_one haway hlast hspan'.path hp hmp⟩
  · intro f₀ hf₀
    obtain rfl := Option.some.inj hf₀
    obtain ⟨mf', X, hmf', -⟩ := hspan'.cell_first
    have hoff := forkMessageChain_first rfl hrun rfl hmf'
    exact ⟨mf', hmf', hoff⟩
  · intro _
    exact ⟨c', ml, rfl, hml, hend, hnone⟩

end MsgHeap

open MsgHeap

/-- **Forking a chain.**  In a memory that is in order, whatever the messages share and wherever the
message `i` starts and ends in its first and last part, `fork_message_chain` fails no assertion.
Afterwards the message has a chain of its own, every message holds the bytes that it held, and all
reference counts are exact. -/
theorem fork_message_chain {S : MsgState} {A : MessageValues} {i : ℕ} {raw : RawMessage}
    {held : Option ℕ} (h : Refines S A) (hi : S.handles.cell i = some raw)
    (hheld : ∀ x, held = some x → Reach (roots (S.handles.put i none)) S.heap x) :
    ∃ H' raw' S', S.heap.forkMessageChain held raw = some (H', raw') ∧
      S' = ⟨H', S.handles.put i (some raw')⟩ ∧ Forked H' raw' ∧ Refines S' A ∧
      (∀ k, S'.contents k = S.contents k) ∧
      (∀ p mp, S'.heap.parts.cell p = some mp → mp.refcnt = S'.references p) ∧
      ∀ b X, S'.heap.buffers.cell b = some X →
        X.refcnt = S'.heap.parts.total (fun mp => if mp.part = b then 1 else 0) := by
  obtain ⟨bs, hA, hholds⟩ := h.values.live hi
  have howns := h.owns hi hholds
  obtain ⟨H', raw', hrun, hforked, howns', hfr⟩ : ∃ H' raw',
      S.heap.forkMessageChain held raw = some (H', raw') ∧ Forked H' raw' ∧
      Owns H' (roots (S.handles.put i none)) raw' bs ∧
      MsgHeap.Frame False (roots (S.handles.put i none)) S.heap H' := by
    cases hholds with
    | clean =>
      exact ⟨S.heap, rwmClean, rfl, ⟨by simp [rwmClean], by simp [rwmClean], by simp [rwmClean]⟩,
        howns, MsgHeap.Frame.refl _ _ _⟩
    | chain hspan => exact forkMessageChain_forked howns.inv hheld hspan
  have href : Refines ⟨H', S.handles.put i (some raw')⟩ A := by
    have hput := h.put hi howns' hfr
    rwa [Store.put_self hA] at hput
  refine ⟨H', raw', _, hrun, rfl, hforked, href, ?_, href.inv.refcnt, href.inv.bufferRefcnt⟩
  intro k
  rw [href.contents, h.contents]

/-- A clone shares its part with the message that was cloned, and is forked. -/
theorem fork_message_chain_clone : ∃ S₁ S₂ out₁ out₂ raw H' raw',
    (MsgState.start (fun _ _ => 0)).step (.create [104]) = some (S₁, out₁) ∧
    S₁.step (.clone 0) = some (S₂, out₂) ∧ S₂.handles.cell 1 = some raw ∧
    S₂.heap.forkMessageChain none raw = some (H', raw') ∧ Forked H' raw' := by
  obtain ⟨S₁, S₂, out₁, out₂, -, raw, h₁, h₂, hreach, -, hraw⟩ := clone_reachable
  obtain ⟨A, hA⟩ := Reachable.refines hreach
  have hheld : ∀ x, (none : Option ℕ) = some x →
      Reach (roots (S₂.handles.put 1 none)) S₂.heap x := by simp
  obtain ⟨H', raw', -, hfork, -, hforked, -⟩ := fork_message_chain hA hraw hheld
  exact ⟨S₁, S₂, out₁, out₂, raw, H', raw', h₁, h₂, hraw, hfork, hforked⟩

end MtprotoProxy
