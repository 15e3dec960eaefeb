/-
# Forks

`fork_message_chain` gives a message a chain of parts that ends with it: parts that only this
message uses stay, the others are copied, on the same buffers.  `Copied` is what holds after each
round of its second loop.

`rwm_lock_last_part` and `rwm_lock_first_part` make a message ready for more bytes at its end or
at its front.  None of the three changes what any message holds.
-/
import MtprotoProxy.MsgSpan

namespace MtprotoProxy

open CLib

namespace MsgHeap

variable {H H' : MsgHeap} {r : ℕ → ℕ} {grow : Prop} {held : Option ℕ}

/-! ## A new part on an old buffer -/

/-- A new part on the buffer `b`. -/
def sharedPart (H : MsgHeap) (b : ℕ) (X : MsgBuffer) (next : Option ℕ) (o d : ℕ) : MsgHeap :=
  (H.setBuffer b { X with refcnt := X.refcnt + 1 }).newMsgPart ⟨1, next, b, o, d⟩

section SharedPart

variable {b o d : ℕ} {X : MsgBuffer} {next : Option ℕ}

theorem msgBufferIncref_eq (hb : H.buffers.cell b = some X) :
    H.msgBufferIncref b = some (H.setBuffer b { X with refcnt := X.refcnt + 1 }) := by
  unfold msgBufferIncref
  rw [hb]
  rfl

theorem cell_sharedPart {q : ℕ} {mq : MsgPart} (hq : H.parts.cell q = some mq) :
    (H.sharedPart b X next o d).parts.cell q = some mq :=
  Store.cell_alloc_of_some hq

theorem cell_sharedPart_self :
    (H.sharedPart b X next o d).parts.cell H.parts.size = some ⟨1, next, b, o, d⟩ :=
  Store.cell_alloc_self _

theorem buffer_sharedPart (hb : H.buffers.cell b = some X) :
    (H.sharedPart b X next o d).buffers.cell b = some { X with refcnt := X.refcnt + 1 } :=
  (cell_setBuffer hb _ b).trans (if_pos rfl)

theorem Frame.sharedPart (hb : H.buffers.cell b = some X) :
    Frame grow r H (H.sharedPart b X next o d) := by
  apply Frame.alloc (fun p mp hp => cell_sharedPart hp)
  intro a Y ha
  by_cases hab : a = b
  · subst hab
    rw [← Option.mem_unique hb ha]
    exact ⟨_, buffer_sharedPart hb, rfl⟩
  · exact ⟨Y, (cell_setBuffer hb _ a).trans ((if_neg hab).trans ha), rfl⟩

/-- The bytes of the new part. -/
theorem Span.sharedPart (hb : H.buffers.cell b = some X) (hle : o ≤ d) :
    Span (H.sharedPart b X next o d) 0 H.parts.size o H.parts.size d (slice X.data o (d - o)) :=
  Span.last (X := { X with refcnt := X.refcnt + 1 }) cell_sharedPart_self (buffer_sharedPart hb)
    le_rfl hle le_rfl

/-- Old spans stay. -/
theorem Span.sharedPart_keep {n p s l e : ℕ} {bs : Bytes} (h : Span H n p s l e bs)
    (hb : H.buffers.cell b = some X) : Span (H.sharedPart b X next o d) n p s l e bs := by
  have hframe : Frame False (fun q => ref (some p) q + 0) H (H.sharedPart b X next o d) :=
    Frame.sharedPart hb
  exact h.keep (fun q hq => hframe q ((reach_ref p).path hq))

end SharedPart

/-! ## The parts that stay -/

/-- The parts before `p` have one reference each; `mpl` is the last of them, and they have the
bytes `bs` from the place `s` of `f` on.  What is left starts at the place `o` of `p`. -/
inductive Skipped (H : MsgHeap) (f s : ℕ) : Option ℕ → ℕ → ℕ → Bytes → Prop
  | nothing : Skipped H f s none f s []
  | behind {m p o k : ℕ} {mm mp : MsgPart} {bs : Bytes} (hm : H.parts.cell m = some mm)
      (hnext : mm.next = some p) (hp : H.parts.cell p = some mp) (ho : o = mp.offset)
      (hsole : Sole H f m) (hspan : Span H k f s m mm.dataEnd bs) : Skipped H f s (some m) p o bs

/-- The part behind them belongs to them if it has one reference. -/
theorem Skipped.sole {f s p o : ℕ} {mpl : Option ℕ} {bs : Bytes} {mp : MsgPart}
    (h : Skipped H f s mpl p o bs) (hp : H.parts.cell p = some mp) (hone : mp.refcnt = 1) :
    Sole H f p := by
  cases h with
  | nothing => exact Sole.first hp hone
  | behind hm hnext _ _ hsole _ => exact hsole.next ⟨_, hm, hnext⟩ hp hone

/-- The first loop of `fork_message_chain`. -/
theorem forkSkip_spec {n fuel f p l s e : ℕ} {mpl : Option ℕ} {mp : MsgPart} {bs₁ bs₂ : Bytes}
    (hinv : Inv H (fun q => ref (some f) q + r q)) (hheld : ∀ x, held = some x → Reach r H x)
    (hskip : Skipped H f s mpl p mp.offset bs₁) (hp : H.parts.cell p = some mp)
    (hspan : Span H n p mp.offset l e bs₂) (hfuel : n < fuel) :
    ∃ mpl' p' n' mp' bs₁' bs₂', H.forkSkip held (some l) fuel mpl p bs₂.length
        = some (mpl', p', bs₂'.length) ∧
      Skipped H f s mpl' p' mp'.offset bs₁' ∧ H.parts.cell p' = some mp' ∧
      Span H n' p' mp'.offset l e bs₂' ∧ n' < fuel ∧ bs₁' ++ bs₂' = bs₁ ++ bs₂ ∧
      (mp'.refcnt = 1 → p' = l) := by
  induction fuel generalizing n p mpl mp bs₁ bs₂ with
  | zero => exact absurd hfuel (Nat.not_lt_zero _)
  | succ fuel ih =>
    unfold forkSkip
    simp only [hp, Option.bind_eq_bind, Option.bind_some]
    by_cases hgo : some p ≠ some l ∧ mp.refcnt = 1
    · have hsole := hskip.sole hp hgo.2
      have hfree : held ≠ some p := fun he => hsole.not_reach hinv (hheld p he)
      rw [if_pos hgo, if_neg hfree]
      cases hspan with
      | last => exact absurd rfl hgo.1
      | @step n _ _ q _ _ mp₀ mq X bs₂ hp₀ hX hs hle hnext hq hrest =>
        obtain rfl := Option.mem_unique hp hp₀
        obtain ⟨Y, hY, -, hend⟩ := hinv.buffer p mp hp
        obtain rfl := Option.mem_unique hX hY
        have hlen := length_slice X.data mp.offset (mp.dataEnd - mp.offset) (by omega)
        -- the bytes of `p` join the ones in front of it
        have hskip' : Skipped H f s (some p) q mq.offset
            (bs₁ ++ slice X.data mp.offset (mp.dataEnd - mp.offset)) := by
          have hend' : Span H 0 p mp.offset p mp.dataEnd
              (slice X.data mp.offset (mp.dataEnd - mp.offset)) := Span.last hp hX hs hle le_rfl
          generalize ho : mp.offset = o at hskip
          cases hskip with
          | nothing =>
            rw [ho] at hend'
            exact Skipped.behind hp hnext hq rfl hsole hend'
          | behind hm hnext' _ _ _ hspan₁ =>
            subst ho
            exact Skipped.behind hp hnext hq rfl hsole (hspan₁.append hm rfl hnext' hp hend')
        obtain ⟨mpl', p', n', mp', bs₁', bs₂', hloop, hskip'', hp', hspan', hn', hbs, hlast⟩ :=
          ih hskip' hq hrest (by omega)
        refine ⟨mpl', p', n', mp', bs₁', bs₂', ?_, hskip'', hp', hspan', by omega, ?_, hlast⟩
        · rw [hnext, Option.bind_some, ← hloop, List.length_append, hlen]
          congr 1
          omega
        · rw [hbs, List.append_assoc]
    · rw [if_neg hgo]
      refine ⟨mpl, p, n, mp, bs₁, bs₂, rfl, hskip, hp, hspan, hfuel, rfl, ?_⟩
      intro hone
      by_contra hne
      exact hgo ⟨fun he => hne (Option.some.inj he), hone⟩

/-! ## The copies -/

/-- From `f` to `c` there is a chain that only the reference to `f` reaches, and that ends at
`c`; it has the bytes `bs`. -/
structure Copied (H : MsgHeap) (r : ℕ → ℕ) (f s c d : ℕ) (bs : Bytes) : Prop where
  inv : Inv H (fun q => ref (some f) q + r q)
  sole : Sole H f c
  span : ∃ k, Span H k f s c d bs
  cell : ∃ mc, H.parts.cell c = some mc ∧ mc.next = none ∧ mc.dataEnd = d

theorem Copied.congr {r' : ℕ → ℕ} {f s c d : ℕ} {bs : Bytes} (h : Copied H r f s c d bs)
    (hr : ∀ q, r q = r' q) : Copied H r' f s c d bs := by
  rwa [← funext hr]

/-- The first copy of a chain without parts in front. -/
theorem Copied.new {p o d : ℕ} {X : MsgBuffer} {b : ℕ} {R : ℕ → ℕ} (h : Inv H R)
    (hb : H.buffers.cell b = some X) (hle : o ≤ d) (hd : d ≤ X.data.length)
    (hR : ∀ q, R q = ref (some p) q + r q) :
    Copied (H.sharedPart b X none o d) (fun q => ref (some p) q + r q) H.parts.size o
      H.parts.size d (slice X.data o (d - o)) where
  inv := h.sharePart hb (fun q => by rw [ref_none, Nat.zero_add, hR]) hle hd
  sole := Sole.first cell_sharedPart_self rfl
  span := ⟨0, Span.sharedPart hb hle⟩
  cell := ⟨_, cell_sharedPart_self, rfl, rfl⟩

/-- **A copy is linked** to a chain that only one reference reaches. -/
theorem Copied.link {f s m k b o d : ℕ} {bs : Bytes} {mm : MsgPart} {X : MsgBuffer}
    (hinv : Inv H (fun q => ref (some f) q + r q)) (hsole : Sole H f m)
    (hm : H.parts.cell m = some mm) (hspan : Span H k f s m mm.dataEnd bs)
    (hb : H.buffers.cell b = some X) (hle : o ≤ d) (hd : d ≤ X.data.length) :
    Copied ((H.sharedPart b X none o d).setPart m { mm with next := some H.parts.size })
      (fun q => ref mm.next q + r q) f s H.parts.size d (bs ++ slice X.data o (d - o)) ∧
    Frame False (fun q => ref mm.next q + r q) H
      ((H.sharedPart b X none o d).setPart m { mm with next := some H.parts.size }) := by
  have hinv₁ : Inv (H.sharedPart b X none o d)
      (fun q => ref (some H.parts.size) q + (ref (some f) q + r q)) :=
    hinv.sharePart hb (fun q => by rw [ref_none, Nat.zero_add]) hle hd
  have hm₁ : (H.sharedPart b X none o d).parts.cell m = some mm := cell_sharedPart hm
  have hmsize : m < H.parts.size := Store.lt_size hm
  have hnew : H.parts.size ≠ m := by omega
  -- the copy goes nowhere
  have hno : ¬ (H.sharedPart b X none o d).Path H.parts.size m := by
    intro hpath
    rcases Relation.ReflTransGen.cases_head hpath with heq | ⟨x, ⟨mc, hc, hnext⟩, -⟩
    · exact hnew heq
    · rw [cell_sharedPart_self] at hc
      rw [← Option.some.inj hc] at hnext
      exact absurd hnext (by simp)
  have hcell : ((H.sharedPart b X none o d).setPart m
      { mm with next := some H.parts.size }).parts.cell H.parts.size
      = some ⟨1, none, b, o, d⟩ := (cell_setPart_ne hnew).trans cell_sharedPart_self
  have hcellm : ((H.sharedPart b X none o d).setPart m
      { mm with next := some H.parts.size }).parts.cell m
      = some { mm with next := some H.parts.size } := cell_setPart_self hm₁
  obtain ⟨mm', hmm', hone⟩ := hsole.cell
  obtain rfl := Option.mem_unique hm hmm'
  refine ⟨⟨?_, ?_, ?_, ⟨_, hcell, rfl, rfl⟩⟩, ?_⟩
  · exact (hinv₁.link hm₁ hno).congr (fun q => by omega)
  · have hsole' : Sole ((H.sharedPart b X none o d).setPart m
        { mm with next := some H.parts.size }) f m := hsole.keep hinv
      (fun q mq hq hcellq => (cell_setPart_ne hq).trans (cell_sharedPart hcellq))
      ⟨_, hcellm, hone⟩
    exact Sole.next hsole' ⟨_, hcellm, rfl⟩ hcell rfl
  · have hspan₁ : Span ((H.sharedPart b X none o d).setPart m
        { mm with next := some H.parts.size }) k f s m mm.dataEnd bs :=
      (hspan.sharedPart_keep hb).setLast hinv₁ hm₁ rfl rfl le_rfl
    have hbuf : (H.sharedPart b X none o d).buffers.cell b
        = some { X with refcnt := X.refcnt + 1 } := buffer_sharedPart hb
    have htail : Span ((H.sharedPart b X none o d).setPart m
        { mm with next := some H.parts.size }) 0 H.parts.size o H.parts.size d
        (slice X.data o (d - o)) :=
      Span.last (X := { X with refcnt := X.refcnt + 1 }) hcell hbuf le_rfl hle le_rfl
    exact ⟨_, hspan₁.append hcellm rfl rfl hcell htail⟩
  · -- the end of the chain is out of reach, also from the part behind it
    have hlive : ∀ p, Reach (fun q => ref mm.next q + r q) H p →
        ∃ mp, H.parts.cell p = some mp := by
      rintro p ⟨a, ha, hap⟩
      dsimp only at ha
      have hroot : ∃ ma, H.parts.cell a = some ma := by
        by_cases hr : 0 < r a
        · exact hinv.root a (by omega)
        · exact hinv.next m a ⟨mm, hm, ref_pos.mp (by omega)⟩
      obtain ⟨ma, hma⟩ := hroot
      exact hinv.live_path hma hap
    have haway : ¬ Reach (fun q => ref mm.next q + r q) H m := by
      rintro ⟨a, ha, ham⟩
      dsimp only at ha
      by_cases hr : 0 < r a
      · exact hsole.not_reach hinv ⟨a, hr, ham⟩
      · exact hinv.not_cycle ⟨mm, hm, ref_pos.mp (by omega)⟩ ham
    have hframe : Frame False (fun q => ref mm.next q + r q) H (H.sharedPart b X none o d) :=
      Frame.sharedPart hb
    exact hframe.trans (Frame.setPart _ (fun hreach => haway (hframe.reach_back hlive hreach)))

/-- One round of the loop that copies. -/
theorem forkCopy_step {n p o d : ℕ} {raw raw₂ : RawMessage} {mpl : Option ℕ} {total : ℤ}
    {mp : MsgPart} {X : MsgBuffer} {H₂ : MsgHeap} (hp : H.parts.cell p = some mp)
    (hX : H.buffers.cell mp.part = some X)
    (ho : (if raw.first = some p ∧ raw.firstOffset ≠ mp.offset then raw.firstOffset
      else mp.offset) = o)
    (hd : (if raw.last = some p then raw.lastOffset else mp.dataEnd) = d)
    (hlink : (H.sharedPart mp.part X none o d).linkAfter
      (if raw.last = some p then { raw with last := some H.parts.size } else raw) mpl H.parts.size
      = some (H₂, raw₂)) :
    forkCopy (n + 1) H raw mpl p total =
      if raw.last = some p then some (H₂, raw₂, total - (d - o))
      else mp.next.bind (fun q =>
        forkCopy n H₂ raw₂ (some H.parts.size) q (total - (d - o))) := by
  unfold sharedPart at hlink
  rw [forkCopy]
  simp only [hp, msgBufferIncref_eq hX, some_bind, ho, hd]
  have hsize : (H.setBuffer mp.part { X with refcnt := X.refcnt + 1 }).parts.size
      = H.parts.size := rfl
  rw [hsize, hlink]
  rfl

theorem linkAfter_some {raw : RawMessage} {m c : ℕ} {mm : MsgPart}
    (hm : H.parts.cell m = some mm) :
    H.linkAfter raw (some m) c = some (H.setPart m { mm with next := some c }, raw) := by
  simp only [linkAfter, hm, some_bind]

/-- The parts from `p` on are copied behind the chain that ends at `c`. -/
theorem forkCopy_loop {n fuel p f l c d t s e : ℕ} {mp : MsgPart} {bs₁ bs₂ : Bytes}
    (hcopied : Copied H r f s c d bs₁) (hreach : Reach r H p) (hp : H.parts.cell p = some mp)
    (hspan : Span H n p mp.offset l e bs₂) (hfuel : n < fuel) :
    ∃ H' c', forkCopy fuel H ⟨some f, some l, t, s, e⟩ (some c) p bs₂.length
        = some (H', ⟨some f, some c', t, s, e⟩, 0) ∧
      Copied H' r f s c' e (bs₁ ++ bs₂) ∧ Frame False r H H' := by
  induction fuel generalizing H n p c d mp bs₁ bs₂ with
  | zero => exact absurd hfuel (Nat.not_lt_zero _)
  | succ fuel ih =>
    obtain ⟨k, hfront⟩ := hcopied.span
    obtain ⟨mc, hc, hnone, hmd⟩ := hcopied.cell
    obtain ⟨X, hX, hoff, hend⟩ := hcopied.inv.buffer p mp hp
    -- the first part of the new chain is not one of the old parts
    have hpf : f ≠ p := by
      rintro rfl
      exact hcopied.sole.start.not_reach hcopied.inv hreach
    have ho : ∀ (last : Option ℕ) (t : ℕ),
        (if (⟨some f, last, t, s, e⟩ : RawMessage).first = some p ∧
          (⟨some f, last, t, s, e⟩ : RawMessage).firstOffset ≠ mp.offset
        then (⟨some f, last, t, s, e⟩ : RawMessage).firstOffset else mp.offset) = mp.offset :=
      fun _ _ => if_neg (fun hb => hpf (Option.some.inj hb.1))
    subst hmd
    have hround : ∀ d, mp.offset ≤ d → d ≤ X.data.length →
        Copied ((H.sharedPart mp.part X none mp.offset d).setPart c
          { mc with next := some H.parts.size }) r f s H.parts.size d
          (bs₁ ++ slice X.data mp.offset (d - mp.offset)) ∧
        Frame False r H ((H.sharedPart mp.part X none mp.offset d).setPart c
          { mc with next := some H.parts.size }) := by
      intro d hle hd
      obtain ⟨hcop, hfr⟩ := Copied.link hcopied.inv hcopied.sole hc hfront hX hle hd
      refine ⟨hcop.congr (fun q => ?_), hfr.mono (fun q => ?_)⟩
      · rw [hnone, ref_none, Nat.zero_add]
      · exact Nat.le_add_left _ _
    cases hspan with
    | last hp₀ hX₀ hs hle he =>
      obtain rfl := Option.mem_unique hp hp₀
      obtain rfl := Option.mem_unique hX hX₀
      obtain ⟨hcop, hfr⟩ := hround e hle (by omega)
      refine ⟨_, _, ?_, hcop, hfr⟩
      rw [forkCopy_step (d := e) hp hX (ho _ _) (if_pos rfl)
        (by rw [if_pos rfl]; exact linkAfter_some (cell_sharedPart hc)), if_pos rfl,
        length_slice _ _ _ (by omega)]
      congr 3
      omega
    | @step n _ _ q _ _ mp₀ mq _ bs₂ hp₀ hX₀ hs hle hnext hq hrest =>
      have hpl : l ≠ p :=
        ((Span.step hp₀ hX₀ hs hle hnext hq hrest).first_ne_last hcopied.inv).symm
      obtain rfl := Option.mem_unique hp hp₀
      obtain rfl := Option.mem_unique hX hX₀
      obtain ⟨hcop, hfr⟩ := hround mp.dataEnd hle hend
      -- the rest of the old chain is as it was
      have hqreach := hreach.next ⟨mp, hp, hnext⟩
      obtain ⟨mq', hq', hqkeep, -⟩ := hfr q hqreach mq hq
      have hrest' := hrest.keep (fun x hx => hfr x (hqreach.path hx))
      rw [← hqkeep.offset] at hrest'
      obtain ⟨H', c', hloop, hcop', hfr'⟩ := ih hcop (hfr.reach hqreach) hq' hrest'
        (by omega)
      refine ⟨H', c', ?_, by rwa [List.append_assoc] at hcop', hfr.trans hfr'⟩
      have hlast : (some l : Option ℕ) ≠ some p := fun he => hpl (Option.some.inj he)
      rw [forkCopy_step (d := mp.dataEnd) hp hX (ho _ _) (if_neg hlast)
        (by rw [if_neg hlast]; exact linkAfter_some (cell_sharedPart hc)), if_neg hlast, hnext,
        Option.bind_some, ← hloop, List.length_append, length_slice _ _ _ (by omega)]
      congr 1
      omega

/-- **The second loop of `fork_message_chain`** gives the message a chain that only it reaches;
the reference to the parts that were copied is left. -/
theorem forkCopy_spec {n fuel f p o l t s e : ℕ} {mpl : Option ℕ} {bs₁ bs₂ : Bytes}
    (hinv : Inv H (fun q => ref (some f) q + r q)) (hskip : Skipped H f s mpl p o bs₁)
    (hspan : Span H n p o l e bs₂) (hfuel : n < fuel) :
    ∃ H' f' c', forkCopy fuel H ⟨some f, some l, t, s, e⟩ mpl p bs₂.length
        = some (H', ⟨some f', some c', t, s, e⟩, 0) ∧
      Copied H' (fun q => ref (some p) q + r q) f' s c' e (bs₁ ++ bs₂) ∧ Frame False r H H' := by
  obtain ⟨fuel, rfl⟩ : ∃ k, fuel = k + 1 := ⟨fuel - 1, by omega⟩
  obtain ⟨mp, X, hp, hX, hoff, -⟩ := hspan.cell_first
  obtain ⟨Y, hY, -, hend⟩ := hinv.buffer p mp hp
  obtain rfl := Option.mem_unique hX hY
  have hle : ∀ q, r q ≤ ref (some p) q + r q := fun q => Nat.le_add_left _ _
  -- the first copy starts where what is left starts
  have ho : ∀ (last : Option ℕ) (t : ℕ),
      (if (⟨some f, last, t, s, e⟩ : RawMessage).first = some p ∧
        (⟨some f, last, t, s, e⟩ : RawMessage).firstOffset ≠ mp.offset
      then (⟨some f, last, t, s, e⟩ : RawMessage).firstOffset else mp.offset) = o := by
    intro last t
    dsimp only
    cases hskip with
    | nothing =>
      split_ifs with hs
      · rfl
      · by_contra hne
        exact hs ⟨rfl, fun he => hne he.symm⟩
    | behind hm hnext hp' ho' hsole hspan₁ =>
      rw [hp] at hp'
      rw [if_neg, ho', ← Option.some.inj hp']
      rintro ⟨hfp, -⟩
      rw [Option.some.inj hfp] at hspan₁
      exact hinv.not_cycle ⟨_, hm, hnext⟩ hspan₁.path
  -- the first copy, wherever it is linked
  have hround : ∀ d last t, o ≤ d → d ≤ X.data.length → ∃ H₂ f',
      (H.sharedPart mp.part X none o d).linkAfter ⟨some f, last, t, s, e⟩ mpl H.parts.size
        = some (H₂, ⟨some f', last, t, s, e⟩) ∧
      Copied H₂ (fun q => ref (some p) q + r q) f' s H.parts.size d
        (bs₁ ++ slice X.data o (d - o)) ∧
      Frame False (fun q => ref (some p) q + r q) H H₂ := by
    intro d last t hod hd
    cases hskip with
    | nothing =>
      exact ⟨_, _, rfl, Copied.new hinv hX hod hd (fun q => rfl), Frame.sharedPart hX⟩
    | @behind m _ _ k mm mp' bs₁ hm hnext hp' ho' hsole hspan₁ =>
      obtain ⟨hcop, hfr⟩ := Copied.link hinv hsole hm hspan₁ hX hod hd
      rw [hnext] at hcop hfr
      exact ⟨_, _, linkAfter_some (cell_sharedPart hm), hcop, hfr⟩
  cases hspan with
  | last hp₀ hX₀ hs hle' he =>
    obtain rfl := Option.mem_unique hp hp₀
    obtain rfl := Option.mem_unique hX hX₀
    obtain ⟨H₂, f', hlink, hcop, hfr⟩ := hround e (some H.parts.size) t hle' (by omega)
    refine ⟨H₂, f', H.parts.size, ?_, hcop, hfr.mono hle⟩
    rw [forkCopy_step (d := e) hp hX (ho _ _) (if_pos rfl) (by rw [if_pos rfl]; exact hlink),
      if_pos rfl, length_slice _ _ _ (by omega)]
    congr 3
    omega
  | @step n _ _ q _ _ mp₀ mq _ bs₂ hp₀ hX₀ hs hle' hnext hq hrest =>
    have hpl : l ≠ p := ((Span.step hp₀ hX₀ hs hle' hnext hq hrest).first_ne_last hinv).symm
    obtain rfl := Option.mem_unique hp hp₀
    obtain rfl := Option.mem_unique hX hX₀
    obtain ⟨H₂, f', hlink, hcop, hfr⟩ := hround mp.dataEnd (some l) t hle' hend
    have hqreach : Reach (fun q => ref (some p) q + r q) H q :=
      (reach_ref p).next ⟨mp, hp, hnext⟩
    obtain ⟨mq', hq', hqkeep, -⟩ := hfr q hqreach mq hq
    have hrest' := hrest.keep (fun x hx => hfr x (hqreach.path hx))
    rw [← hqkeep.offset] at hrest'
    obtain ⟨H', c', hloop, hcop', hfr'⟩ :=
      forkCopy_loop (t := t) hcop (hfr.reach hqreach) hq' hrest' (by omega : n < fuel)
    refine ⟨H', f', c', ?_, by rwa [List.append_assoc] at hcop', (hfr.trans hfr').mono hle⟩
    have hlast : (some l : Option ℕ) ≠ some p := fun he => hpl (Option.some.inj he)
    rw [forkCopy_step (d := mp.dataEnd) hp hX (ho _ _) (if_neg hlast)
      (by rw [if_neg hlast]; exact hlink), if_neg hlast, hnext,
      Option.bind_some, ← hloop, List.length_append, length_slice _ _ _ (by omega)]
    congr 1
    omega

/-! ## The three functions -/

/-- A message that more bytes can be put behind: it ends where its last part ends. -/
structure Appendable (H : MsgHeap) (r : ℕ → ℕ) (raw : RawMessage) (bs : Bytes) : Prop where
  inv : Inv H (fun q => ref raw.first q + r q)
  holds : Holds H raw bs
  last : ∃ l ml, raw.last = some l ∧ H.parts.cell l = some ml ∧ ml.next = none ∧
    ml.dataEnd = raw.lastOffset

theorem Appendable.last_cell {raw : RawMessage} {bs : Bytes} {l : ℕ} {ml : MsgPart}
    (h : Appendable H r raw bs) (hlast : raw.last = some l) (hl : H.parts.cell l = some ml) :
    ml.next = none ∧ ml.dataEnd = raw.lastOffset := by
  obtain ⟨l', ml', hlast', hl', hend⟩ := h.last
  obtain rfl := Option.mem_unique hlast hlast'
  obtain rfl := Option.mem_unique hl hl'
  exact hend

theorem Frame.not_reach {p : ℕ} {R : ℕ → ℕ} (hframe : Frame False r H H')
    (hinv : Inv H (fun q => R q + r q)) (hp : ¬ Reach r H p) : ¬ Reach r H' p := by
  intro hreach
  refine hp (hframe.reach_back ?_ hreach)
  intro q hq
  exact hinv.live (hq.mono (fun x => Nat.le_add_left _ _))

/-- The end of a chain that was copied, once the reference to the old parts is given up. -/
theorem Copied.appendable {R : ℕ → ℕ} {f s c d : ℕ} {bs : Bytes} (h : Copied H R f s c d bs)
    (hinv : Inv H' (fun q => ref (some f) q + r q))
    (hframe : Frame False (fun q => ref (some f) q + r q) H H') (hle : ∀ q, r q ≤ R q) :
    Appendable H' r ⟨some f, some c, bs.length, s, d⟩ bs ∧ ¬ Reach r H' c := by
  obtain ⟨k, hspan⟩ := h.span
  obtain ⟨mc, hc, hnone, hd⟩ := h.cell
  have hchain : ∀ x, H.Path f x → Keeps False H H' x := fun x hx =>
    hframe x ((reach_ref f).path hx)
  obtain ⟨mc', hc', hkeep, -⟩ := hchain c hspan.path mc hc
  refine ⟨⟨hinv, Holds.chain (hspan.keep hchain), c, mc', rfl, hc', ?_, ?_⟩, ?_⟩
  · rw [hkeep.exact.1, hnone]
  · rw [hkeep.exact.2, hd]
  · have haway : ¬ Reach r H c := fun hreach => h.sole.not_reach h.inv (hreach.mono hle)
    intro hreach
    refine haway ((hframe.mono (fun q => Nat.le_add_left _ _)).reach_back ?_ hreach)
    intro q hq
    exact h.inv.live (hq.mono (fun x => (hle x).trans (Nat.le_add_left _ _)))

/-- The branch of `fork_message_chain` that copies. -/
theorem fork_copy {n f p o l t s e : ℕ} {mpl : Option ℕ} {bs₁ bs₂ : Bytes}
    (hinv : Inv H (fun q => ref (some f) q + r q)) (hheld : ∀ x, held = some x → Reach r H x)
    (hskip : Skipped H f s mpl p o bs₁) (hspan : Span H n p o l e bs₂)
    (ht : t = (bs₁ ++ bs₂).length) :
    ∃ H' f' c', (do
      let (H, raw, total) ← forkCopy (H.parts.size + 1) H ⟨some f, some l, t, s, e⟩ mpl p bs₂.length
      let H ← H.msgPartDecref held (some p)
      if total = 0 then some (H, raw) else none) = some (H', ⟨some f', some c', t, s, e⟩) ∧
      Appendable H' r ⟨some f', some c', t, s, e⟩ (bs₁ ++ bs₂) ∧ Frame False r H H' ∧
      ¬ Reach r H' c' := by
  obtain ⟨H₁, f', c', hcopy, hcop, hfr⟩ := forkCopy_spec (t := t) hinv hskip hspan
    (Nat.lt_succ_of_lt (hspan.lt_size hinv))
  have hinv₁ : Inv H₁ (fun q => ref (some p) q + (ref (some f') q + r q)) :=
    hcop.inv.congr (fun q => by omega)
  have hle : ∀ q, r q ≤ ref (some f') q + r q := fun q => Nat.le_add_left _ _
  obtain ⟨H₂, hdec, hinv₂, hfr₂⟩ := msgPartDecref_spec held hinv₁
    (fun x hx => (hfr.reach (hheld x hx)).mono hle)
  obtain ⟨happ, haway⟩ := hcop.appendable hinv₂ hfr₂ (fun q => Nat.le_add_left _ _)
  subst ht
  refine ⟨H₂, f', c', ?_, happ, hfr.trans (hfr₂.mono hle), haway⟩
  simp only [hcopy, hdec, some_bind, if_true]

/-- The branch of `fork_message_chain` for a chain that only this message reaches. -/
theorem fork_cut {n f l s e : ℕ} {bs bs₂ : Bytes} {ml : MsgPart}
    (hinv : Inv H (fun q => ref (some f) q + r q)) (hheld : ∀ x, held = some x → Reach r H x)
    (hsole : Sole H f l) (hl : H.parts.cell l = some ml) (hspan : Span H n f s l e bs)
    (hrest : Span H 0 l ml.offset l e bs₂) :
    ∃ H', (do
      let (H, total) ← H.forkCut held ⟨some f, some l, bs.length, s, e⟩ l bs₂.length
      if total = 0 then some (H, (⟨some f, some l, bs.length, s, e⟩ : RawMessage)) else none)
        = some (H', ⟨some f, some l, bs.length, s, e⟩) ∧
      Appendable H' r ⟨some f, some l, bs.length, s, e⟩ bs ∧ Frame False r H H' ∧
      ¬ Reach r H' l := by
  obtain ⟨ml', X, hl', hX, hoff, hle⟩ := hspan.cell_last
  obtain rfl := Option.mem_unique hl hl'
  obtain ⟨Y, hY, -, hend⟩ := hinv.buffer l ml hl
  obtain rfl := Option.mem_unique hX hY
  have haway := hsole.not_reach hinv
  have hfree : held ≠ some l := fun he => haway (hheld l he)
  -- the last part ends with the message, and lets go of what is behind it
  have hinv₁ := hinv.cut hl hoff (fun Y hY => by
    rw [← Option.mem_unique hX hY]
    exact hle.trans hend)
  have hfr₁ : Frame False r H (H.setPart l { ml with dataEnd := e, next := none }) :=
    Frame.setPart _ haway
  have hspan₁ : Span (H.setPart l { ml with dataEnd := e, next := none }) n f s l e bs :=
    hspan.setLast hinv hl rfl rfl le_rfl
  obtain ⟨H₂, hdec, hinv₂, hfr₂⟩ := msgPartDecref_spec held hinv₁
    (fun x hx => (hfr₁.reach (hheld x hx)).mono (fun q => Nat.le_add_left _ _))
  have hchain : ∀ x, (H.setPart l { ml with dataEnd := e, next := none }).Path f x →
      Keeps False _ H₂ x := fun x hx => hfr₂ x ((reach_ref f).path hx)
  obtain ⟨ml', hl', hkeep, -⟩ := hchain l hspan₁.path _ (cell_setPart_self hl)
  have hfr₂' : Frame False r (H.setPart l { ml with dataEnd := e, next := none }) H₂ :=
    hfr₂.mono (fun q => Nat.le_add_left _ _)
  have hfr : Frame False r H H₂ := hfr₁.trans hfr₂'
  refine ⟨H₂, ?_, ⟨hinv₂, Holds.chain (hspan₁.keep hchain), l, ml', rfl, hl', ?_, ?_⟩, hfr, ?_⟩
  · cases hrest with
    | last hp₀ hX₀ _ hle' he' =>
      obtain rfl := Option.mem_unique hl hp₀
      obtain rfl := Option.mem_unique hX hX₀
      have hlen := length_slice X.data ml.offset (e - ml.offset) (by omega)
      unfold forkCut
      simp only [hl, some_bind, if_neg hfree, hdec, hlen]
      rw [if_pos (by omega)]
  · exact hkeep.exact.1
  · exact hkeep.exact.2
  · exact hfr.not_reach hinv haway

/-- **`fork_message_chain`** gives the message an end that no other message reaches. -/
theorem forkMessageChain_spec {n f l s e : ℕ} {bs : Bytes}
    (hinv : Inv H (fun q => ref (some f) q + r q)) (hheld : ∀ x, held = some x → Reach r H x)
    (hspan : Span H n f s l e bs) :
    ∃ H' f' c', H.forkMessageChain held ⟨some f, some l, bs.length, s, e⟩
        = some (H', ⟨some f', some c', bs.length, s, e⟩) ∧
      Appendable H' r ⟨some f', some c', bs.length, s, e⟩ bs ∧ Frame False r H H' ∧
      ¬ Reach r H' c' := by
  obtain ⟨mf, X, hf, hX, hoff, hle⟩ := hspan.cell_first
  obtain ⟨Y, hY, -, hend⟩ := hinv.buffer f mf hf
  obtain rfl := Option.mem_unique hX hY
  -- the first part starts with the message if nothing else uses it
  obtain ⟨H₀, mf₀, hH₀, hinv₀, hspan₀, hfr₀, hf₀, hok, hone⟩ : ∃ H₀ mf₀,
      (if mf.refcnt = 1 then H.setPart f { mf with offset := s } else H) = H₀ ∧
      Inv H₀ (fun q => ref (some f) q + r q) ∧ Span H₀ n f s l e bs ∧ Frame False r H H₀ ∧
      H₀.parts.cell f = some mf₀ ∧ ((s = mf.offset ∨ mf.refcnt = 1) → mf₀.offset = s) ∧
      H₀.parts.size = H.parts.size := by
    by_cases h1 : mf.refcnt = 1
    · refine ⟨_, { mf with offset := s }, if_pos h1, ?_, ?_, ?_, cell_setPart_self hf,
        fun _ => rfl, rfl⟩
      · refine hinv.setRange hf hle (fun Y hY => ?_)
        rw [← Option.mem_unique hX hY]
        exact hend
      · exact hspan.setFirst hinv hf rfl rfl le_rfl rfl
      · exact Frame.setPart _ ((Sole.first hf h1).not_reach hinv)
    · refine ⟨H, mf, if_neg h1, hinv, hspan, Frame.refl _ _ _, hf, ?_, rfl⟩
      rintro (hs | h1')
      · exact hs.symm
      · exact absurd h1' h1
  have hheld₀ : ∀ x, held = some x → Reach r H₀ x := fun x hx => hfr₀.reach (hheld x hx)
  obtain ⟨mpl, p, n', o, mp, bs₁, bs₂, hloop, hskip, hp, hrest, hbs, hlast⟩ :
      ∃ mpl p n' o mp bs₁ bs₂, H₀.forkStart held ⟨some f, some l, bs.length, s, e⟩ f
          (s = mf.offset ∨ mf.refcnt = 1) = some (mpl, p, (bs₂.length : ℤ)) ∧
      Skipped H₀ f s mpl p o bs₁ ∧ H₀.parts.cell p = some mp ∧ Span H₀ n' p o l e bs₂ ∧
      bs₁ ++ bs₂ = bs ∧
      ((s = mf.offset ∨ mf.refcnt = 1) → mp.refcnt = 1 → p = l ∧ o = mp.offset) := by
    unfold forkStart
    by_cases hokc : s = mf.offset ∨ mf.refcnt = 1
    · have hs := hok hokc
      have hskip₀ : Skipped H₀ f s none f mf₀.offset [] := by
        rw [hs]
        exact Skipped.nothing
      have hspan₀' := hspan₀
      rw [← hs] at hspan₀'
      obtain ⟨mpl, p, n', mp, bs₁, bs₂, hloop, hskip, hp, hrest, -, hbs, hlast⟩ :=
        forkSkip_spec hinv₀ hheld₀ hskip₀ hf₀ hspan₀'
          (Nat.lt_succ_of_lt (hspan₀'.lt_size hinv₀))
      refine ⟨mpl, p, n', mp.offset, mp, bs₁, bs₂, ?_, hskip, hp, hrest, hbs,
        fun _ h1 => ⟨hlast h1, rfl⟩⟩
      rw [if_pos hokc]
      exact hloop
    · exact ⟨none, f, n, s, mf₀, [], bs, if_neg hokc, Skipped.nothing, hf₀, hspan₀, rfl,
        fun hb => absurd hb hokc⟩
  unfold forkMessageChain
  simp only [hf, Option.bind_eq_bind, Option.bind_some]
  rw [hH₀, hloop]
  simp only [hp, Option.bind_some]
  by_cases hcut : (s = mf.offset ∨ mf.refcnt = 1) ∧ mp.refcnt = 1
  · obtain ⟨rfl, rfl⟩ := hlast hcut.1 hcut.2
    cases n' with
    | succ n' => exact absurd rfl (hrest.first_ne_last hinv₀)
    | zero =>
      obtain ⟨H', hrun, happ, hfr, haway⟩ := fork_cut hinv₀ hheld₀ (hskip.sole hp hcut.2) hp
        hspan₀ hrest
      refine ⟨H', f, p, ?_, happ, hfr₀.trans hfr, haway⟩
      rw [if_neg]
      · exact hrun
      · rintro (hb | hb | hb)
        · exact hb hcut.1
        · exact hb hcut.2
        · exact hb rfl
  · obtain ⟨H', f', c', hrun, happ, hfr, haway⟩ := fork_copy hinv₀ hheld₀ hskip hrest
      (congrArg List.length hbs).symm
    rw [hbs] at happ
    refine ⟨H', f', c', ?_, happ, hfr₀.trans hfr, haway⟩
    rw [if_pos]
    · exact hrun
    · by_cases hb : s = mf.offset ∨ mf.refcnt = 1
      · exact Or.inr (Or.inl (fun h1 => hcut ⟨hb, h1⟩))
      · exact Or.inl hb

/-- **`rwm_lock_last_part`** makes a message ready for more bytes: either its last part is
locked, or no other message reaches that part. -/
theorem rwmLockLastPart_spec (held : Option ℕ) {n f l s e : ℕ} {bs : Bytes}
    (hinv : Inv H (fun q => ref (some f) q + r q)) (hheld : ∀ x, held = some x → Reach r H x)
    (hspan : Span H n f s l e bs) :
    ∃ locked H' f' l', H.rwmLockLastPart held ⟨some f, some l, bs.length, s, e⟩
        = some (locked, H', ⟨some f', some l', bs.length, s, e⟩) ∧
      Appendable H' r ⟨some f', some l', bs.length, s, e⟩ bs ∧ Frame False r H H' ∧
      ((locked = some l' ∧ H' = H ∧ f' = f ∧ l' = l ∧ held ≠ some l) ∨
        (locked = none ∧ ¬ Reach r H' l')) := by
  obtain ⟨ml, X, hl, -, -, hle⟩ := hspan.cell_last
  obtain ⟨H', f', c', hfork, happ, hfr, haway⟩ := forkMessageChain_spec hinv hheld hspan
  unfold rwmLockLastPart
  simp only [hl, some_bind]
  by_cases hsub : ml.next.isSome ∨ e ≠ ml.dataEnd
  · refine ⟨none, H', f', c', ?_, happ, hfr, Or.inr ⟨rfl, haway⟩⟩
    rw [if_pos hsub, if_pos hle, hfork, Option.map_some]
  · rw [if_neg hsub]
    by_cases hlocked : held = some l
    · refine ⟨none, H', f', c', ?_, happ, hfr, Or.inr ⟨rfl, haway⟩⟩
      rw [if_pos hlocked, hfork, Option.map_some]
    · push Not at hsub
      refine ⟨some l, H, f, l, if_neg hlocked, ?_, Frame.refl _ _ _,
        Or.inl ⟨rfl, rfl, rfl, rfl, hlocked⟩⟩
      refine ⟨hinv, Holds.chain hspan, l, ml, rfl, hl, ?_, hsub.2.symm⟩
      simpa using hsub.1

/-- A part without a successor stays one. -/
theorem Keeps.last {p : ℕ} {mp : MsgPart} (h : Keeps False H H' p) (hp : H.parts.cell p = some mp)
    (hnone : mp.next = none) : ∃ mp', H'.parts.cell p = some mp' ∧ mp'.next = none := by
  obtain ⟨mp', hp', hkeep, -⟩ := h mp hp
  exact ⟨mp', hp', hkeep.exact.1.trans hnone⟩

/-- **`rwm_lock_first_part`** makes the first part of a message start with it. -/
theorem rwmLockFirstPart_spec (held : Option ℕ) {n f l s e : ℕ} {bs : Bytes}
    (hinv : Inv H (fun q => ref (some f) q + r q)) (hheld : ∀ x, held = some x → Reach r H x)
    (hspan : Span H n f s l e bs) :
    ∃ H' n' f' l' mf', H.rwmLockFirstPart held ⟨some f, some l, bs.length, s, e⟩
        = some (H', ⟨some f', some l', bs.length, s, e⟩) ∧
      Inv H' (fun q => ref (some f') q + r q) ∧ Span H' n' f' s l' e bs ∧ Frame False r H H' ∧
      H'.parts.cell f' = some mf' ∧ mf'.offset = s ∧ (l' = l ∨ l' = H.parts.size) ∧
      ∀ ml, H.parts.cell l = some ml → ml.next = none →
        ∃ ml', H'.parts.cell l' = some ml' ∧ ml'.next = none := by
  obtain ⟨mf, X, hf, hX, hoff, hle⟩ := hspan.cell_first
  obtain ⟨Y, hY, -, hend⟩ := hinv.buffer f mf hf
  obtain rfl := Option.mem_unique hX hY
  have hle₀ : ∀ x q, r q ≤ ref x q + r q := fun x q => Nat.le_add_left _ _
  unfold rwmLockFirstPart
  simp only [hf, Option.bind_eq_bind, Option.bind_some]
  by_cases hone : mf.refcnt = 1
  · -- nothing else uses the first part
    refine ⟨H.setPart f { mf with offset := s }, n, f, l, { mf with offset := s }, if_pos hone, ?_,
      hspan.setFirst hinv hf rfl rfl le_rfl rfl,
      Frame.setPart _ ((Sole.first hf hone).not_reach hinv), cell_setPart_self hf, rfl,
      Or.inl rfl, ?_⟩
    · refine hinv.setRange hf hle (fun Y hY => ?_)
      rw [← Option.mem_unique hX hY]
      exact hend
    · intro ml hl hnone
      rw [cell_setPart hf]
      split_ifs with hlf
      · rw [hlf, hf] at hl
        rw [← Option.some.inj hl] at hnone
        exact ⟨_, rfl, hnone⟩
      · exact ⟨ml, hl, hnone⟩
  · rw [if_neg hone]
    by_cases hsame : mf.offset = s
    · exact ⟨H, n, f, l, mf, if_pos hsame, hinv, hspan, Frame.refl _ _ _, hf, hsame, Or.inl rfl,
        fun ml hl hnone => ⟨ml, hl, hnone⟩⟩
    · rw [if_neg hsame, msgBufferIncref_eq hX, Option.bind_some]
      cases hspan with
      | last hp₀ hX₀ hs hle' he =>
        obtain rfl := Option.mem_unique hf hp₀
        obtain rfl := Option.mem_unique hX hX₀
        have hcop := Copied.new hinv hX hle' (by omega : e ≤ X.data.length) (fun q => rfl)
        have hinv₁ : Inv (H.sharedPart mf.part X none s e)
            (fun q => ref (some f) q + (ref (some H.parts.size) q + r q)) :=
          hcop.inv.congr (fun q => by omega)
        have hfr₁ : Frame False r H (H.sharedPart mf.part X none s e) := Frame.sharedPart hX
        obtain ⟨H₂, hdec, hinv₂, hfr₂⟩ := msgPartDecref_spec held hinv₁
          (fun x hx => (hfr₁.reach (hheld x hx)).mono (hle₀ _))
        have hchain := fun x (hx : (H.sharedPart mf.part X none s e).Path H.parts.size x) =>
          hfr₂ x ((reach_ref H.parts.size).path hx)
        obtain ⟨mc', hc', hkeep, -⟩ := hchain _ Relation.ReflTransGen.refl _ cell_sharedPart_self
        refine ⟨H₂, 0, H.parts.size, H.parts.size, mc', ?_, hinv₂,
          (Span.sharedPart hX hle').keep hchain, hfr₁.trans (hfr₂.mono (hle₀ _)), hc',
          hkeep.offset, Or.inr rfl, fun _ _ _ => ⟨mc', hc', hkeep.exact.1⟩⟩
        rw [if_pos rfl]
        unfold sharedPart at hdec
        rw [hdec]
        rfl
      | @step n _ _ q _ _ mp₀ mq _ bs hp₀ hX₀ hs hle' hnext hq hrest =>
        have hne := (Span.step hp₀ hX₀ hs hle' hnext hq hrest).first_ne_last hinv
        obtain rfl := Option.mem_unique hf hp₀
        obtain rfl := Option.mem_unique hX hX₀
        -- the copy goes on to the same part
        obtain ⟨H₁, hinc, rfl, hinv₁⟩ := msgPartIncref_inv hinv hq
        have hX₁ : (H.setPart q { mq with refcnt := mq.refcnt + 1 }).buffers.cell mf.part
            = some X := hX
        have hinv₂ : Inv ((H.setPart q { mq with refcnt := mq.refcnt + 1 }).sharedPart mf.part X
            (some q) s mf.dataEnd)
            (fun q => ref (some H.parts.size) q + (ref (some f) q + r q)) :=
          hinv₁.sharePart hX₁ (fun q => rfl) hle hend
        have hcount : KeepsPart False mq { mq with refcnt := mq.refcnt + 1 } :=
          ⟨rfl, rfl, Or.inl ⟨rfl, rfl⟩⟩
        have hfr₂ : Frame False (fun q => ref (some f) q + r q) H
            ((H.setPart q { mq with refcnt := mq.refcnt + 1 }).sharedPart mf.part X (some q) s
              mf.dataEnd) :=
          (Frame.setPart_keep hq hcount).trans (Frame.sharedPart hX₁)
        have hqreach : Reach (fun q => ref (some f) q + r q) H q :=
          (reach_ref f).next ⟨mf, hf, hnext⟩
        obtain ⟨mq', hq', hqkeep, -⟩ := hfr₂ q hqreach mq hq
        have hrest' : Span ((H.setPart q { mq with refcnt := mq.refcnt + 1 }).sharedPart mf.part X
            (some q) s mf.dataEnd) n q mq'.offset l e bs := by
          rw [hqkeep.offset]
          exact hrest.keep (fun x hx => hfr₂ x (hqreach.path hx))
        have hc₂ : ((H.setPart q { mq with refcnt := mq.refcnt + 1 }).sharedPart mf.part X
            (some q) s mf.dataEnd).parts.cell H.parts.size
            = some ⟨1, some q, mf.part, s, mf.dataEnd⟩ := cell_sharedPart_self
        have hX₂ : ((H.setPart q { mq with refcnt := mq.refcnt + 1 }).sharedPart mf.part X
            (some q) s mf.dataEnd).buffers.cell mf.part
            = some { X with refcnt := X.refcnt + 1 } := buffer_sharedPart hX₁
        have hspan₂ := Span.step hc₂ hX₂ le_rfl hle rfl hq' hrest'
        have hinv₂' : Inv ((H.setPart q { mq with refcnt := mq.refcnt + 1 }).sharedPart mf.part X
            (some q) s mf.dataEnd)
            (fun q => ref (some f) q + (ref (some H.parts.size) q + r q)) :=
          hinv₂.congr (fun q => Nat.add_left_comm _ _ _)
        obtain ⟨H₃, hdec, hinv₃, hfr₃⟩ := msgPartDecref_spec held hinv₂'
          (fun x hx => ((hfr₂.mono (hle₀ _)).reach (hheld x hx)).mono (hle₀ _))
        have hchain : ∀ x, ((H.setPart q { mq with refcnt := mq.refcnt + 1 }).sharedPart mf.part X
            (some q) s mf.dataEnd).Path H.parts.size x → Keeps False _ H₃ x := fun x hx =>
          hfr₃ x ((reach_ref H.parts.size).path hx)
        obtain ⟨mc', hc', hkeep, -⟩ := hchain _ Relation.ReflTransGen.refl _ hc₂
        refine ⟨H₃, n + 1, H.parts.size, l, mc', ?_, hinv₃, hspan₂.keep hchain,
          (hfr₂.mono (hle₀ _)).trans (hfr₃.mono (hle₀ _)), hc', hkeep.offset, Or.inl rfl, ?_⟩
        · rw [if_neg (fun he => hne (Option.some.inj he).symm), hnext, Option.bind_some]
          have hinc' : (H.setBuffer mf.part { X with refcnt := X.refcnt + 1 }).msgPartIncref q
              = some ((H.setBuffer mf.part { X with refcnt := X.refcnt + 1 }).setPart q
                { mq with refcnt := mq.refcnt + 1 }) := by
            unfold msgPartIncref
            have hq₀ : (H.setBuffer mf.part { X with refcnt := X.refcnt + 1 }).parts.cell q
                = some mq := hq
            rw [hq₀]
            rfl
          have hswap : (H.setBuffer mf.part { X with refcnt := X.refcnt + 1 }).setPart q
              { mq with refcnt := mq.refcnt + 1 }
              = (H.setPart q { mq with refcnt := mq.refcnt + 1 }).setBuffer mf.part
                { X with refcnt := X.refcnt + 1 } := rfl
          unfold sharedPart at hdec
          rw [hinc', Option.bind_some, hswap, hdec]
          rfl
        · intro ml hl hnone
          obtain ⟨ml₂, hl₂, hnone₂⟩ :=
            (hfr₂ l (hqreach.path hrest.path)).last hl hnone
          exact (hchain l hspan₂.path).last hl₂ hnone₂

end MsgHeap

end MtprotoProxy
