/-
# The bytes of a message

`Span H n p s l e bs` says that `n` pointers lead from the part `p` to the part `l`, and that the
bytes from the place `s` of `p` to the place `e` of `l` are `bs`.  The parts in between give all
the bytes that they cover; `s` and `e` are places that `p` and `l` cover, but other messages may
start and end elsewhere in these parts.

`Holds H raw bs` says that the message `raw` has the bytes `bs`.
-/
import MtprotoProxy.MsgFrame

namespace MtprotoProxy

open CLib

namespace MsgHeap

variable {H H' : MsgHeap} {r : ℕ → ℕ} {grow : Prop}

/-- The bytes from the place `s` of the part `p` to the place `e` of the part `l`. -/
inductive Span (H : MsgHeap) : ℕ → ℕ → ℕ → ℕ → ℕ → Bytes → Prop
  | last {p s e : ℕ} {mp : MsgPart} {X : MsgBuffer} (hp : H.parts.cell p = some mp)
      (hX : H.buffers.cell mp.part = some X) (hs : mp.offset ≤ s) (hle : s ≤ e)
      (he : e ≤ mp.dataEnd) : Span H 0 p s p e (slice X.data s (e - s))
  | step {n p s q l e : ℕ} {mp mq : MsgPart} {X : MsgBuffer} {bs : Bytes}
      (hp : H.parts.cell p = some mp) (hX : H.buffers.cell mp.part = some X)
      (hs : mp.offset ≤ s) (hle : s ≤ mp.dataEnd) (hnext : mp.next = some q)
      (hq : H.parts.cell q = some mq) (hrest : Span H n q mq.offset l e bs) :
      Span H (n + 1) p s l e (slice X.data s (mp.dataEnd - s) ++ bs)

/-- The bytes of a message. -/
inductive Holds (H : MsgHeap) : RawMessage → Bytes → Prop
  | clean : Holds H rwmClean []
  | chain {n f l s e : ℕ} {bs : Bytes} (h : Span H n f s l e bs) :
      Holds H ⟨some f, some l, bs.length, s, e⟩ bs

/-! ## Places in a buffer -/

theorem slice_append {d : Bytes} {i j k : ℕ} (hij : i ≤ j) (hjk : j ≤ k) :
    slice d i (j - i) ++ slice d j (k - j) = slice d i (k - i) := by
  unfold slice
  have hj : j = i + (j - i) := by omega
  have hk : k - i = (j - i) + (k - j) := by omega
  rw [hk, List.take_add, List.drop_drop, ← hj]

theorem take_slice (d : Bytes) (i : ℕ) {k n : ℕ} (h : k ≤ n) :
    (slice d i n).take k = slice d i k := by
  unfold slice
  rw [List.take_take, Nat.min_eq_left h]

theorem drop_slice (d : Bytes) (i k n : ℕ) : (slice d i n).drop k = slice d (i + k) (n - k) := by
  unfold slice
  rw [List.drop_take, List.drop_drop]

namespace Span

variable {n p s l e : ℕ} {bs : Bytes}

theorem steps (h : Span H n p s l e bs) : Steps H n p l := by
  induction h with
  | last => exact Steps.refl _
  | step hp _ _ _ hnext _ _ ih => exact ih.head ⟨_, hp, hnext⟩

theorem path (h : Span H n p s l e bs) : H.Path p l := h.steps.path

theorem cell_first (h : Span H n p s l e bs) :
    ∃ mp X, H.parts.cell p = some mp ∧ H.buffers.cell mp.part = some X ∧ mp.offset ≤ s ∧
      s ≤ mp.dataEnd := by
  cases h with
  | last hp hX hs hle he => exact ⟨_, _, hp, hX, hs, hle.trans he⟩
  | step hp hX hs hle _ _ _ => exact ⟨_, _, hp, hX, hs, hle⟩

theorem cell_last (h : Span H n p s l e bs) :
    ∃ ml X, H.parts.cell l = some ml ∧ H.buffers.cell ml.part = some X ∧ ml.offset ≤ e ∧
      e ≤ ml.dataEnd := by
  induction h with
  | last hp hX hs hle he => exact ⟨_, _, hp, hX, hs.trans hle, he⟩
  | step _ _ _ _ _ _ _ ih => exact ih

theorem lt_size (h : Span H n p s l e bs) (hinv : Inv H r) : n < H.parts.size := by
  obtain ⟨mp, X, hp, -⟩ := h.cell_first
  exact hinv.steps_lt h.steps (Store.lt_size hp)

/-- A span with more than one part does not come back to where it starts. -/
theorem first_ne_last (h : Span H (n + 1) p s l e bs) (hinv : Inv H r) : p ≠ l := by
  cases h with
  | step hp _ _ _ hnext _ hrest =>
    rintro rfl
    exact hinv.not_cycle ⟨_, hp, hnext⟩ hrest.path

/-- There is one span from a place to a place. -/
theorem unique {m : ℕ} {bs' : Bytes} (h : Span H n p s l e bs) (h' : Span H m p s l e bs')
    (hinv : Inv H r) : bs = bs' := by
  induction h generalizing m bs' with
  | last hp hX _ _ _ =>
    cases h' with
    | last hp' hX' _ _ _ =>
      rw [← Option.mem_unique hp hp', hX] at hX'
      rw [Option.some.inj hX']
    | step hp' hX' hs' hle' hnext' hq' hrest' =>
      exact absurd rfl ((Span.step hp' hX' hs' hle' hnext' hq' hrest').first_ne_last hinv)
  | step hp hX hs hle hnext hq hrest ih =>
    cases h' with
    | last => exact absurd rfl ((Span.step hp hX hs hle hnext hq hrest).first_ne_last hinv)
    | step hp' hX' _ _ hnext' hq' hrest' =>
      obtain rfl := Option.mem_unique hp hp'
      rw [hX] at hX'
      obtain rfl := Option.mem_unique hnext hnext'
      obtain rfl := Option.mem_unique hq hq'
      rw [Option.some.inj hX', ih hrest']

/-- **A span is kept** with its parts. -/
theorem keep (h : Span H n p s l e bs) (hkeep : ∀ q, H.Path p q → Keeps grow H H' q) :
    Span H' n p s l e bs := by
  induction h with
  | @last p s e mp X hp hX hs hle he =>
    obtain ⟨mp', hp', hpart, hbuf⟩ := hkeep _ Relation.ReflTransGen.refl _ hp
    obtain ⟨X', hX', hsame⟩ := hbuf _ hX
    have hbytes := hsame s (e - s) hs (by omega)
    rw [← hbytes]
    have hoff := hpart.offset
    have hend := hpart.dataEnd_le
    rw [← hpart.part] at hX'
    exact Span.last hp' hX' (by omega) hle (by omega)
  | @step n p s q l e mp mq X bs hp hX hs hle hnext hq hrest ih =>
    obtain ⟨mp', hp', hpart, hbuf⟩ := hkeep _ Relation.ReflTransGen.refl _ hp
    obtain ⟨X', hX', hsame⟩ := hbuf _ hX
    obtain ⟨hnext', hend'⟩ := hpart.of_next hnext
    have hpq : H.Next p q := ⟨mp, hp, hnext⟩
    obtain ⟨mq', hq', hqpart, -⟩ := hkeep _ (Relation.ReflTransGen.single hpq) _ hq
    have hbytes := hsame s (mp.dataEnd - s) hs (by omega)
    rw [← hbytes, ← hend']
    have hoff := hpart.offset
    rw [← hpart.part] at hX'
    have hrest' := ih (fun x hx => hkeep x (hx.head hpq))
    rw [← hqpart.offset] at hrest'
    exact Span.step hp' hX' (by omega) (by omega) hnext' hq' hrest'

/-- A span goes on behind the end of its last part. -/
theorem append {m t l' e' : ℕ} {bs' : Bytes} {ml mt : MsgPart} (h : Span H n p s l e bs)
    (hl : H.parts.cell l = some ml) (he : e = ml.dataEnd) (hnext : ml.next = some t)
    (ht : H.parts.cell t = some mt) (htail : Span H m t mt.offset l' e' bs') :
    Span H (n + 1 + m) p s l' e' (bs ++ bs') := by
  induction h with
  | last hp hX hs hle _ =>
    obtain rfl := Option.mem_unique hl hp
    subst he
    rw [Nat.zero_add, Nat.add_comm]
    exact Span.step hl hX hs hle hnext ht htail
  | @step n p s q l e mp mq X bs hp hX hs hle hnext' hq hrest ih =>
    have hlen : n + 1 + 1 + m = n + 1 + m + 1 := by omega
    rw [List.append_assoc, hlen]
    exact Span.step hp hX hs hle hnext' hq (ih hl he)

/-- The last part may be changed behind the end of the span. -/
theorem setLast {ml ml' : MsgPart} (h : Span H n p s l e bs) (hinv : Inv H r)
    (hl : H.parts.cell l = some ml) (hpart : ml'.part = ml.part) (hoff : ml'.offset = ml.offset)
    (hend : e ≤ ml'.dataEnd) : Span (H.setPart l ml') n p s l e bs := by
  induction h with
  | last hp hX hs hle _ =>
    obtain rfl := Option.mem_unique hl hp
    rw [← hpart] at hX
    exact Span.last (cell_setPart_self hl) hX (by omega) hle hend
  | @step n p s q l e mp mq X bs hp hX hs hle hnext hq hrest ih =>
    have hne := (Span.step hp hX hs hle hnext hq hrest).first_ne_last hinv
    have hrest' := ih hl hend
    have hp' : (H.setPart l ml').parts.cell p = some mp := (cell_setPart_ne hne).trans hp
    by_cases hql : q = l
    · subst hql
      rw [← Option.mem_unique hl hq, ← hoff] at hrest'
      exact Span.step hp' hX hs hle hnext (cell_setPart_self hl) hrest'
    · exact Span.step hp' hX hs hle hnext ((cell_setPart_ne hql).trans hq) hrest'

/-- The first part may be changed before the start of the span. -/
theorem setFirst {mp mp' : MsgPart} (h : Span H n p s l e bs) (hinv : Inv H r)
    (hp : H.parts.cell p = some mp) (hpart : mp'.part = mp.part) (hnext : mp'.next = mp.next)
    (hoff : mp'.offset ≤ s) (hend : mp'.dataEnd = mp.dataEnd) :
    Span (H.setPart p mp') n p s l e bs := by
  cases h with
  | last hp₀ hX hs hle he =>
    obtain rfl := Option.mem_unique hp hp₀
    rw [← hpart] at hX
    exact Span.last (cell_setPart_self hp) hX hoff hle (by omega)
  | @step n p s q l e mp₀ mq X bs hp₀ hX hs hle hnext₀ hq hrest =>
    obtain rfl := Option.mem_unique hp hp₀
    have hpq : H.Next p q := ⟨mp, hp, hnext₀⟩
    -- the chain does not come back to `p`
    have hkeep : ∀ x, H.Path q x → Keeps False H (H.setPart p mp') x := by
      intro x hx
      have hxp : x ≠ p := by
        rintro rfl
        exact hinv.not_cycle hpq hx
      exact Keeps.of_eq (cell_setPart_ne hxp) (fun m Y _ hY => ⟨Y, hY, SameBytes.refl Y _ _⟩)
    have hrest' := hrest.keep hkeep
    have hqp : q ≠ p := by
      rintro rfl
      exact hinv.not_cycle hpq Relation.ReflTransGen.refl
    rw [← hpart] at hX
    rw [← hend]
    exact Span.step (cell_setPart_self hp) hX hoff (by omega) (hnext.trans hnext₀)
      ((cell_setPart_ne hqp).trans hq) hrest'

/-- A span may start earlier in its first part. -/
theorem extendFirst {s' : ℕ} {mp : MsgPart} {X : MsgBuffer} (h : Span H n p s l e bs)
    (hp : H.parts.cell p = some mp) (hX : H.buffers.cell mp.part = some X) (hs' : mp.offset ≤ s')
    (hle : s' ≤ s) : Span H n p s' l e (slice X.data s' (s - s') ++ bs) := by
  cases h with
  | last hp₀ hX₀ hs hle' he =>
    obtain rfl := Option.mem_unique hp hp₀
    obtain rfl := Option.mem_unique hX hX₀
    rw [slice_append hle hle']
    exact Span.last hp hX hs' (hle.trans hle') he
  | step hp₀ hX₀ hs hle' hnext hq hrest =>
    obtain rfl := Option.mem_unique hp hp₀
    obtain rfl := Option.mem_unique hX hX₀
    rw [← List.append_assoc, slice_append hle hle']
    exact Span.step hp hX hs' (hle.trans hle') hnext hq hrest

/-- A span may end later in its last part. -/
theorem extendLast {e' : ℕ} {ml : MsgPart} {X : MsgBuffer} (h : Span H n p s l e bs)
    (hl : H.parts.cell l = some ml) (hX : H.buffers.cell ml.part = some X) (hle : e ≤ e')
    (he' : e' ≤ ml.dataEnd) : Span H n p s l e' (bs ++ slice X.data e (e' - e)) := by
  induction h with
  | last hp₀ hX₀ hs hle' _ =>
    obtain rfl := Option.mem_unique hl hp₀
    obtain rfl := Option.mem_unique hX hX₀
    rw [slice_append hle' hle]
    exact Span.last hl hX hs (hle'.trans hle) he'
  | step hp₀ hX₀ hs hle' hnext hq _ ih =>
    rw [List.append_assoc]
    exact Span.step hp₀ hX₀ hs hle' hnext hq (ih hl hle)

/-- From the start of its first part on, a span has all bytes that its last part gives. -/
theorem length_ge {mp ml : MsgPart} (h : Span H n p s l e bs) (hinv : Inv H r)
    (hp : H.parts.cell p = some mp) (hs : s = mp.offset) (hl : H.parts.cell l = some ml) :
    e - ml.offset ≤ bs.length := by
  induction h generalizing mp with
  | last hp₀ hX hs₀ hle he =>
    rw [hp₀] at hp hl
    obtain rfl := Option.some.inj hp
    obtain rfl := Option.some.inj hl
    obtain ⟨Y, hY, -, hend⟩ := hinv.buffer _ _ hp₀
    rw [← Option.mem_unique hX hY] at hend
    rw [length_slice _ _ _ (by omega)]
    omega
  | step hp₀ hX hs₀ hle hnext hq _ ih =>
    rw [List.length_append]
    have := ih hq rfl hl
    omega

/-- **A span can be cut in its last part.** -/
theorem cut_last {x : ℕ} {ml : MsgPart} (h : Span H n p s l e bs) (hinv : Inv H r)
    (hl : H.parts.cell l = some ml) (hx : x ≤ e - ml.offset) (hlen : x ≤ bs.length) :
    Span H n p s l (e - x) (bs.take (bs.length - x)) ∧
      Span H 0 l (e - x) l e (bs.drop (bs.length - x)) := by
  induction h with
  | @last p s e mp X hp hX hs hle he =>
    obtain rfl := Option.mem_unique hl hp
    obtain ⟨Y, hY, -, hend⟩ := hinv.buffer _ _ hl
    obtain rfl := Option.mem_unique hX hY
    rw [length_slice _ _ _ (by omega)] at hlen ⊢
    rw [take_slice _ _ (by omega), drop_slice]
    have htake := Span.last (e := e - x) hl hX hs (by omega) (by omega)
    have hdrop := Span.last (s := e - x) hl hX (by omega) (by omega) he
    have h₁ : e - x - s = e - s - x := by omega
    have h₂ : s + (e - s - x) = e - x := by omega
    have h₃ : e - s - (e - s - x) = e - (e - x) := by omega
    rw [h₁] at htake
    rw [h₂, h₃]
    exact ⟨htake, hdrop⟩
  | @step n p s q l e mp mq X bs hp hX hs hle hnext hq hrest ih =>
    -- the bytes to cut off are behind the first part
    have hrestlen : x ≤ bs.length := by
      have := hrest.length_ge hinv hq rfl hl
      omega
    obtain ⟨htake, hdrop⟩ := ih hl hx hrestlen
    rw [List.length_append, Nat.add_sub_assoc hrestlen, List.take_length_add_append,
      List.drop_length_add_append]
    exact ⟨Span.step hp hX hs hle hnext hq htake, hdrop⟩

end Span

/-! ## Messages -/

theorem Holds.totalBytes {raw : RawMessage} {bs : Bytes} (h : Holds H raw bs) :
    raw.totalBytes = bs.length := by
  cases h with
  | clean => rfl
  | chain => rfl

theorem Holds.span {f l t s e : ℕ} {bs : Bytes} (h : Holds H ⟨some f, some l, t, s, e⟩ bs) :
    t = bs.length ∧ ∃ n, Span H n f s l e bs := by
  generalize hraw : (⟨some f, some l, t, s, e⟩ : RawMessage) = raw at h
  cases h with
  | clean => exact absurd hraw (by simp [rwmClean])
  | @chain n f' l' s' e' bs hspan =>
    simp only [RawMessage.mk.injEq, Option.some.injEq] at hraw
    obtain ⟨rfl, rfl, rfl, rfl, rfl⟩ := hraw
    exact ⟨rfl, n, hspan⟩

/-- A span is kept by whoever leaves what can be reached from it alone. -/
theorem Span.frame {R : ℕ → ℕ} {n p s l e : ℕ} {bs : Bytes} (h : Span H n p s l e bs)
    (hframe : Frame grow R H H') (hR : 0 < R p) : Span H' n p s l e bs :=
  h.keep (fun q hq => hframe q ⟨p, hR, hq⟩)

/-- The part `p` among the references. -/
theorem ref_add_pos (p : ℕ) : 0 < ref (some p) p + r p := by
  rw [ref_self]
  omega

/-- **What a message holds is kept** by whoever leaves its parts alone. -/
theorem Holds.frame {raw : RawMessage} {bs : Bytes} (h : Holds H raw bs)
    (hframe : Frame grow r H H') (hr : ∀ f, raw.first = some f → 0 < r f) : Holds H' raw bs := by
  cases h with
  | clean => exact Holds.clean
  | @chain n f l s e bs h =>
    exact Holds.chain (h.keep (fun q hq => hframe q ⟨f, hr f rfl, hq⟩))

/-- A message has one contents. -/
theorem Holds.unique {raw : RawMessage} {bs bs' : Bytes} (h : Holds H raw bs)
    (h' : Holds H raw bs') (hinv : Inv H r) : bs = bs' := by
  generalize hx : raw = raw' at h'
  cases h with
  | clean =>
    cases h' with
    | clean => rfl
    | chain => exact absurd hx (by simp [rwmClean])
  | chain h =>
    cases h' with
    | clean => exact absurd hx (by simp [rwmClean])
    | chain h' =>
      simp only [RawMessage.mk.injEq, Option.some.injEq] at hx
      obtain ⟨rfl, rfl, -, rfl, rfl⟩ := hx
      exact h.unique h' hinv

end MsgHeap

end MtprotoProxy
