/-
# Blocks that are handed on

`rwm_process_and_advance` with a `process_block` that may change the memory and a state of its own,
called on every stretch of bytes while a part can be locked.

What `process_block` has to do is a `Visitor`: it may let parts without a successor grow, and leaves
the rest of the message alone.  Then the bytes that it is called with are the first bytes of the
message, and these are taken from the message (`rwmProcessAndAdvance_spec`).
-/
import MtprotoProxy.MsgProcess

namespace MtprotoProxy

open CLib

namespace MsgHeap

section Defs

variable (H : MsgHeap)

/-- `rwm_clear` while the part `held` is locked. -/
def rwmClearHeld (held : Option ℕ) (raw : RawMessage) : Option (MsgHeap × RawMessage) :=
  (H.msgPartDecref held raw.first).map (fun H => (H, rwmClean))

/-- The reference of a message moves from its first part to the part `p`, while the part `held` is
locked. -/
def moveFirstHeld (held : Option ℕ) (raw : RawMessage) (p : ℕ) : Option MsgHeap :=
  if raw.first = some p then some H
  else do
    let H ← H.msgPartIncref p
    H.msgPartDecref held raw.first

/-- `processAdvance` while the part `held` is locked. -/
def processAdvanceHeld (held : Option ℕ) (raw : RawMessage) (p stop taken : ℕ) (ok : Bool) :
    Option (MsgHeap × RawMessage) :=
  if taken = raw.totalBytes then H.rwmClearHeld held raw
  else do
    let H ← H.moveFirstHeld held raw p
    let mp ← H.parts.cell p
    let H := if ok then H.setPart p { mp with offset := stop } else H
    some (H, { raw with
      first := some p
      firstOffset := stop
      totalBytes := raw.totalBytes - taken })

def clearEmptyHeld (held : Option ℕ) (raw : RawMessage) : Option (MsgHeap × RawMessage) :=
  if raw.totalBytes = 0 then H.rwmClearHeld held raw else some (H, raw)

/-- What `RMPF_ADVANCE` does when all bytes of the message are in its last part `l`. -/
def lastAdvanceHeld (held : Option ℕ) (raw : RawMessage) (l bytes : ℕ) :
    Option (MsgHeap × RawMessage) := do
  let H ← H.msgPartIncref l
  let H ← H.msgPartDecref held raw.first
  some (H, { raw with
    first := some l
    firstOffset := raw.lastOffset - raw.totalBytes + bytes
    totalBytes := raw.totalBytes - bytes })

end Defs

section Visits

variable {σ : Type} (processBlock : MsgHeap → σ → Bytes → Option (MsgHeap × σ))

/-- `len > 0 ? process_block (..) : 0`. -/
def visitBlock (H : MsgHeap) (s : σ) (len : ℕ) (chunk : Bytes) : Option (MsgHeap × σ) :=
  if 0 < len then processBlock H s chunk else some (H, s)

/-- The inner loop of `rwm_process_ex` on `len` bytes from `start` on in the part `p`. -/
def visitBlocks (raw : RawMessage) :
    ℕ → MsgHeap → σ → ℕ → ℕ → ℕ → ℕ → Bool → Option (MsgHeap × σ × ℕ × ℕ × Bool)
  | 0, _, _, _, _, _, _, _ => none
  | n + 1, H, s, p, start, len, bytes, ok => do
    let mp ← H.parts.cell p
    let X ← H.buffers.cell mp.part
    if bytes ≤ len then do
      let (H, s) ← visitBlock processBlock H s bytes (slice X.data start bytes)
      some (H, s, p, start + bytes, ok)
    else do
      let (H, s) ← visitBlock processBlock H s len (slice X.data start len)
      let mp ← H.parts.cell p
      let q ← mp.next
      let mq ← H.parts.cell q
      let start' := partStart raw q mq
      visitBlocks raw n H s q start' (partEnd raw q mq - start') (bytes - len)
        (ok && mq.refcnt == 1)

/-- `rwm_process_and_advance`, while the part `held` is locked: the number of bytes that it returns
comes last. -/
def rwmProcessAndAdvance (held : Option ℕ) (H : MsgHeap) (raw : RawMessage) (bytes : ℕ) (s : σ) :
    Option (MsgHeap × RawMessage × σ × ℕ) :=
  let bytes := if raw.totalBytes < bytes then raw.totalBytes else bytes
  if bytes = 0 then some (H, raw, s, 0)
  else do
    let l ← raw.last
    let ml ← H.parts.cell l
    if raw.totalBytes ≤ raw.lastOffset - ml.offset then do
      let X ← H.buffers.cell ml.part
      let (H, s) ← processBlock H s (slice X.data (raw.lastOffset - raw.totalBytes) bytes)
      let (H, raw) ← H.lastAdvanceHeld held raw l bytes
      some (H, raw, s, bytes)
    else do
      let f ← raw.first
      let (p, start, len, ok) ← H.processFind raw (H.parts.size + 1) f 0 true
      let (H, s, q, stop, ok) ←
        visitBlocks processBlock raw (H.parts.size + 1) H s p start len bytes ok
      let (H, raw) ← H.processAdvanceHeld held raw q stop bytes ok
      let (H, raw) ← H.clearEmptyHeld held raw
      some (H, raw, s, bytes)

end Visits

/-! ## Locked parts -/

variable {H H' H'' : MsgHeap} {r : ℕ → ℕ} {held : Option ℕ}

/-- Without a locked part, no less can be given up. -/
theorem msgPartDecrefLoop_unlocked (n : ℕ) {p : Option ℕ}
    (h : msgPartDecrefLoop held n H p = some H') : msgPartDecrefLoop none n H p = some H' := by
  induction n generalizing H p with
  | zero =>
    cases p with
    | none => exact h
    | some p => exact absurd h (by simp [msgPartDecrefLoop])
  | succ n ih =>
    cases p with
    | none => exact h
    | some p =>
      unfold msgPartDecrefLoop at h ⊢
      cases hp : H.parts.cell p with
      | none =>
        rw [hp] at h
        exact h
      | some mp =>
        rw [hp] at h
        simp only [some_bind] at h ⊢
        by_cases hmany : 1 < mp.refcnt
        · rwa [if_pos hmany] at h ⊢
        · rw [if_neg hmany] at h ⊢
          split_ifs at h with hone
          rw [if_pos ⟨hone.1, by simp⟩]
          obtain ⟨H₁, hdec, hloop⟩ := Option.bind_eq_some_iff.mp h
          rw [hdec]
          exact ih hloop

/-- **A locked part that something else reaches** is not in the way. -/
theorem msgPartDecref_held {p : Option ℕ} (h : Inv H (fun q => ref p q + r q))
    (hheld : ∀ x, held = some x → Reach r H x) :
    H.msgPartDecref held p = H.msgPartDecref none p := by
  obtain ⟨H', hdec, -, -⟩ := msgPartDecref_spec held h hheld
  rw [hdec]
  exact (msgPartDecrefLoop_unlocked _ hdec).symm

section Held

variable {raw : RawMessage} {bs : Bytes}

theorem rwmClearHeld_eq (h : Owns H r raw bs) (hheld : ∀ x, held = some x → Reach r H x) :
    H.rwmClearHeld held raw = H.rwmClear raw := by
  unfold rwmClearHeld rwmClear
  rw [msgPartDecref_held h.inv hheld]

theorem clearEmptyHeld_eq (h : Owns H r raw bs) (hheld : ∀ x, held = some x → Reach r H x) :
    H.clearEmptyHeld held raw = H.clearEmpty raw := by
  unfold clearEmptyHeld clearEmpty
  rw [rwmClearHeld_eq h hheld]

/-- A reference moves from the first part to another one. -/
theorem moveHeld_eq (h : Owns H r raw bs) (hheld : ∀ x, held = some x → Reach r H x) (p : ℕ) :
    (do
      let H ← H.msgPartIncref p
      H.msgPartDecref held raw.first) = (do
      let H ← H.msgPartIncref p
      H.msgPartDecref none raw.first) := by
  cases hp : H.parts.cell p with
  | none =>
    have hinc : H.msgPartIncref p = none := by
      unfold msgPartIncref
      rw [hp]
      rfl
    rw [hinc]
    rfl
  | some mp =>
    obtain ⟨H₁, hinc, rfl, hinv⟩ := msgPartIncref_inv h.inv hp
    rw [hinc]
    refine msgPartDecref_held (hinv.congr (fun q => Nat.add_left_comm _ _ _)) (fun x hx => ?_)
    have hreach := (msgPartIncref_frame (R := r) hp).reach (hheld x hx)
    exact hreach.mono (fun q => Nat.le_add_left _ _)

theorem processAdvanceHeld_eq (h : Owns H r raw bs) (hheld : ∀ x, held = some x → Reach r H x)
    (p stop taken : ℕ) (ok : Bool) :
    H.processAdvanceHeld held raw p stop taken ok = H.processAdvance raw p stop taken ok := by
  unfold processAdvanceHeld processAdvance moveFirstHeld moveFirst
  rw [rwmClearHeld_eq h hheld, moveHeld_eq h hheld]

end Held

/-! ## Memory that grows -/

/-- No part is given up or gets another reference, and no part loses its successor. -/
def Grows (H H' : MsgHeap) : Prop :=
  ∀ p mp, H.parts.cell p = some mp → ∃ mp', H'.parts.cell p = some mp' ∧ mp'.refcnt = mp.refcnt ∧
    (mp.next = none ∨ mp'.next = mp.next)

namespace Grows

theorem refl (H : MsgHeap) : Grows H H := fun _ mp hp => ⟨mp, hp, rfl, .inr rfl⟩

theorem trans (h : Grows H H') (h' : Grows H' H'') : Grows H H'' := by
  intro p mp hp
  obtain ⟨mp', hp', hcount, hnext⟩ := h p mp hp
  obtain ⟨mp'', hp'', hcount', hnext'⟩ := h' p mp' hp'
  refine ⟨mp'', hp'', hcount'.trans hcount, ?_⟩
  rcases hnext with hnone | hnext
  · exact .inl hnone
  · rw [hnext] at hnext'
    exact hnext'

theorem next (h : Grows H H') {p q : ℕ} (hpq : H.Next p q) : H'.Next p q := by
  obtain ⟨mp, hp, hq⟩ := hpq
  obtain ⟨mp', hp', -, hnext⟩ := h p mp hp
  rcases hnext with hnone | hnext
  · rw [hq] at hnone
    exact absurd hnone (by simp)
  · exact ⟨mp', hp', hnext.trans hq⟩

theorem path (h : Grows H H') {p q : ℕ} (hpq : H.Path p q) : H'.Path p q :=
  Relation.ReflTransGen.mono (fun _ _ hnext => h.next hnext) _ _ hpq

theorem sole (h : Grows H H') {f p : ℕ} (hp : Sole H f p) : Sole H' f p := by
  induction hp with
  | first hf hone =>
    obtain ⟨mf', hf', hcount, -⟩ := h f _ hf
    exact Sole.first hf' (hcount.trans hone)
  | next _ hpq hq hone ih =>
    obtain ⟨mq', hq', hcount, -⟩ := h _ _ hq
    exact Sole.next ih (h.next hpq) hq' (hcount.trans hone)

/-- A part gets other bytes, or a successor. -/
theorem setPart {p : ℕ} {mp mp' : MsgPart} (hp : H.parts.cell p = some mp)
    (hcount : mp'.refcnt = mp.refcnt) (hnext : mp.next = none ∨ mp'.next = mp.next) :
    Grows H (H.setPart p mp') := by
  intro q mq hq
  by_cases hqp : q = p
  · subst hqp
    obtain rfl := Option.mem_unique hp hq
    exact ⟨mp', cell_setPart_self hp, hcount, hnext⟩
  · exact ⟨mq, (cell_setPart_ne hqp).trans hq, rfl, .inr rfl⟩

/-- A new part. -/
theorem newDataPart (H : MsgHeap) (hint i : ℕ) (src : Bytes) (next : Option ℕ) :
    Grows H (H.newDataPart hint i src next) :=
  fun _ mp hp => ⟨mp, cell_newDataPart hp, rfl, .inr rfl⟩

theorem write (H : MsgHeap) (b : ℕ) (X : MsgBuffer) (i : ℕ) (src : Bytes) :
    Grows H (H.write b X i src) :=
  fun _ mp hp => ⟨mp, hp, rfl, .inr rfl⟩

end Grows

/-! ## Visits -/

/-- What `process_block` has to do, for a message that starts in the part `f`: whoever has the
references `refs s` is kept for the state `s`, and `P` says what holds when the bytes `done` have
been handed on. -/
structure Visitor {σ : Type} (processBlock : MsgHeap → σ → Bytes → Option (MsgHeap × σ))
    (held : Option ℕ) (f : ℕ) (r : ℕ → ℕ) (refs : σ → ℕ → ℕ) (P : MsgHeap → σ → Bytes → Prop) :
    Prop where
  inv : ∀ {H s done}, P H s done → Inv H (fun q => ref (some f) q + refs s q)
  held : ∀ {H s done}, P H s done → ∀ x, held = some x → Reach (refs s) H x
  call : ∀ {H s done} (chunk : Bytes), P H s done →
    ∃ H' s', processBlock H s chunk = some (H', s') ∧ P H' s' (done ++ chunk) ∧ Grows H H' ∧
      Frame True (fun q => ref (some f) q + r q) H H'

section Visiting

variable {σ : Type} {processBlock : MsgHeap → σ → Bytes → Option (MsgHeap × σ)} {f : ℕ}
  {refs : σ → ℕ → ℕ} {P : MsgHeap → σ → Bytes → Prop} {s : σ} {done : Bytes}

/-- No bytes are not handed on. -/
theorem Visitor.visit (hV : Visitor processBlock held f r refs P) (hP : P H s done) {len : ℕ}
    {chunk : Bytes} (hlen : chunk.length = len) :
    ∃ H' s', visitBlock processBlock H s len chunk = some (H', s') ∧ P H' s' (done ++ chunk) ∧
      Grows H H' ∧ Frame True (fun q => ref (some f) q + r q) H H' := by
  unfold visitBlock
  by_cases hpos : 0 < len
  · rw [if_pos hpos]
    exact hV.call chunk hP
  · have hnil : chunk = [] := List.eq_nil_of_length_eq_zero (by omega)
    rw [if_neg hpos, hnil, List.append_nil]
    exact ⟨H, s, rfl, hP, Grows.refl H, Frame.refl _ _ _⟩

/-- **The loop of `rwm_process_ex`**, by induction on the fuel: the bytes that are handed on are the
first bytes from the place `c` of the part `p` on. -/
theorem visitBlocks_spec (raw : RawMessage) (fuel : ℕ) {n p l c e k : ℕ} {ok : Bool} {bs : Bytes}
    {mp : MsgPart} (hV : Visitor processBlock held f r refs P) (hP : P H s done)
    (hf : raw.first = some f) (hl : raw.last = some l) (he : raw.lastOffset = e)
    (hpath : H.Path f p) (hp : H.parts.cell p = some mp) (h : Span H n p c l e bs)
    (hk : k ≤ bs.length) (hfuel : n < fuel) (hok : ok = true → Sole H f p) :
    ∃ H' s' q c' ok' n', visitBlocks processBlock raw fuel H s p c (partEnd raw p mp - c) k ok
        = some (H', s', q, c', ok') ∧ P H' s' (done ++ bs.take k) ∧
      Span H' n' q c' l e (bs.drop k) ∧ (ok' = true → Sole H' f q) ∧ Grows H H' ∧
      Frame True (fun q => ref (some f) q + r q) H H' := by
  induction fuel generalizing H s done n p c mp bs k ok with
  | zero => exact absurd hfuel (Nat.not_lt_zero _)
  | succ fuel ih =>
    have hinv := hV.inv hP
    -- what is left of the message is kept
    have hkeep : ∀ {m x i bs' H'}, H.Path f x → Span H m x i l e bs' →
        Frame True (fun q => ref (some f) q + r q) H H' → Span H' m x i l e bs' :=
      fun hx hspan hfr => hspan.keep (fun q hq => hfr q ((reach_ref f).path (hx.trans hq)))
    unfold visitBlocks
    by_cases hhere : k ≤ partEnd raw p mp - c
    · obtain ⟨htake, hdrop⟩ := h.cut_first raw hinv hp hl he hhere
      generalize hbs : bs.take k = bs₁ at htake
      have hlen : bs₁.length = k := by rw [← hbs, List.length_take_of_le hk]
      cases htake with
      | @last _ _ _ mp₀ X hp₀ hX hs hle he' =>
        obtain rfl := Option.mem_unique hp hp₀
        rw [Nat.add_sub_cancel_left] at hlen ⊢
        obtain ⟨H', s', hcall, hP', hgrows, hfr⟩ := hV.visit hP hlen
        refine ⟨H', s', p, c + k, ok, n, ?_, hP', hkeep hpath hdrop hfr,
          fun ht => hgrows.sole (hok ht), hgrows, hfr⟩
        simp only [hp, hX, Option.bind_eq_bind, Option.bind_some]
        rw [if_pos hhere, hcall, Option.bind_some]
    · obtain ⟨n', q, mq, X, bs', rfl, hnext, hq, hX, hoff, hle, hrest, hend, rfl, hlen⟩ :=
        h.pass_first hinv hp hl he hhere hk
      rw [List.length_append, hlen] at hk
      have hpq : H.Next p q := ⟨mp, hp, hnext⟩
      obtain ⟨H₁, s₁, hcall, hP₁, hgrows, hfr⟩ := hV.visit hP hlen
      -- the next part, in the memory that `process_block` has left
      have hnext₁ := hgrows.next hpq
      have hpath₁ := hgrows.path hpath
      obtain ⟨mp₁, hp₁, hnext₁'⟩ := id hnext₁
      have hrest₁ := hkeep (hpath.tail hpq) hrest hfr
      obtain ⟨mq₁, hq₁, hcount, -⟩ := hgrows q mq hq
      obtain ⟨mq₂, hq₂, hkeeps, -⟩ := hfr q ((reach_ref f).path (hpath.tail hpq)) mq hq
      obtain rfl := Option.mem_unique hq₁ hq₂
      have hclear : Clear H f ok q := fun ht => Or.inr ⟨p, hok ht, hpq⟩
      have hok₁ : (ok && mq₁.refcnt == 1) = true → Sole H₁ f q := by
        rw [hcount]
        exact fun ht => hgrows.sole (hclear.sole hq ht)
      obtain ⟨H', s', q', c', ok', m, hloop, hP', hdrop, hsole, hgrows', hfr'⟩ :=
        ih (k := k - (mp.dataEnd - c)) hP₁ (hpath₁.tail hnext₁) hq₁ hrest₁ (by omega) (by omega)
          hok₁
      have hk' : k = (slice X.data c (mp.dataEnd - c)).length + (k - (mp.dataEnd - c)) := by omega
      refine ⟨H', s', q', c', ok', m, ?_, ?_, ?_, hsole, hgrows.trans hgrows', hfr.trans hfr'⟩
      · simp only [hp, hX, Option.bind_eq_bind, Option.bind_some]
        rw [if_neg hhere, hend, hcall]
        simp only [hp₁, hnext₁', hq₁, Option.bind_some]
        rw [partStart_next (hV.inv hP₁) hf hpath₁ hnext₁, hkeeps.offset]
        exact hloop
      · rw [hk', List.take_length_add_append, ← List.append_assoc]
        exact hP'
      · rw [hk', List.drop_length_add_append]
        exact hdrop

end Visiting

section Advance

variable {σ : Type} {processBlock : MsgHeap → σ → Bytes → Option (MsgHeap × σ)}
  {refs : σ → ℕ → ℕ} {P : MsgHeap → σ → Bytes → Prop} {s : σ} {n f l c e k : ℕ} {bs : Bytes}

/-- `RMPF_ADVANCE` in the last part. -/
theorem lastAdvanceHeld_spec {ml : MsgPart} (h : Owns H r ⟨some f, some l, bs.length, c, e⟩ bs)
    (hspan : Span H n f c l e bs) (hheld : ∀ x, held = some x → Reach r H x)
    (hl : H.parts.cell l = some ml) (hx : bs.length ≤ e - ml.offset) (hk : k ≤ bs.length) :
    ∃ H' raw', H.lastAdvanceHeld held ⟨some f, some l, bs.length, c, e⟩ l k = some (H', raw') ∧
      Owns H' r raw' (bs.drop k) ∧ Frame False r H H' := by
  obtain ⟨X, hX, -⟩ := h.inv.buffer l ml hl
  obtain ⟨H', raw', hrun, howns, hfr⟩ := processLast_spec (k := k) .advance h hspan hl hX
    (by rwa [Nat.sub_zero]) (by rwa [Nat.zero_add])
  unfold processLast at hrun
  rw [Nat.sub_zero] at hrun
  obtain ⟨H₁, hinc, hrest⟩ := Option.bind_eq_some_iff.mp hrun
  obtain ⟨H₂, hdec, hlast⟩ := Option.bind_eq_some_iff.mp hrest
  have hmove := moveHeld_eq h hheld l
  simp only [hinc, hdec, some_bind] at hmove
  simp only [Option.some.injEq, Prod.mk.injEq, Nat.zero_add] at hlast
  obtain ⟨rfl, rfl, -⟩ := hlast
  refine ⟨H₂, ⟨some l, some l, bs.length - k, e - bs.length + k, e⟩, ?_, ?_, hfr⟩
  · unfold lastAdvanceHeld
    simp only [hinc, hmove, some_bind]
  · have hleft : leftOf bs k 0 .advance = bs.drop k := by
      unfold leftOf
      rw [Nat.zero_add]
    rwa [hleft] at howns

/-- **`rwm_process_and_advance`** hands on the first bytes of a message, and takes them. -/
theorem rwmProcessAndAdvance_spec (hV : Visitor processBlock held f r refs P) (hP : P H s [])
    (hspan : Span H n f c l e bs) (hpos : 0 < k) (hk : k ≤ bs.length) :
    ∃ H₁ s' H' raw', rwmProcessAndAdvance processBlock held H ⟨some f, some l, bs.length, c, e⟩ k s
        = some (H', raw', s', k) ∧ P H₁ s' (bs.take k) ∧
      Frame True (fun q => ref (some f) q + r q) H H₁ ∧ Owns H' (refs s') raw' (bs.drop k) ∧
      Frame False (refs s') H₁ H' := by
  have hinv := hV.inv hP
  obtain ⟨mf, -, hf, -, -⟩ := hspan.cell_first
  obtain ⟨ml, X, hl, hX, -, -⟩ := hspan.cell_last
  -- the message in the memory that `process_block` leaves
  have howns : ∀ {H₁ s' done}, P H₁ s' done →
      Frame True (fun q => ref (some f) q + r q) H H₁ →
      Owns H₁ (refs s') ⟨some f, some l, bs.length, c, e⟩ bs ∧ Span H₁ n f c l e bs :=
    fun hP₁ hfr => ⟨⟨hV.inv hP₁, Holds.chain (hspan.frame hfr (ref_add_pos f))⟩,
      hspan.frame hfr (ref_add_pos f)⟩
  unfold rwmProcessAndAdvance
  dsimp only
  have hbytes : (if bs.length < k then bs.length else k) = k := if_neg (by omega)
  rw [hbytes, if_neg hpos.ne']
  simp only [hl, Option.bind_eq_bind, Option.bind_some]
  by_cases hlast : bs.length ≤ e - ml.offset
  · -- all bytes are in the last part
    obtain ⟨-, hdrop⟩ := hspan.cut_last hinv hl hlast le_rfl
    rw [Nat.sub_self, List.drop_zero] at hdrop
    have hchunk : slice X.data (e - bs.length) k = bs.take k := hdrop.slice_eq hl hX hk
    obtain ⟨H₁, s₁, hcall, hP₁, hgrows, hfr⟩ := hV.call (bs.take k) hP
    rw [List.nil_append] at hP₁
    obtain ⟨howns₁, hspan₁⟩ := howns hP₁ hfr
    obtain ⟨ml₁, hl₁, hkeeps, -⟩ := hfr l ((reach_ref f).path hspan.path) ml hl
    obtain ⟨H', raw', hadv, howns', hfr'⟩ := lastAdvanceHeld_spec howns₁ hspan₁ (hV.held hP₁) hl₁
      (by rwa [hkeeps.offset]) hk
    refine ⟨H₁, s₁, H', raw', ?_, hP₁, hfr, howns', hfr'⟩
    rw [if_pos hlast]
    simp only [hX, hchunk, hcall, hadv, Option.bind_some]
  · have hstart : Clear H f true f := fun _ => Or.inl rfl
    obtain ⟨p, c₁, mp, ok, n₁, n₂, hfind, hp, hfront, hrest, hok⟩ := processFind_spec
      ⟨some f, some l, bs.length, c, e⟩ (k := 0) (H.parts.size + 1) hinv rfl rfl rfl
      Relation.ReflTransGen.refl hf (if_pos rfl) hspan (Nat.zero_le _)
      (Nat.lt_succ_of_lt (hspan.lt_size hinv)) hstart
    rw [List.drop_zero] at hrest
    obtain ⟨H₁, s₁, q, c', ok', n', hloop, hP₁, hdrop, hsole, hgrows, hfr⟩ := visitBlocks_spec
      ⟨some f, some l, bs.length, c, e⟩ (H.parts.size + 1) hV hP rfl rfl rfl hfront.path hp
      hrest hk (Nat.lt_succ_of_lt (hrest.lt_size hinv)) hok
    rw [List.nil_append] at hP₁
    obtain ⟨howns₁, -⟩ := howns hP₁ hfr
    obtain ⟨H₂, raw₂, hadv, howns₂, hfr₂⟩ := processAdvance_spec howns₁ hdrop hsole
    have hheld₂ : ∀ x, held = some x → Reach (refs s₁) H₂ x :=
      fun x hx => hfr₂.reach (hV.held hP₁ x hx)
    obtain ⟨H', raw', hclear, howns', hfr'⟩ := clearEmpty_spec howns₂
    refine ⟨H₁, s₁, H', raw', ?_, hP₁, hfr, howns', hfr₂.trans hfr'⟩
    rw [if_neg hlast]
    simp only [hfind, hloop, Option.bind_some]
    rw [processAdvanceHeld_eq howns₁ (hV.held hP₁), hadv, Option.bind_some,
      clearEmptyHeld_eq howns₂ hheld₂, hclear, Option.bind_some]

end Advance

end MsgHeap

end MtprotoProxy
