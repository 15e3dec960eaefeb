/-
# Runs of operations on raw messages

A state is the memory and the messages in use, by number.  `MsgState.step` is what one operation
does; it has no result when the operation reads memory that was freed, or when an assertion fails.

What the messages are for is said by `MessageValues`: each one is a list of bytes of its own, and
an operation changes the lists it is about.  `step_refines` is the theorem that the messages
behave like that, however they share parts and buffers; `Refines` carries the invariant of the
memory through any run.
-/
import MtprotoProxy.MsgProcess

namespace MtprotoProxy

open CLib

namespace MsgHeap

variable {H H' : MsgHeap} {r : ℕ → ℕ} {grow : Prop}

/-! ## Reading a message -/

/-- The bytes of a message from the part `p` on, part by part as in `rwm_check`. -/
def contentsLoop (H : MsgHeap) (raw : RawMessage) : ℕ → ℕ → Option Bytes
  | 0, _ => none
  | n + 1, p => do
    let mp ← H.parts.cell p
    let X ← H.buffers.cell mp.part
    let out := slice X.data (partStart raw p mp) (partEnd raw p mp - partStart raw p mp)
    if raw.last = some p then some out
    else do
      let q ← mp.next
      let rest ← contentsLoop H raw n q
      some (out ++ rest)

/-- The bytes of a message. -/
def contents (H : MsgHeap) (raw : RawMessage) : Option Bytes :=
  match raw.first with
  | none => some []
  | some f => H.contentsLoop raw (H.parts.size + 1) f

theorem contentsLoop_eq {raw : RawMessage} {n f p l s e : ℕ} {bs : Bytes} {mp : MsgPart}
    (fuel : ℕ) (hinv : Inv H r) (hf : raw.first = some f) (hl : raw.last = some l)
    (he : raw.lastOffset = e) (hpath : H.Path f p) (hp : H.parts.cell p = some mp)
    (hs : partStart raw p mp = s) (h : Span H n p s l e bs) (hfuel : n < fuel) :
    H.contentsLoop raw fuel p = some bs := by
  induction fuel generalizing n p s mp bs with
  | zero => exact absurd hfuel (Nat.not_lt_zero _)
  | succ fuel ih =>
    have hend : partEnd raw p mp = if n = 0 then e else mp.dataEnd := h.partEnd_eq hinv hl he
    unfold contentsLoop
    cases h with
    | last hp₀ hX _ _ _ =>
      obtain rfl := Option.mem_unique hp hp₀
      rw [if_pos rfl] at hend
      simp only [hp, hX, hs, hend, some_bind]
      exact if_pos hl
    | @step n _ _ q _ _ mp₀ mq X bs hp₀ hX hs₀ hle hnext hq hrest =>
      have hne := (Span.step hp₀ hX hs₀ hle hnext hq hrest).first_ne_last hinv
      obtain rfl := Option.mem_unique hp hp₀
      have hpq : H.Next p q := ⟨mp, hp, hnext⟩
      have hloop := ih (hpath.tail hpq) hq (partStart_next hinv hf hpath hpq) hrest (by omega)
      rw [if_neg (Nat.succ_ne_zero n)] at hend
      simp only [hp, hX, hs, hend, hnext, hloop, some_bind]
      rw [hl, if_neg (fun hb => hne (Option.some.inj hb).symm)]

/-- **A message holds what is read from it.** -/
theorem Holds.contents {raw : RawMessage} {bs : Bytes} (h : Holds H raw bs) (hinv : Inv H r) :
    H.contents raw = some bs := by
  cases h with
  | clean => rfl
  | @chain n f l s e bs hspan =>
    obtain ⟨mf, -, hf, -⟩ := hspan.cell_first
    exact contentsLoop_eq _ hinv rfl rfl rfl Relation.ReflTransGen.refl hf (if_pos rfl) hspan
      (Nat.lt_succ_of_lt (hspan.lt_size hinv))

/-! ## Memory without messages -/

/-- A part in use that no reference from outside reaches has as many parts before it as one
likes. -/
theorem Inv.steps_to (h : Inv H r) {p : ℕ} {mp : MsgPart} (hp : H.parts.cell p = some mp)
    (haway : ¬ Reach r H p) (n : ℕ) : ∃ a ma, H.parts.cell a = some ma ∧ Steps H n a p := by
  induction n with
  | zero => exact ⟨p, mp, hp, Steps.refl p⟩
  | succ n ih =>
    obtain ⟨a, ma, ha, hsteps⟩ := ih
    have hroot : r a = 0 := Nat.eq_zero_of_not_pos (fun hpos => haway ⟨a, hpos, hsteps.path⟩)
    have hpos := h.counted a ma ha
    rw [h.refcnt a ma ha, hroot, Nat.zero_add] at hpos
    obtain ⟨x, mx, hx, hnext⟩ := Store.exists_of_total_pos hpos
    exact ⟨x, mx, hx, hsteps.head ⟨mx, hx, ref_pos.mp hnext⟩⟩

/-- **A part in use is reached from outside.** -/
theorem Inv.reach (h : Inv H r) {p : ℕ} {mp : MsgPart} (hp : H.parts.cell p = some mp) :
    Reach r H p := by
  by_contra haway
  obtain ⟨a, ma, ha, hsteps⟩ := h.steps_to hp haway H.parts.size
  exact absurd (h.steps_lt hsteps (Store.lt_size ha)) (lt_irrefl _)

/-- **Without references from outside, everything is freed.** -/
theorem Inv.all_freed (h : Inv H (fun _ => 0)) :
    (∀ p, H.parts.cell p = none) ∧ ∀ b, H.buffers.cell b = none := by
  have hparts : ∀ p, H.parts.cell p = none := by
    intro p
    cases hp : H.parts.cell p with
    | none => rfl
    | some mp =>
      obtain ⟨a, hpos, -⟩ := h.reach hp
      exact absurd hpos (lt_irrefl _)
  refine ⟨hparts, ?_⟩
  intro b
  cases hb : H.buffers.cell b with
  | none => rfl
  | some X =>
    have hpos := h.bufferCounted b X hb
    rw [h.bufferRefcnt b X hb] at hpos
    obtain ⟨p, mp, hp, -⟩ := Store.exists_of_total_pos hpos
    rw [hparts p] at hp
    exact absurd hp (by simp)

end MsgHeap

open MsgHeap

/-! ## The operations -/

/-- The memory, and the messages in use. -/
structure MsgState where
  heap : MsgHeap
  handles : Store RawMessage

/-- An operation; a message that it makes gets the next number. -/
inductive RawOp where
  | create (data : Bytes)
  | pushData (i : ℕ) (data : Bytes)
  | pushDataFront (i : ℕ) (data : Bytes)
  | prependAlloc (i : ℕ) (data : Bytes)
  | postponeAlloc (i : ℕ) (data : Bytes)
  | clone (i : ℕ)
  | move (i : ℕ)
  | union (i j : ℕ)
  | split (i bytes : ℕ)
  | splitHead (i bytes : ℕ)
  | fetch (i bytes : ℕ)
  | skip (i bytes : ℕ)
  | trunc (i len : ℕ)
  | free (i : ℕ)

/-- The messages that an operation may change. -/
def RawOp.touches : RawOp → List ℕ
  | .create _ => []
  | .pushData i _ => [i]
  | .pushDataFront i _ => [i]
  | .prependAlloc i _ => [i]
  | .postponeAlloc i _ => [i]
  | .clone _ => []
  | .move i => [i]
  | .union i j => [i, j]
  | .split i _ => [i]
  | .splitHead i _ => [i]
  | .fetch i _ => [i]
  | .skip i _ => [i]
  | .trunc i _ => [i]
  | .free i => [i]

namespace MsgState

variable (S : MsgState)

/-- No messages. -/
def start (junk : ℕ → ℕ → UInt8) : MsgState := ⟨MsgHeap.empty junk, .empty⟩

/-- An operation on the message `i`. -/
def change (i : ℕ) (f : MsgHeap → RawMessage → Option (MsgHeap × RawMessage)) :
    Option (MsgState × Bytes) := do
  let raw ← S.handles.cell i
  let (H, raw) ← f S.heap raw
  some (⟨H, S.handles.put i (some raw)⟩, [])

/-- What an operation does, and the bytes it returns. -/
def step : RawOp → Option (MsgState × Bytes)
  | .create data => do
    let (H, raw) ← S.heap.rwmCreate data
    some (⟨H, S.handles.alloc raw⟩, [])
  | .pushData i data => S.change i (fun H raw => H.rwmPushData raw data)
  | .pushDataFront i data => S.change i (fun H raw => H.rwmPushDataFront raw data)
  | .prependAlloc i data => S.change i (fun H raw => H.rwmPrependAlloc raw data)
  | .postponeAlloc i data => S.change i (fun H raw => H.rwmPostponeAlloc raw data)
  | .clone i => do
    let raw ← S.handles.cell i
    let (H, dest) ← S.heap.rwmClone raw
    some (⟨H, S.handles.alloc dest⟩, [])
  | .move i => do
    let raw ← S.handles.cell i
    some (⟨S.heap, (S.handles.put i none).alloc raw⟩, [])
  | .union i j => do
    let raw ← S.handles.cell i
    let tail ← S.handles.cell j
    let (H, raw) ← S.heap.rwmUnion raw tail
    some (⟨H, (S.handles.put j none).put i (some raw)⟩, [])
  | .split i bytes => do
    let raw ← S.handles.cell i
    let (H, raw, tail) ← S.heap.rwmSplit raw rwmClean bytes
    some (⟨H, (S.handles.put i (some raw)).alloc tail⟩, [])
  | .splitHead i bytes => do
    let raw ← S.handles.cell i
    let (H, head, raw) ← S.heap.rwmSplitHead raw bytes
    some (⟨H, (S.handles.put i (some raw)).alloc head⟩, [])
  | .fetch i bytes => do
    let raw ← S.handles.cell i
    let (H, raw, out) ← S.heap.rwmFetchData raw bytes
    some (⟨H, S.handles.put i (some raw)⟩, out)
  | .skip i bytes => S.change i (fun H raw => (H.rwmSkipData raw bytes).map (fun r => (r.1, r.2.1)))
  | .trunc i len => S.change i (fun H raw => H.rwmTrunc raw len)
  | .free i => do
    let raw ← S.handles.cell i
    let H ← S.heap.rwmFree none raw
    some (⟨H, S.handles.put i none⟩, [])

/-- The message `i` is in use. -/
def Live (i : ℕ) : Prop := ∃ raw, S.handles.cell i = some raw

/-- An operation is applied to messages in use; a union to two of them, and a split not in front
of the first byte. -/
def Enabled : RawOp → Prop
  | .create _ => True
  | .pushData i _ => S.Live i
  | .pushDataFront i _ => S.Live i
  | .prependAlloc i _ => S.Live i
  | .postponeAlloc i _ => S.Live i
  | .clone i => S.Live i
  | .move i => S.Live i
  | .union i j => S.Live i ∧ S.Live j ∧ i ≠ j
  | .split i bytes => S.Live i ∧ 0 < bytes
  | .splitHead i bytes => S.Live i ∧ 0 < bytes
  | .fetch i _ => S.Live i
  | .skip i _ => S.Live i
  | .trunc i _ => S.Live i
  | .free i => S.Live i

/-- The states that operations lead to. -/
inductive Reachable (junk : ℕ → ℕ → UInt8) : MsgState → Prop
  | start : Reachable junk (MsgState.start junk)
  | step {S S' : MsgState} {op : RawOp} {out : Bytes} (h : Reachable junk S) (hop : S.Enabled op)
      (hstep : S.step op = some (S', out)) : Reachable junk S'

/-- The bytes of the message `i`. -/
def contents (i : ℕ) : Option Bytes := do
  let raw ← S.handles.cell i
  S.heap.contents raw

end MsgState

/-! ## Messages as lists of bytes -/

/-- The messages in use, each with its bytes. -/
abbrev MessageValues := Store Bytes

namespace MessageValues

variable (A : MessageValues)

def change (i : ℕ) (g : Bytes → Bytes) : Option (MessageValues × Bytes) := do
  let bs ← A.cell i
  some (A.put i (some (g bs)), [])

/-- What an operation is for, on lists of bytes. -/
def step : RawOp → Option (MessageValues × Bytes)
  | .create data => some (A.alloc data, [])
  | .pushData i data => A.change i (fun bs => bs ++ data)
  | .pushDataFront i data => A.change i (fun bs => data ++ bs)
  | .prependAlloc i data =>
    A.change i (fun bs => if msgStdBuffer < data.length then bs else data ++ bs)
  | .postponeAlloc i data =>
    A.change i (fun bs => if msgStdBuffer < data.length then bs else bs ++ data)
  | .clone i => do
    let bs ← A.cell i
    some (A.alloc bs, [])
  | .move i => do
    let bs ← A.cell i
    some ((A.put i none).alloc bs, [])
  | .union i j => do
    let bs ← A.cell i
    let bs' ← A.cell j
    some ((A.put j none).put i (some (bs ++ bs')), [])
  | .split i bytes => do
    let bs ← A.cell i
    some ((A.put i (some (bs.take bytes))).alloc (bs.drop bytes), [])
  | .splitHead i bytes => do
    let bs ← A.cell i
    some ((A.put i (some (bs.drop bytes))).alloc (bs.take bytes), [])
  | .fetch i bytes => do
    let bs ← A.cell i
    some (A.put i (some (bs.drop bytes)), bs.take bytes)
  | .skip i bytes => A.change i (fun bs => bs.drop bytes)
  | .trunc i len => A.change i (fun bs => bs.take len)
  | .free i => do
    let _ ← A.cell i
    some (A.put i none, [])

end MessageValues

/-- The references that messages hold to a part. -/
def roots (handles : Store RawMessage) (p : ℕ) : ℕ := handles.total (fun raw => ref raw.first p)

/-- The messages hold the bytes `A`. -/
structure Values (H : MsgHeap) (handles : Store RawMessage) (A : MessageValues) : Prop where
  size : handles.size = A.size
  cell : ∀ i, Option.Rel H.Holds (handles.cell i) (A.cell i)

/-- The messages of the state `S` are those of `A`, in a memory that is in order. -/
structure Refines (S : MsgState) (A : MessageValues) : Prop where
  inv : Inv S.heap (roots S.handles)
  values : Values S.heap S.handles A

section Refinement

variable {H H' : MsgHeap} {handles : Store RawMessage} {A : MessageValues} {i : ℕ}
  {raw : RawMessage} {bs : Bytes} {grow : Prop}

/-- The references of one message, and the others. -/
theorem roots_eq (hi : handles.cell i = some raw) :
    roots handles = fun p => ref raw.first p + roots (handles.put i none) p := by
  funext p
  have htotal := Store.total_put (w := fun raw : RawMessage => ref raw.first p) hi none
  simp only [Option.elim_none] at htotal
  unfold roots
  omega

theorem roots_put (hi : handles.cell i = some raw) (raw' : RawMessage) :
    roots (handles.put i (some raw'))
      = fun p => ref raw'.first p + roots (handles.put i none) p := by
  have hself : (handles.put i (some raw')).cell i = some raw' := Store.cell_put_self hi _
  rw [roots_eq hself, Store.put_put]

theorem roots_alloc (raw : RawMessage) :
    roots (handles.alloc raw) = fun p => ref raw.first p + roots handles p := by
  funext p
  unfold roots
  rw [Store.total_alloc, Nat.add_comm]

theorem Values.live (h : Values H handles A) (hi : handles.cell i = some raw) :
    ∃ bs, A.cell i = some bs ∧ H.Holds raw bs := by
  have hrel := h.cell i
  rw [hi] at hrel
  generalize A.cell i = x at hrel
  cases hrel with
  | some hholds => exact ⟨_, rfl, hholds⟩

/-- Messages keep their bytes in a memory that keeps what they reach. -/
theorem Values.frame (h : Values H handles A) (hfr : Frame grow (roots handles) H H') :
    Values H' handles A := by
  refine ⟨h.size, ?_⟩
  intro k
  have hrel := h.cell k
  generalize hk : handles.cell k = x at hrel ⊢
  generalize A.cell k = y at hrel ⊢
  cases hrel with
  | none => exact Option.Rel.none
  | some hholds =>
    refine Option.Rel.some (hholds.frame hfr (fun f hf => ?_))
    rw [roots_eq hk, hf]
    exact ref_add_pos f

theorem Values.drop (h : Values H handles A) (i : ℕ) :
    Values H (handles.put i none) (A.put i none) := by
  refine ⟨h.size, ?_⟩
  intro k
  have hsize := h.size
  unfold Store.put
  dsimp only
  rw [← hsize]
  split_ifs
  · exact Option.Rel.none
  · exact h.cell k

theorem Values.fill (h : Values H (handles.put i none) (A.put i none)) (hholds : H.Holds raw bs) :
    Values H (handles.put i (some raw)) (A.put i (some bs)) := by
  refine ⟨h.size, ?_⟩
  intro k
  have hrel := h.cell k
  have hsize : handles.size = A.size := h.size
  unfold Store.put at hrel ⊢
  dsimp only at hrel ⊢
  rw [← hsize] at hrel ⊢
  split_ifs at hrel ⊢
  · exact Option.Rel.some hholds
  · exact hrel

theorem Values.alloc (h : Values H handles A) (hholds : H.Holds raw bs) :
    Values H (handles.alloc raw) (A.alloc bs) := by
  refine ⟨congrArg (· + 1) h.size, ?_⟩
  intro k
  rw [Store.cell_alloc, Store.cell_alloc, ← h.size]
  split_ifs
  · exact Option.Rel.some hholds
  · exact h.cell k

variable {S : MsgState}

theorem Refines.owns (h : Refines S A) (hi : S.handles.cell i = some raw)
    (hholds : S.heap.Holds raw bs) : Owns S.heap (roots (S.handles.put i none)) raw bs :=
  ⟨roots_eq hi ▸ h.inv, hholds⟩

/-- **One message changes.** -/
theorem Refines.put {raw' : RawMessage} {bs' : Bytes} (h : Refines S A)
    (hi : S.handles.cell i = some raw)
    (howns : Owns H' (roots (S.handles.put i none)) raw' bs')
    (hfr : Frame grow (roots (S.handles.put i none)) S.heap H') :
    Refines ⟨H', S.handles.put i (some raw')⟩ (A.put i (some bs')) where
  inv := roots_put hi raw' ▸ howns.inv
  values := ((h.values.drop i).frame hfr).fill howns.holds

/-- An operation on one message does what its specification says. -/
theorem Refines.change (f : MsgHeap → RawMessage → Option (MsgHeap × RawMessage))
    (g : Bytes → Bytes) (h : Refines S A) (hi : S.Live i)
    (hspec : ∀ {r raw bs}, Owns S.heap r raw bs → ∃ H' raw', f S.heap raw = some (H', raw') ∧
      Owns H' r raw' (g bs) ∧ Frame True r S.heap H') :
    ∃ S' A', S.change i f = some (S', []) ∧ A.change i g = some (A', []) ∧ Refines S' A' := by
  obtain ⟨raw, hraw⟩ := hi
  obtain ⟨bs, hA, hholds⟩ := h.values.live hraw
  obtain ⟨H', raw', hrun, howns, hfr⟩ := hspec (h.owns hraw hholds)
  refine ⟨_, _, ?_, ?_, h.put hraw howns hfr⟩
  · simp only [MsgState.change, hraw, hrun, some_bind]
  · simp only [MessageValues.change, hA, some_bind]

/-- One message becomes two. -/
theorem Refines.divide {raw₁ raw₂ : RawMessage} {bs₁ bs₂ : Bytes} (h : Refines S A)
    (hi : S.handles.cell i = some raw)
    (hinv : Inv H' (fun p => ref raw₂.first p
      + (ref raw₁.first p + roots (S.handles.put i none) p)))
    (h₁ : H'.Holds raw₁ bs₁) (h₂ : H'.Holds raw₂ bs₂)
    (hfr : Frame grow (roots (S.handles.put i none)) S.heap H') :
    Refines ⟨H', (S.handles.put i (some raw₁)).alloc raw₂⟩
      ((A.put i (some bs₁)).alloc bs₂) where
  inv := by
    rw [roots_alloc, roots_put hi]
    exact hinv
  values := (((h.values.drop i).frame hfr).fill h₁).alloc h₂

/-- **The messages behave like lists of bytes**: an operation does not fail, returns the bytes
that it should, and changes the messages as if each had its bytes for itself. -/
theorem step_refines {op : RawOp} (h : Refines S A) (hop : S.Enabled op) :
    ∃ S' A' out, S.step op = some (S', out) ∧ A.step op = some (A', out) ∧ Refines S' A' := by
  cases op with
  | create data =>
    have howns : Owns S.heap (roots S.handles) rwmClean [] :=
      ⟨h.inv.congr (fun p => (Nat.zero_add _).symm), Holds.clean⟩
    obtain ⟨H', raw', -, hrun, howns', hfr⟩ := rwmPushData_spec data howns
    rw [List.nil_append] at howns'
    refine ⟨⟨H', S.handles.alloc raw'⟩, _, [], ?_, rfl, ?_, (h.values.frame hfr).alloc howns'.holds⟩
    · simp only [MsgState.step, rwmCreate, hrun, some_bind]
    · rw [roots_alloc]
      exact howns'.inv
  | pushData i data =>
    obtain ⟨S', A', hS, hA, hr⟩ := h.change (fun H raw => H.rwmPushData raw data)
      (fun bs => bs ++ data) hop (fun howns => by
        obtain ⟨H', raw', -, hpush⟩ := rwmPushData_spec data howns
        exact ⟨H', raw', hpush⟩)
    exact ⟨S', A', [], hS, hA, hr⟩
  | pushDataFront i data =>
    obtain ⟨S', A', hS, hA, hr⟩ := h.change (fun H raw => H.rwmPushDataFront raw data)
      (fun bs => data ++ bs) hop (fun howns => by
        obtain ⟨H', raw', -, hrun, howns', hfr⟩ := rwmPushDataFront_spec data howns
        exact ⟨H', raw', hrun, howns', hfr.weaken⟩)
    exact ⟨S', A', [], hS, hA, hr⟩
  | prependAlloc i data =>
    obtain ⟨S', A', hS, hA, hr⟩ := h.change (fun H raw => H.rwmPrependAlloc raw data)
      (fun bs => if msgStdBuffer < data.length then bs else data ++ bs) hop
      (fun howns => rwmPrependAlloc_spec data howns)
    exact ⟨S', A', [], hS, hA, hr⟩
  | postponeAlloc i data =>
    obtain ⟨S', A', hS, hA, hr⟩ := h.change (fun H raw => H.rwmPostponeAlloc raw data)
      (fun bs => if msgStdBuffer < data.length then bs else bs ++ data) hop
      (fun howns => rwmPostponeAlloc_spec data howns)
    exact ⟨S', A', [], hS, hA, hr⟩
  | clone i =>
    obtain ⟨raw, hraw⟩ := hop
    obtain ⟨bs, hA, hholds⟩ := h.values.live hraw
    obtain ⟨H', hrun, hinv, hholds', hfr⟩ := rwmClone_spec (h.owns hraw hholds)
    refine ⟨⟨H', S.handles.alloc raw⟩, A.alloc bs, [], ?_, ?_, ?_,
      (h.values.frame (hfr _)).alloc hholds'⟩
    · simp only [MsgState.step, hraw, hrun, some_bind]
    · simp only [MessageValues.step, hA, some_bind]
    · rw [roots_alloc, roots_eq hraw]
      exact hinv
  | move i =>
    obtain ⟨raw, hraw⟩ := hop
    obtain ⟨bs, hA, hholds⟩ := h.values.live hraw
    refine ⟨⟨S.heap, (S.handles.put i none).alloc raw⟩, (A.put i none).alloc bs, [], ?_, ?_, ?_,
      (h.values.drop i).alloc hholds⟩
    · simp only [MsgState.step, hraw, some_bind]
    · simp only [MessageValues.step, hA, some_bind]
    · rw [roots_alloc, ← roots_eq hraw]
      exact h.inv
  | union i j =>
    obtain ⟨⟨raw, hraw⟩, ⟨tail, htail⟩, hij⟩ := hop
    obtain ⟨bs, hA, hholds⟩ := h.values.live hraw
    obtain ⟨bs', hA', hholds'⟩ := h.values.live htail
    have hraw' : (S.handles.put j none).cell i = some raw :=
      (Store.cell_put_ne hij none).trans hraw
    have hinv : Inv S.heap (fun p => ref raw.first p
        + (ref tail.first p + roots ((S.handles.put j none).put i none) p)) := by
      have hinv₀ := h.inv
      rw [roots_eq htail, roots_eq hraw'] at hinv₀
      exact hinv₀.congr (fun p => Nat.add_left_comm _ _ _)
    obtain ⟨H', raw', hrun, howns, hfr⟩ := rwmUnion_spec hinv hholds hholds'
    refine ⟨⟨H', (S.handles.put j none).put i (some raw')⟩,
      (A.put j none).put i (some (bs ++ bs')), [], ?_, ?_, ?_, ?_⟩
    · simp only [MsgState.step, hraw, htail, hrun, some_bind]
    · simp only [MessageValues.step, hA, hA', some_bind]
    · rw [roots_put hraw']
      exact howns.inv
    · exact (((h.values.drop j).drop i).frame hfr).fill howns.holds
  | split i bytes =>
    obtain ⟨⟨raw, hraw⟩, hpos⟩ := hop
    obtain ⟨bs, hA, hholds⟩ := h.values.live hraw
    obtain ⟨H', head, tail, hrun, hinv, h₁, h₂, hfr⟩ :=
      rwmSplit_spec rwmClean (h.owns hraw hholds) (Or.inl hpos)
    refine ⟨_, (A.put i (some (bs.take bytes))).alloc (bs.drop bytes), [], ?_, ?_,
      h.divide hraw (hinv.congr (fun p => Nat.add_left_comm _ _ _)) h₁ h₂ hfr⟩
    · simp only [MsgState.step, hraw, hrun, some_bind]
    · simp only [MessageValues.step, hA, some_bind]
  | splitHead i bytes =>
    obtain ⟨⟨raw, hraw⟩, hpos⟩ := hop
    obtain ⟨bs, hA, hholds⟩ := h.values.live hraw
    obtain ⟨H', head, tail, hrun, hinv, h₁, h₂, hfr⟩ :=
      rwmSplit_spec raw (h.owns hraw hholds) (Or.inl hpos)
    refine ⟨_, (A.put i (some (bs.drop bytes))).alloc (bs.take bytes), [], ?_, ?_,
      h.divide hraw hinv h₂ h₁ hfr⟩
    · simp only [MsgState.step, rwmSplitHead, hraw, hrun, some_bind]
    · simp only [MessageValues.step, hA, some_bind]
  | fetch i bytes =>
    obtain ⟨raw, hraw⟩ := hop
    obtain ⟨bs, hA, hholds⟩ := h.values.live hraw
    obtain ⟨H', raw', hrun, howns, hfr⟩ := rwmFetchData_spec bytes (h.owns hraw hholds)
    refine ⟨_, A.put i (some (bs.drop bytes)), bs.take bytes, ?_, ?_, h.put hraw howns hfr⟩
    · simp only [MsgState.step, hraw, hrun, some_bind]
    · simp only [MessageValues.step, hA, some_bind]
  | skip i bytes =>
    obtain ⟨S', A', hS, hA, hr⟩ := h.change
      (fun H raw => (H.rwmSkipData raw bytes).map (fun r => (r.1, r.2.1)))
      (fun bs => bs.drop bytes) hop (fun howns => by
        obtain ⟨H', raw', hrun, howns', hfr⟩ := rwmSkipData_spec bytes howns
        exact ⟨H', raw', by rw [hrun, Option.map_some], howns', hfr.weaken⟩)
    exact ⟨S', A', [], hS, hA, hr⟩
  | trunc i len =>
    obtain ⟨S', A', hS, hA, hr⟩ := h.change (fun H raw => H.rwmTrunc raw len)
      (fun bs => bs.take len) hop (fun howns => by
        obtain ⟨H', raw', hrun, howns', hfr⟩ := rwmTrunc_spec len howns
        exact ⟨H', raw', hrun, howns', hfr.weaken⟩)
    exact ⟨S', A', [], hS, hA, hr⟩
  | free i =>
    obtain ⟨raw, hraw⟩ := hop
    obtain ⟨bs, hA, hholds⟩ := h.values.live hraw
    obtain ⟨H', hrun, hinv, hfr⟩ := rwmFree_spec (h.owns hraw hholds)
    refine ⟨⟨H', S.handles.put i none⟩, A.put i none, [], ?_, ?_, hinv,
      (h.values.drop i).frame hfr⟩
    · simp only [MsgState.step, hraw, hrun, some_bind]
    · simp only [MessageValues.step, hA, some_bind]

theorem refines_start (junk : ℕ → ℕ → UInt8) : Refines (MsgState.start junk) .empty where
  inv := Inv.empty junk
  values := ⟨rfl, fun _ => Option.Rel.none⟩

/-- **In every run** the messages are lists of bytes. -/
theorem Reachable.refines {junk : ℕ → ℕ → UInt8} (h : S.Reachable junk) :
    ∃ A, Refines S A := by
  induction h with
  | start => exact ⟨_, refines_start junk⟩
  | @step S S' op out _ hop hstep ih =>
    obtain ⟨A, hA⟩ := ih
    obtain ⟨S'', A'', out', hstep', -, hr⟩ := step_refines hA hop
    rw [hstep] at hstep'
    obtain ⟨rfl, rfl⟩ := Prod.mk.inj (Option.some.inj hstep')
    exact ⟨A'', hr⟩

theorem Refines.contents (h : Refines S A) (i : ℕ) : S.contents i = A.cell i := by
  have hrel := h.values.cell i
  unfold MsgState.contents
  generalize S.handles.cell i = x at hrel ⊢
  generalize A.cell i = y at hrel ⊢
  cases hrel with
  | none => rfl
  | some hholds => exact hholds.contents h.inv

/-- An operation leaves the lists alone that it is not about. -/
theorem MessageValues.step_other {A' : MessageValues} {op : RawOp} {out : Bytes}
    (hstep : A.step op = some (A', out)) (hi : i ∉ op.touches) (hlive : i < A.size) :
    A'.cell i = A.cell i := by
  have hput : ∀ {j : ℕ} (x : Option Bytes), i ≠ j → (A.put j x).cell i = A.cell i :=
    fun x hij => Store.cell_put_ne hij x
  have halloc : ∀ (s : Store Bytes) (b : Bytes), s.size = A.size → (s.alloc b).cell i = s.cell i :=
    fun s b hs => if_neg (by omega)
  have hchange : ∀ {j : ℕ} (g : Bytes → Bytes), i ≠ j → A.change j g = some (A', out) →
      A'.cell i = A.cell i := by
    intro j g hij hrun
    obtain ⟨bs, -, hrun⟩ := Option.bind_eq_some_iff.mp hrun
    rw [← (Prod.mk.inj (Option.some.inj hrun)).1]
    exact hput _ hij
  cases op with
  | create data =>
    rw [← (Prod.mk.inj (Option.some.inj hstep)).1]
    exact halloc _ _ rfl
  | pushData j data => exact hchange _ (List.ne_of_not_mem_cons hi) hstep
  | pushDataFront j data => exact hchange _ (List.ne_of_not_mem_cons hi) hstep
  | prependAlloc j data => exact hchange _ (List.ne_of_not_mem_cons hi) hstep
  | postponeAlloc j data => exact hchange _ (List.ne_of_not_mem_cons hi) hstep
  | skip j bytes => exact hchange _ (List.ne_of_not_mem_cons hi) hstep
  | trunc j len => exact hchange _ (List.ne_of_not_mem_cons hi) hstep
  | clone j =>
    obtain ⟨bs, -, hrun⟩ := Option.bind_eq_some_iff.mp hstep
    rw [← (Prod.mk.inj (Option.some.inj hrun)).1]
    exact halloc _ _ rfl
  | move j =>
    obtain ⟨bs, -, hrun⟩ := Option.bind_eq_some_iff.mp hstep
    rw [← (Prod.mk.inj (Option.some.inj hrun)).1, halloc _ _ (by rfl)]
    exact hput _ (List.ne_of_not_mem_cons hi)
  | union j k =>
    obtain ⟨bs, -, hrun⟩ := Option.bind_eq_some_iff.mp hstep
    obtain ⟨bs', -, hrun⟩ := Option.bind_eq_some_iff.mp hrun
    have hij : i ≠ j := List.ne_of_not_mem_cons hi
    have hik : i ≠ k := List.ne_of_not_mem_cons (List.not_mem_of_not_mem_cons hi)
    rw [← (Prod.mk.inj (Option.some.inj hrun)).1, Store.cell_put_ne hij]
    exact hput _ hik
  | split j bytes =>
    obtain ⟨bs, -, hrun⟩ := Option.bind_eq_some_iff.mp hstep
    rw [← (Prod.mk.inj (Option.some.inj hrun)).1, halloc _ _ (by rfl)]
    exact hput _ (List.ne_of_not_mem_cons hi)
  | splitHead j bytes =>
    obtain ⟨bs, -, hrun⟩ := Option.bind_eq_some_iff.mp hstep
    rw [← (Prod.mk.inj (Option.some.inj hrun)).1, halloc _ _ (by rfl)]
    exact hput _ (List.ne_of_not_mem_cons hi)
  | fetch j bytes =>
    obtain ⟨bs, -, hrun⟩ := Option.bind_eq_some_iff.mp hstep
    rw [← (Prod.mk.inj (Option.some.inj hrun)).1]
    exact hput _ (List.ne_of_not_mem_cons hi)
  | free j =>
    obtain ⟨bs, -, hrun⟩ := Option.bind_eq_some_iff.mp hstep
    rw [← (Prod.mk.inj (Option.some.inj hrun)).1]
    exact hput _ (List.ne_of_not_mem_cons hi)

end Refinement

/-- The messages in use whose first part is `p`, and the parts that go on to `p`. -/
def MsgState.references (S : MsgState) (p : ℕ) : ℕ :=
  S.handles.total (fun raw => if raw.first = some p then 1 else 0)
    + S.heap.parts.total (fun mp => if mp.next = some p then 1 else 0)

/-- **The memory of raw messages is in order in every run.**  The reference counts of parts and
buffers are exact; what a message reaches is not freed, and it holds as many bytes as it says;
without messages everything is freed.  An operation does not fail, and every message that it is
not about holds the same bytes afterwards.

`refcnt` and `total_bytes` are of the type `int`, which a count exceeds with `2 ^ 31` messages and
parts that refer to one part or buffer, and a length with a message of `2 ^ 31` bytes. -/
theorem raw_messages_separate {junk : ℕ → ℕ → UInt8} {S : MsgState} (h : S.Reachable junk) :
    (∀ p mp, S.heap.parts.cell p = some mp → mp.refcnt = S.references p) ∧
    (∀ b X, S.heap.buffers.cell b = some X →
      X.refcnt = S.heap.parts.total (fun mp => if mp.part = b then 1 else 0)) ∧
    (∀ i raw f p, S.handles.cell i = some raw → raw.first = some f → S.heap.Path f p →
      ∃ mp X, S.heap.parts.cell p = some mp ∧ S.heap.buffers.cell mp.part = some X) ∧
    (∀ i raw, S.handles.cell i = some raw →
      ∃ bs, S.contents i = some bs ∧ bs.length = raw.totalBytes) ∧
    ((∀ i, S.handles.cell i = none) →
      (∀ p, S.heap.parts.cell p = none) ∧ ∀ b, S.heap.buffers.cell b = none) ∧
    ∀ op, S.Enabled op → ∃ S' out, S.step op = some (S', out) ∧
      ∀ i, S.Live i → i ∉ op.touches → S'.contents i = S.contents i := by
  obtain ⟨A, hA⟩ := Reachable.refines h
  refine ⟨hA.inv.refcnt, hA.inv.bufferRefcnt, ?_, ?_, ?_, ?_⟩
  · intro i raw f p hi hf hp
    have hroot : 0 < roots S.handles f := by
      rw [roots_eq hi, hf]
      exact ref_add_pos f
    obtain ⟨mp, hmp⟩ := hA.inv.live ⟨f, hroot, hp⟩
    obtain ⟨X, hX, -⟩ := hA.inv.buffer p mp hmp
    exact ⟨mp, X, hmp, hX⟩
  · intro i raw hi
    obtain ⟨bs, hbs, hholds⟩ := hA.values.live hi
    exact ⟨bs, (hA.contents i).trans hbs, hholds.totalBytes.symm⟩
  · intro hnone
    refine (hA.inv.congr (fun p => ?_)).all_freed
    refine Store.total_eq_zero (fun i raw hi => ?_)
    rw [hnone i] at hi
    exact absurd hi (by simp)
  · intro op hop
    obtain ⟨S', A', out, hstep, hstep', hA'⟩ := step_refines hA hop
    refine ⟨S', out, hstep, ?_⟩
    rintro i ⟨raw, hi⟩ htouch
    have hlt : i < A.size := hA.values.size ▸ Store.lt_size hi
    rw [hA'.contents, hA.contents, MessageValues.step_other hstep' htouch hlt]

/-- A message of one byte is created and cloned. -/
theorem clone_reachable : ∃ S₁ S₂ out₁ out₂ raw₀ raw₁,
    (MsgState.start (fun _ _ => 0)).step (.create [104]) = some (S₁, out₁) ∧
    S₁.step (.clone 0) = some (S₂, out₂) ∧ S₂.Reachable (fun _ _ => 0) ∧
    S₂.handles.cell 0 = some raw₀ ∧ S₂.handles.cell 1 = some raw₁ := by
  have hrun : (do
      let (S₁, _) ← (MsgState.start (fun _ _ => 0)).step (.create [104])
      let (S₂, _) ← S₁.step (.clone 0)
      some ((S₁.handles.cell 0).isSome, (S₂.handles.cell 0).isSome, (S₂.handles.cell 1).isSome))
      = some (true, true, true) := by
    decide +kernel
  obtain ⟨⟨S₁, out₁⟩, h₁, hrun⟩ := Option.bind_eq_some_iff.mp hrun
  obtain ⟨⟨S₂, out₂⟩, h₂, hrun⟩ := Option.bind_eq_some_iff.mp hrun
  simp only [Option.some.injEq, Prod.mk.injEq, Option.isSome_iff_exists] at hrun
  obtain ⟨hlive, ⟨raw₀, hraw₀⟩, raw₁, hraw₁⟩ := hrun
  have hcreate : (MsgState.start (fun _ _ => 0)).Enabled (.create [104]) := trivial
  have hclone : S₁.Enabled (.clone 0) := hlive
  exact ⟨S₁, S₂, out₁, out₂, raw₀, raw₁, h₁, h₂, .step (.step .start hcreate h₁) hclone h₂, hraw₀,
    hraw₁⟩

/-- Bytes put behind a clone do not come to the message that was cloned. -/
theorem raw_messages_separate_clone : ∃ S₁ S₂ S₃ out₁ out₂ out₃,
    (MsgState.start (fun _ _ => 0)).step (.create [104]) = some (S₁, out₁) ∧
    S₁.step (.clone 0) = some (S₂, out₂) ∧ S₂.step (.pushData 1 [105]) = some (S₃, out₃) ∧
    S₃.contents 0 = S₂.contents 0 := by
  obtain ⟨S₁, S₂, out₁, out₂, raw₀, raw₁, h₁, h₂, hreach, hraw₀, hraw₁⟩ := clone_reachable
  obtain ⟨-, -, -, -, -, hstep⟩ := raw_messages_separate hreach
  obtain ⟨S₃, out₃, h₃, hother⟩ := hstep (.pushData 1 [105]) ⟨raw₁, hraw₁⟩
  exact ⟨S₁, S₂, S₃, out₁, out₂, out₃, h₁, h₂, h₃, hother 0 ⟨raw₀, hraw₀⟩ (by decide)⟩

end MtprotoProxy
