/-
# Whole runs over both kinds of input

Each operation is built from the methods, so it agrees on a string and on a message
(`tlStep_agrees`), and a run of operations gives the same results and leaves the same to see
(`tl_backends_agree`).  The rules are those of programs in lockstep; what an operation knows after
a check is in `checked`.
-/
import MtprotoProxy.TlBackends

namespace MtprotoProxy

open CLib

section Operations

variable {s : Bytes} {size : ℕ} {c : TlIn} {α β : Type}

/-- What is seen of related states is the same. -/
theorem Mirror.view {X : TlState ℤ} {Y : TlState ℕ} (h : Mirror s size X Y) : X.view = Y.view := by
  obtain ⟨A, B, i, h⟩ := h
  have hout := h.out
  unfold TlState.view
  rw [h.cur]
  generalize X.out = o at hout ⊢
  generalize Y.out = o' at hout ⊢
  cases hout with
  | str w pos remaining => rfl
  | rawMsg pos remaining hleft hright _ _ =>
    simp only [h.left.contents, h.right.contents, hleft, hright]

/-- An operation agrees if it does whatever is kept. -/
theorem agrees_of_at {m : TlM ℤ α} {n : TlM ℕ α} {Q : α → TlState ℤ → TlState ℕ → Prop}
    (h : ∀ c, Agrees (At s size c) m n Q) : Agrees (Mirror s size) m n Q :=
  fun X Y hXY => h X.cur X Y ⟨hXY, rfl⟩

theorem agrees_post_mirror {m : TlM ℤ α} {n : TlM ℕ α} {P : TlState ℤ → TlState ℕ → Prop}
    {c : TlIn} (h : Agrees P m n (fun _ => At s size c)) :
    Agrees P m n (fun _ => Mirror s size) :=
  h.post (fun _ _ _ hQ => hQ.1)

theorem agrees_pure (a : α) : Agrees (At s size c) (pure a : TlM ℤ α) (pure a : TlM ℕ α)
    (fun _ => Mirror s size) :=
  Agrees.pure (fun _ _ h => h.1)

/-- Reading what is kept. -/
theorem tlIn_bind {f : TlIn → TlM ℤ β} {g : TlIn → TlM ℕ β}
    {R : β → TlState ℤ → TlState ℕ → Prop} (h : Agrees (At s size c) (f c) (g c) R) :
    Agrees (At s size c) (tlIn >>= f) (tlIn >>= g) R := by
  rintro X Y ⟨⟨A, B, i, hXY⟩, rfl⟩
  have hrun := h X Y ⟨⟨A, B, i, hXY⟩, rfl⟩
  change (f X.cur X = none ∧ g Y.cur Y = none) ∨
    ∃ a X' Y', f X.cur X = some (a, X') ∧ g Y.cur Y = some (a, Y') ∧ R a X' Y'
  rw [hXY.cur]
  exact hrun

/-- Only the error changes. -/
theorem tlSetIn_agrees {c' : TlIn} (hremaining : c'.remaining = c.remaining)
    (hpos : c'.pos = c.pos) (hmark : c'.markPos = c.markPos) :
    Agrees (At s size c) (tlSetIn c') (tlSetIn c') (fun _ => At s size c') := by
  rintro X Y ⟨⟨A, B, i, h⟩, rfl⟩
  refine .inr ⟨(), _, _, rfl, rfl, ⟨A, B, i, h.left, h.right, rfl, ?_, ?_, ?_, ?_, h.message, ?_,
    ?_, h.out⟩, rfl⟩
  · exact hpos ▸ h.pos
  · exact hremaining ▸ h.remaining
  · change c'.pos + c'.remaining = size
    rw [hpos, hremaining]
    exact h.total
  · change X.input = some c'.pos
    rw [hpos]
    exact h.input
  · change B.cell i = some (s.drop c'.pos.toNat)
    rw [hpos]
    exact h.rest
  · change MarkMirror s size B i c'.markPos X.mark Y.mark
    rw [hmark]
    exact h.mark

theorem TlIn.setError_counts (c : TlIn) (errnum : ℤ) (text : String) :
    (c.setError errnum text).remaining = c.remaining ∧ (c.setError errnum text).pos = c.pos ∧
      (c.setError errnum text).markPos = c.markPos := by
  unfold TlIn.setError
  split_ifs
  · exact ⟨rfl, rfl, rfl⟩
  · exact ⟨rfl, rfl, rfl⟩

/-- An operation that ends with an error. -/
theorem setError_agrees (errnum : ℤ) (text : String) (a : α) :
    Agrees (At s size c)
      (do
        tlfSetError errnum text
        pure a : TlM ℤ α)
      (do
        tlfSetError errnum text
        pure a : TlM ℕ α) (fun _ => Mirror s size) := by
  obtain ⟨hremaining, hpos, hmark⟩ := c.setError_counts errnum text
  refine Agrees.bind (tlIn_bind (tlSetIn_agrees hremaining hpos hmark)) (fun _ => ?_)
  exact agrees_pure a

theorem tlfCheck_agrees (n : ℤ) : Agrees (At s size c) (tlfCheck n) (tlfCheck n)
    (fun ok X Y => ok = (c.check n).1 ∧ At s size (c.check n).2 X Y) := by
  apply tlIn_bind
  have hcounts := c.setError_counts TlIn.tlErrorNotEnoughData (c.notEnoughText n)
  have hset : Agrees (At s size c) (tlSetIn (c.check n).2) (tlSetIn (c.check n).2)
      (fun _ => At s size (c.check n).2) := by
    unfold TlIn.check
    split_ifs
    · exact tlSetIn_agrees rfl rfl rfl
    · exact tlSetIn_agrees hcounts.1 hcounts.2.1 hcounts.2.2
  exact hset.bind (fun _ => Agrees.pure (fun _ _ h => ⟨rfl, h⟩))

/-- The end of a run that depends on a check: what the check says is known when it succeeds. -/
theorem checked {n : ℤ} {m e : TlM ℤ β} {m' e' : TlM ℕ β}
    {Q : β → TlState ℤ → TlState ℕ → Prop}
    (hok : c.Fits n → n ≤ c.remaining → c.error = none → Agrees (At s size c) m m' Q)
    (herr : ∀ c, Agrees (At s size c) e e' Q) :
    Agrees (At s size c) (do if ← tlfCheck n then m else e) (do if ← tlfCheck n then m' else e')
      Q := by
  refine (tlfCheck_agrees n).bind (fun ok X Y hXY => ?_)
  obtain ⟨rfl, hAt⟩ := hXY
  by_cases hfits : c.Fits n
  · have hcheck' : c.check n = (c.error.isNone, c) := if_pos hfits
    rw [hcheck'] at hAt ⊢
    dsimp only at hAt ⊢
    cases herror : c.error with
    | none =>
      have hremaining : n ≤ c.remaining := by
        obtain ⟨⟨A, B, i, h⟩, rfl⟩ := hAt
        have hnonneg := h.remaining
        rcases lt_or_ge n 0 with hneg | hpos
        · omega
        · exact hfits.1 hpos
      exact hok hfits hremaining herror X Y hAt
    | some e => exact herr c X Y hAt
  · have hcheck' : (c.check n).1 = false := by
      unfold TlIn.check
      rw [if_neg hfits]
    rw [hcheck']
    exact herr _ X Y hAt

section Agreement

variable (hsize : size ≤ s.length)
include hsize

theorem tlfLookup_agrees (n : ℤ) (f : Bytes → α) (d : α) : Agrees (Mirror s size)
    (tlfLookup (tlInStrMethods s) n f d) (tlfLookup tlInRawMsgMethods n f d)
    (fun _ => Mirror s size) :=
  agrees_of_at (fun _ => checked
    (fun _ hle _ => (lookup_agrees hsize hle).bind (fun _ => agrees_pure _))
    (fun _ => agrees_pure _))

theorem tlfFetch_agrees (n : ℤ) (f : Bytes → α) (d : α) : Agrees (Mirror s size)
    (tlfFetch (tlInStrMethods s) n f d) (tlfFetch tlInRawMsgMethods n f d)
    (fun _ => Mirror s size) :=
  agrees_of_at (fun _ => checked
    (fun _ hle _ => (takeRawData_agrees hsize hle).bind (fun _ => agrees_pure _))
    (fun _ => agrees_pure _))

omit hsize in
theorem tlfRange_agrees (kind : String) (lo hi x : ℤ) : Agrees (Mirror s size)
    (tlfRange kind lo hi x) (tlfRange kind lo hi x) (fun _ => Mirror s size) :=
  agrees_of_at (fun _ => Agrees.ite (fun _ => setError_agrees _ _ _) (fun _ => agrees_pure _))

omit hsize in
theorem tlfStringBound_agrees (maxLen x : ℤ) : Agrees (Mirror s size)
    (tlfStringBound maxLen x) (tlfStringBound maxLen x) (fun _ => Mirror s size) := by
  refine agrees_of_at (fun c => tlIn_bind ?_)
  refine Agrees.ite (fun _ => setError_agrees _ _ _) (fun _ => ?_)
  exact Agrees.ite (fun _ => setError_agrees _ _ _) (fun _ => agrees_pure _)

/-- Four bytes were there, and one was taken, so the other three can be taken. -/
theorem tlfStringLenRest_agrees (x : Bytes) (h : 4 ≤ c.remaining) :
    Agrees (At s size (c.advance 1)) (tlfStringLenRest (tlInStrMethods s) x)
      (tlfStringLenRest tlInRawMsgMethods x) (fun _ => Mirror s size) := by
  have hthree : 3 ≤ (c.advance 1).remaining := by
    change 3 ≤ c.remaining - 1
    omega
  refine Agrees.ite (fun _ => ?_) (fun _ => agrees_pure _)
  exact (takeRawData_agrees hsize hthree).bind (fun y => agrees_pure _)

theorem tlfStringLen_agrees (maxLen : ℤ) : Agrees (Mirror s size)
    (tlfStringLen (tlInStrMethods s) maxLen) (tlfStringLen tlInRawMsgMethods maxLen)
    (fun _ => Mirror s size) := by
  refine agrees_of_at (fun c => checked (fun _ hle _ => ?_) (fun _ => agrees_pure _))
  refine (takeRawData_agrees hsize (by omega)).bind (fun x => ?_)
  refine Agrees.ite (fun _ => setError_agrees _ _ _) (fun _ => ?_)
  exact (tlfStringLenRest_agrees hsize x hle).bind (fun y => tlfStringBound_agrees maxLen y)

theorem tlfPad_agrees : Agrees (Mirror s size)
    (tlfPad (tlInStrMethods s)) (tlfPad tlInRawMsgMethods) (fun _ => Mirror s size) := by
  refine agrees_of_at (fun c => tlIn_bind ?_)
  refine checked (fun _ hle _ => ?_) (fun _ => agrees_pure _)
  refine Agrees.assert.bind (fun _ => ?_)
  refine ((takeRawData_agrees hsize hle).pre (fun X Y h => h.1)).bind (fun t => ?_)
  exact Agrees.ite (fun _ => agrees_pure _) (fun _ => setError_agrees _ _ _)

theorem tlfRawData_agrees (len : ℤ) : Agrees (Mirror s size)
    (tlfRawData (tlInStrMethods s) len) (tlfRawData tlInRawMsgMethods len)
    (fun _ => Mirror s size) :=
  Agrees.assert.bind (fun _ => (tlfFetch_agrees hsize len _ _).pre (fun _ _ h => h.1))

theorem tlfStringData_agrees (len : ℤ) : Agrees (Mirror s size)
    (tlfStringData (tlInStrMethods s) len) (tlfStringData tlInRawMsgMethods len)
    (fun _ => Mirror s size) := by
  refine agrees_of_at (fun _ => checked (fun _ hle _ => ?_) (fun _ => agrees_pure _))
  refine (agrees_post_mirror (takeRawData_agrees hsize hle)).bind (fun bs => ?_)
  exact (tlfPad_agrees hsize).bind (fun _ => Agrees.pure (fun _ _ h => h))

/-- A number of bytes that is not negative is skipped alike. -/
theorem tlfSkip_agrees {len : ℤ} (hlen : c.Fits len → c.error = none → 0 ≤ len) :
    Agrees (At s size c) (tlfSkip (tlInStrMethods s) len) (tlfSkip tlInRawMsgMethods len)
      (fun _ => Mirror s size) :=
  checked
    (fun hfits hle herror => (skipRawData_agrees hsize (hlen hfits herror) hle).bind
      (fun _ => agrees_pure _))
    (fun _ => agrees_pure _)

theorem tlfSkipStringData_agrees {len : ℤ} (hlen : c.Fits len → c.error = none → 0 ≤ len) :
    Agrees (At s size c) (tlfSkipStringData (tlInStrMethods s) len)
      (tlfSkipStringData tlInRawMsgMethods len) (fun _ => Mirror s size) := by
  refine checked (fun hfits hle herror => ?_) (fun _ => agrees_pure _)
  refine (agrees_post_mirror (skipRawData_agrees hsize (hlen hfits herror) hle)).bind (fun _ => ?_)
  exact (tlfPad_agrees hsize).bind (fun _ => Agrees.pure (fun _ _ h => h))

theorem tlfString_agrees (maxLen : ℤ) : Agrees (Mirror s size)
    (tlfString (tlInStrMethods s) maxLen) (tlfString tlInRawMsgMethods maxLen)
    (fun _ => Mirror s size) := by
  refine (tlfStringLen_agrees hsize maxLen).bind (fun l => ?_)
  refine Agrees.ite (fun _ => Agrees.pure (fun _ _ h => h)) (fun _ => ?_)
  exact (tlfStringData_agrees hsize l).bind (fun _ => Agrees.pure (fun _ _ h => h))

theorem tlfSkipString_agrees (maxLen : ℤ) : Agrees (Mirror s size)
    (tlfSkipString (tlInStrMethods s) maxLen) (tlfSkipString tlInRawMsgMethods maxLen)
    (fun _ => Mirror s size) := by
  refine (tlfStringLen_agrees hsize maxLen).bind (fun l => ?_)
  refine Agrees.ite (fun _ => Agrees.pure (fun _ _ h => h)) (fun hl => ?_)
  refine Agrees.bind (agrees_of_at (fun c => ?_)) (fun _ => Agrees.pure (fun _ _ h => h))
  exact tlfSkipStringData_agrees hsize (fun _ _ => not_lt.mp hl)

theorem tlfString0_agrees (maxLen : ℤ) : Agrees (Mirror s size)
    (tlfString0 (tlInStrMethods s) maxLen) (tlfString0 tlInRawMsgMethods maxLen)
    (fun _ => Mirror s size) :=
  (tlfString_agrees hsize maxLen).bind (fun _ => Agrees.pure (fun _ _ h => h))

omit hsize in
theorem tlsCheck_bind {n : ℤ} {m e : TlM ℤ β} {m' e' : TlM ℕ β}
    {Q : β → TlState ℤ → TlState ℕ → Prop} {P : TlState ℤ → TlState ℕ → Prop}
    (hmirror : ∀ X Y, P X Y → Mirror s size X Y)
    (hok : Agrees (fun X Y => P X Y ∧ n ≤ X.out.remaining) m m' Q) (herr : Agrees P e e' Q) :
    Agrees P (do if ← tlsCheck n then m else e) (do if ← tlsCheck n then m' else e') Q := by
  intro X Y hP
  have hview := (hmirror X Y hP).view
  have hremaining : Y.out.remaining = X.out.remaining := (congrArg TlView.outRemaining hview).symm
  change ((if decide (n ≤ X.out.remaining) then m else e) X = none ∧
      (if decide (n ≤ Y.out.remaining) then m' else e') Y = none) ∨ ∃ a X' Y',
    (if decide (n ≤ X.out.remaining) then m else e) X = some (a, X') ∧
      (if decide (n ≤ Y.out.remaining) then m' else e') Y = some (a, Y') ∧ Q a X' Y'
  rw [hremaining]
  by_cases hn : n ≤ X.out.remaining
  · rw [decide_eq_true hn]
    exact hok X Y ⟨hP, hn⟩
  · rw [decide_eq_false hn]
    exact herr X Y hP

end Agreement

end Operations

/-! ## The condition -/

/-- A step that both kinds of input are made for: bytes that are skipped or copied are not counted
backwards, a mark that is used was set, and the flag of a copy is its length, or not set. -/
def TlState.Sound {ι : Type} (X : TlState ι) : TlOp → Prop
  | .skip len => X.cur.Fits len → X.cur.error = none → 0 ≤ len
  | .skipStringData len => X.cur.Fits len → X.cur.error = none → 0 ≤ len
  | .markRestore => X.mark.isSome
  | .markDelete => X.mark.isSome
  | .copyThrough len advance => X.cur.Fits len → X.cur.error = none → len ≤ X.out.remaining →
      0 ≤ len ∧ (advance = 0 ∨ advance = len)
  | _ => True

/-- All steps of a run are. -/
def SoundRun {ι : Type} (M : TlInMethods ι) : TlState ι → List TlOp → Prop
  | _, [] => True
  | X, op :: ops => X.Sound op ∧ ∀ r X', tlStep M op X = some (r, X') → SoundRun M X' ops

section Runs

variable {s : Bytes} {size : ℕ} {X : TlState ℤ} {Y : TlState ℕ}

theorem noBytes_agrees {P : TlState ℤ → TlState ℕ → Prop} {m : TlM ℤ ℤ} {n : TlM ℕ ℤ}
    (h : Agrees P m n (fun _ => Mirror s size)) :
    Agrees P (noBytes m) (noBytes n) (fun _ => Mirror s size) :=
  h.bind (fun _ => Agrees.pure (fun _ _ h => h))

theorem noResult_agrees {P : TlState ℤ → TlState ℕ → Prop} {m : TlM ℤ Unit} {n : TlM ℕ Unit}
    (h : Agrees P m n (fun _ => Mirror s size)) :
    Agrees P (noResult m) (noResult n) (fun _ => Mirror s size) :=
  h.bind (fun _ => Agrees.pure (fun _ _ h => h))

/-- Without room in the output, only the check is made. -/
theorem tlCopyThrough_of_no_room {ι : Type} (M : TlInMethods ι) {Z : TlState ι} {len : ℤ}
    (advance : ℤ) (hroom : ¬len ≤ Z.out.remaining) : tlCopyThrough M len advance Z
      = (tlfCheck len Z).bind (fun r => some (-1, r.2)) := by
  have hout : ¬len ≤ ({ Z with cur := (Z.cur.check len).2 } : TlState ι).out.remaining := hroom
  change (if (Z.cur.check len).1 = true then _ else _ : TlM ι ℤ)
    { Z with cur := (Z.cur.check len).2 } = some (-1, { Z with cur := (Z.cur.check len).2 })
  split_ifs
  · change (if decide (len ≤ ({ Z with cur := (Z.cur.check len).2 } : TlState ι).out.remaining)
      then _ else _ : TlM ι ℤ) { Z with cur := (Z.cur.check len).2 } = _
    rw [decide_eq_false hout]
    rfl
  · rfl

theorem tlCopyThrough_agrees {len advance : ℤ} (hsize : size ≤ s.length) :
    Agrees (fun X Y => Mirror s size X Y ∧ X.Sound (.copyThrough len advance))
      (tlCopyThrough (tlInStrMethods s) len advance) (tlCopyThrough tlInRawMsgMethods len advance)
      (fun _ => Mirror s size) := by
  rintro X Y ⟨hXY, hsound⟩
  by_cases hroom : len ≤ X.out.remaining
  · have hcopy : Agrees (At s size X.cur) (tlCopyThrough (tlInStrMethods s) len advance)
        (tlCopyThrough tlInRawMsgMethods len advance) (fun _ => Mirror s size) := by
      refine checked (fun hfits hle herror => ?_) (fun _ => agrees_pure _)
      obtain ⟨hlen, hadv⟩ := hsound hfits herror hroom
      refine tlsCheck_bind (fun _ _ h => h.1) ?_ (agrees_pure _)
      exact (copy_agrees hsize hlen hle hadv).pre (fun _ _ h => h.1)
    exact hcopy X Y ⟨hXY, rfl⟩
  · have hroom' : ¬len ≤ Y.out.remaining := by
      rwa [← show X.out.remaining = Y.out.remaining from congrArg TlView.outRemaining hXY.view]
    rw [tlCopyThrough_of_no_room _ _ hroom, tlCopyThrough_of_no_room _ _ hroom']
    obtain ⟨hX, hY⟩ | ⟨ok, X', Y', hX, hY, -, hAt⟩ := tlfCheck_agrees len X Y ⟨hXY, rfl⟩
    · exact .inl ⟨by rw [hX, Option.bind_none], by rw [hY, Option.bind_none]⟩
    · rw [hX, hY]
      exact .inr ⟨-1, X', Y', rfl, rfl, hAt.1⟩

/-- **One step** of a run whose condition is met. -/
theorem tlStep_agrees (op : TlOp) (hsize : size ≤ s.length) :
    Agrees (fun X Y => Mirror s size X Y ∧ X.Sound op) (tlStep (tlInStrMethods s) op)
      (tlStep tlInRawMsgMethods op) (fun _ => Mirror s size) := by
  have hmirror : ∀ X Y, Mirror s size X Y ∧ X.Sound op → Mirror s size X Y := fun _ _ h => h.1
  cases op with
  | lookupInt => exact noBytes_agrees ((tlfLookup_agrees hsize _ _ _).pre hmirror)
  | lookupSecondInt => exact noBytes_agrees ((tlfLookup_agrees hsize _ _ _).pre hmirror)
  | lookupLong => exact noBytes_agrees ((tlfLookup_agrees hsize _ _ _).pre hmirror)
  | lookupData len => exact (tlfLookup_agrees hsize _ _ _).pre hmirror
  | int => exact noBytes_agrees ((tlfFetch_agrees hsize _ _ _).pre hmirror)
  | long => exact noBytes_agrees ((tlfFetch_agrees hsize _ _ _).pre hmirror)
  | intRange lo hi =>
    refine noBytes_agrees (Agrees.bind ((tlfFetch_agrees hsize _ _ _).pre hmirror) (fun x => ?_))
    exact tlfRange_agrees "int32" lo hi x
  | longRange lo hi =>
    refine noBytes_agrees (Agrees.bind ((tlfFetch_agrees hsize _ _ _).pre hmirror) (fun x => ?_))
    exact tlfRange_agrees "int64" lo hi x
  | stringLen maxLen => exact noBytes_agrees ((tlfStringLen_agrees hsize maxLen).pre hmirror)
  | pad => exact noBytes_agrees ((tlfPad_agrees hsize).pre hmirror)
  | rawData len => exact (tlfRawData_agrees hsize len).pre hmirror
  | stringData len => exact (tlfStringData_agrees hsize len).pre hmirror
  | string maxLen => exact (tlfString_agrees hsize maxLen).pre hmirror
  | skipString maxLen => exact noBytes_agrees ((tlfSkipString_agrees hsize maxLen).pre hmirror)
  | string0 maxLen => exact (tlfString0_agrees hsize maxLen).pre hmirror
  | skip len =>
    refine noBytes_agrees (fun X Y h => ?_)
    exact tlfSkip_agrees hsize h.2 X Y ⟨h.1, rfl⟩
  | skipStringData len =>
    refine noBytes_agrees (fun X Y h => ?_)
    exact tlfSkipStringData_agrees hsize h.2 X Y ⟨h.1, rfl⟩
  | mark => exact noResult_agrees (mark_agrees.pre hmirror)
  | markRestore => exact noResult_agrees mark_restore_agrees
  | markDelete => exact noResult_agrees mark_delete_agrees
  | copyThrough len advance => exact noBytes_agrees (tlCopyThrough_agrees hsize)

/-- **A whole run**, by induction on the operations. -/
theorem Mirror.trace (hsize : size ≤ s.length) (ops : List TlOp) (h : Mirror s size X Y)
    (hops : SoundRun (tlInStrMethods s) X ops) :
    tlTrace (tlInStrMethods s) X ops = tlTrace tlInRawMsgMethods Y ops := by
  induction ops generalizing X Y with
  | nil => rfl
  | cons op ops ih =>
    obtain ⟨hsound, hrest⟩ := hops
    obtain ⟨hX, hY⟩ | ⟨r, X', Y', hX, hY, h'⟩ := tlStep_agrees op hsize X Y ⟨h, hsound⟩
    · simp only [tlTrace, hX, hY]
    · simp only [tlTrace, hX, hY, h'.view, ih h' (hrest r X' hX)]

end Runs

/-! ## From the start -/

section Start

variable {S S' : MsgState} {A : MessageValues} {s : Bytes} {msg : ℕ} {out : TlOut}

/-- The outputs at the start are empty, and the messages keep their bytes. -/
theorem tlsInit_spec (kind : TlOutType) (h : Refines S A) :
    ∃ S' out A', tlsInit S kind = some (S', out) ∧ Refines S' A' ∧
      (∀ i bs, A.cell i = some bs → A'.cell i = some bs) ∧
      ∀ k, out.buffer = .rawMsg k → A'.cell k = some [] ∧ A.cell k = none := by
  cases kind with
  | str size => exact ⟨S, _, A, rfl, h, fun _ _ hi => hi, fun k hk => by cases hk⟩
  | rawMsg =>
    have hstep : A.step (.create []) = some (A.alloc [], []) := rfl
    have hop : S.Enabled (.create []) := trivial
    obtain ⟨S', hrun, hS'⟩ := h.run hop hstep
    refine ⟨S', ⟨.rawMsg S.handles.size, 0, 2 ^ 27⟩, A.alloc [], ?_, hS',
      fun i bs hi => Store.cell_alloc_of_some hi, ?_⟩
    · simp only [tlsInit, hrun, Option.map_some]
    · intro k hk
      obtain rfl : S.handles.size = k := TlBuffer.rawMsg.inj hk
      rw [h.size]
      refine ⟨Store.cell_alloc_self _, ?_⟩
      cases hx : A.cell A.size with
      | none => rfl
      | some y => exact absurd (Store.lt_size hx) (lt_irrefl _)

/-- An empty message in the place of one that is gone. -/
theorem Refines.fresh {i : ℕ} (h : Refines S A) (hi : A.cell i = none) (hlt : i < A.size) :
    Refines ⟨S.heap, S.handles.put i (some rwmClean)⟩ (A.put i (some [])) := by
  have hrel := h.values.cell i
  rw [hi] at hrel
  have hnone : S.handles.cell i = none := by
    generalize S.handles.cell i = x at hrel ⊢
    cases hrel with
    | none => rfl
  have hself : (S.handles.put i (some rwmClean)).cell i = some rwmClean := by
    rw [← h.size] at hlt
    exact if_pos ⟨rfl, hlt⟩
  have hput : S.handles.put i none = S.handles := by
    refine Store.ext (fun j => ?_) rfl
    by_cases hj : j = i
    · change (if j = i ∧ i < S.handles.size then none else S.handles.cell j) = S.handles.cell j
      rw [hj, hnone, ite_self]
    · exact Store.cell_put_ne hj none
  refine ⟨?_, (h.values.drop i).fill MsgHeap.Holds.clean⟩
  rw [roots_eq hself, Store.put_put, hput]
  exact h.inv.congr (fun p => (Nat.zero_add _).symm)

/-- The message that is read holds the bytes of the message it is made from; the others stay. -/
theorem tlfInitMessage_spec (dup : ℕ) (h : Refines S A) (hmsg : A.cell msg = some s) :
    ∃ S' A', tlfInitMessage S msg dup = some S' ∧ Refines S' A' ∧
      A'.cell S.handles.size = some s ∧
      ∀ k bs, k ≠ msg → A.cell k = some bs → A'.cell k = some bs := by
  have hop : S.Enabled (.move msg) := h.live hmsg
  have hlt : msg < A.size := Store.lt_size hmsg
  have hmove : A.step (.move msg) = some ((A.put msg none).alloc s, []) := by
    simp only [MessageValues.step, hmsg, some_bind]
  obtain ⟨S₁, h₁, hS₁⟩ := h.run hop hmove
  have hnew : ((A.put msg none).alloc s).cell S.handles.size = some s := by
    rw [h.size, ← Store.size_put (s := A) msg none]
    exact Store.cell_alloc_self s
  have hother : ∀ k bs, k ≠ msg → A.cell k = some bs →
      ((A.put msg none).alloc s).cell k = some bs :=
    fun k bs hk hA => Store.cell_alloc_of_some ((Store.cell_put_ne hk none).trans hA)
  unfold tlfInitMessage
  split_ifs with h0 h1
  · exact ⟨S₁, _, by rw [h₁, Option.map_some], hS₁, hnew, hother⟩
  · have hmsg' : ((A.put msg none).alloc s).cell msg = none := by
      rw [Store.cell_alloc, Store.size_put, if_neg hlt.ne, Store.cell_put_self hmsg]
    have hne : S.handles.size ≠ msg := h.size ▸ hlt.ne'
    refine ⟨_, _, by rw [h₁, Option.map_some], hS₁.fresh hmsg' (Nat.lt_succ_of_lt hlt), ?_, ?_⟩
    · rw [Store.cell_put_ne hne, hnew]
    · exact fun k bs hk hA => (Store.cell_put_ne hk _).trans (hother k bs hk hA)
  · obtain ⟨S₂, h₂, hS₂⟩ := h.clone hmsg
    refine ⟨S₂, _, by rw [h₂, Option.map_some], hS₂, ?_,
      fun k bs _ hA => Store.cell_alloc_of_some hA⟩
    rw [h.size]
    exact Store.cell_alloc_self s

/-- The two ways to open the same bytes are related. -/
theorem mirror_start (size dup : ℕ) (kind : TlOutType) (h : Refines S A)
    (hmsg : A.cell msg = some s) :
    ∃ S' out Y, tlsInit S kind = some (S', out) ∧
      tlfInitRawMessage S' out msg size dup = some Y ∧
      Mirror s size (tlfInitStr S' out size) Y := by
  obtain ⟨S₁, out, A₁, hout, h₁, hkeep, hempty⟩ := tlsInit_spec kind h
  obtain ⟨S₂, A₂, hin, h₂, hnew, hother⟩ := tlfInitMessage_spec dup h₁ (hkeep _ _ hmsg)
  refine ⟨S₁, out, _, hout, by rw [tlfInitRawMessage, hin, Option.map_some], A₁, A₂,
    S₁.handles.size, h₁, h₂, rfl, le_refl 0, Int.natCast_nonneg size, zero_add _, rfl, rfl, hnew,
    .unset, ?_⟩
  change OutMirror A₁ A₂ S₁.handles.size none out out
  obtain ⟨buffer, pos, remaining⟩ := out
  cases buffer with
  | str w => exact .str w pos remaining
  | rawMsg k =>
    obtain ⟨hk, hfree⟩ := hempty k rfl
    have hkm : k ≠ msg := by
      rintro rfl
      rw [hmsg] at hfree
      exact absurd hfree (by simp)
    have hks : k ≠ S₁.handles.size := by
      rw [h₁.size]
      exact (Store.lt_size hk).ne
    exact .rawMsg pos remaining hk (hother k [] hkm hk) hks (by simp)

end Start

/-- **The two backends agree** on every run whose steps meet the condition: a message that holds
the bytes `s`, however it came to be cut into parts, is read like the string `s`. -/
theorem tl_backends_agree {junk : ℕ → ℕ → UInt8} {S : MsgState} {msg : ℕ} {s : Bytes}
    (hS : S.Reachable junk) (hmsg : S.contents msg = some s) (size : ℕ) (hsize : size ≤ s.length)
    (dup : ℕ) (kind : TlOutType) :
    ∃ S' out Y, tlsInit S kind = some (S', out) ∧
      tlfInitRawMessage S' out msg size dup = some Y ∧
      ∀ ops, SoundRun (tlInStrMethods s) (tlfInitStr S' out size) ops →
        tlTrace (tlInStrMethods s) (tlfInitStr S' out size) ops = tlTrace tlInRawMsgMethods Y ops := by
  obtain ⟨A, hA⟩ := Reachable.refines hS
  rw [hA.contents] at hmsg
  obtain ⟨S', out, Y, hout, hin, hXY⟩ := mirror_start size dup kind hA hmsg
  exact ⟨S', out, Y, hout, hin, fun ops hops => hXY.trace hsize ops hops⟩

/-- A message of eight bytes. -/
theorem exists_message : ∃ S, S.Reachable (fun _ _ => 0) ∧
    S.contents 0 = some [1, 2, 3, 4, 5, 6, 7, 8] ∧
    (MsgState.start (fun _ _ => 0)).step (.create [1, 2, 3, 4, 5, 6, 7, 8]) = some (S, []) := by
  have hrefines : Refines (MsgState.start (fun _ _ => 0)) .empty := refines_start _
  have hop : (MsgState.start (fun _ _ => 0)).Enabled (.create [1, 2, 3, 4, 5, 6, 7, 8]) := trivial
  obtain ⟨S, hrun, hS⟩ := hrefines.run hop rfl
  refine ⟨S, .step .start hop hrun, ?_, hrun⟩
  rw [hS.contents]
  rfl

/-- Four bytes are copied and taken, and the next number is the same. -/
theorem tl_backends_agree_copy : ∃ S S' out Y, S.Reachable (fun _ _ => 0) ∧
    S.contents 0 = some [1, 2, 3, 4, 5, 6, 7, 8] ∧ tlsInit S (.str 4) = some (S', out) ∧
    tlfInitRawMessage S' out 0 8 2 = some Y ∧
    tlTrace (tlInStrMethods [1, 2, 3, 4, 5, 6, 7, 8]) (tlfInitStr S' out 8) [.copyThrough 4 4, .int]
      = tlTrace tlInRawMsgMethods Y [.copyThrough 4 4, .int] := by
  obtain ⟨S, hS, hmsg, -⟩ := exists_message
  obtain ⟨S', out, Y, hout, hin, hagree⟩ := tl_backends_agree hS hmsg 8 (by decide) 2 (.str 4)
  refine ⟨S, S', out, Y, hS, hmsg, hout, hin, hagree _ ?_⟩
  exact ⟨fun _ _ _ => ⟨by decide, .inr rfl⟩, fun _ _ _ => ⟨trivial, fun _ _ _ => trivial⟩⟩

/-- After a copy of four bytes with the flag 1, a string goes on at its second byte, and a message
at its fifth. -/
theorem tl_backends_differ : ¬ ∀ (junk : ℕ → ℕ → UInt8) (S : MsgState) (msg : ℕ) (s : Bytes),
    S.Reachable junk → S.contents msg = some s →
    ∀ (kind : TlOutType) (S' : MsgState) (out : TlOut) (Y : TlState ℕ),
      tlsInit S kind = some (S', out) → tlfInitRawMessage S' out msg s.length 2 = some Y →
      ∀ ops, tlTrace (tlInStrMethods s) (tlfInitStr S' out s.length) ops
        = tlTrace tlInRawMsgMethods Y ops := by
  intro hclaim
  obtain ⟨S, hS, hmsg, hrun⟩ := exists_message
  have hdiffer : (do
      let S ← (MsgState.start (fun _ _ => 0)).step (.create [1, 2, 3, 4, 5, 6, 7, 8])
      let X ← tlsInit S.1 (.str 4)
      let Y ← tlfInitRawMessage X.1 X.2 0 8 2
      some (decide (tlTrace (tlInStrMethods [1, 2, 3, 4, 5, 6, 7, 8]) (tlfInitStr X.1 X.2 8)
        [.copyThrough 4 1, .int] = tlTrace tlInRawMsgMethods Y [.copyThrough 4 1, .int])))
      = some false := by
    decide +kernel
  obtain ⟨⟨S₁, out₁⟩, hrun', hdiffer⟩ := Option.bind_eq_some_iff.mp hdiffer
  obtain ⟨rfl, rfl⟩ := Prod.mk.inj (Option.some.inj (hrun.symm.trans hrun'))
  obtain ⟨⟨S', out⟩, hout, hdiffer⟩ := Option.bind_eq_some_iff.mp hdiffer
  obtain ⟨Y, hin, hdiffer⟩ := Option.bind_eq_some_iff.mp hdiffer
  exact absurd (hclaim _ S 0 _ hS hmsg (.str 4) S' out Y hout hin [.copyThrough 4 1, .int])
    (of_decide_eq_false (Option.some.inj hdiffer))

end MtprotoProxy
