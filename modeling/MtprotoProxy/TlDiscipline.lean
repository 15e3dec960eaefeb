/-
# The discipline of reading

Over every sequence of operations that look at bytes, take or skip them, the position and the
number of bytes that remain add up to the size, nothing is read beyond what remains, and after the
first error every operation returns -1 and changes nothing.

* `tl_error_discipline`: this holds for a string and for a raw message, however it is cut.
-/
import MtprotoProxy.TlBytes

namespace MtprotoProxy

open CLib

/-- Operations that look at bytes, take or skip them.  A number of bytes is not negative, and
`tlf_raw_data` is for words. -/
def TlOp.Plain : TlOp → Prop
  | .lookupData len => 0 ≤ len
  | .stringData len => 0 ≤ len
  | .skipStringData len => 0 ≤ len
  | .skip len => 0 ≤ len
  | .rawData len => 0 ≤ len ∧ len % 4 = 0
  | .mark => False
  | .markRestore => False
  | .markDelete => False
  | .copyThrough _ _ => False
  | _ => True

/-- The state after a sequence of operations. -/
def tlRun {ι : Type} (M : TlInMethods ι) : List TlOp → TlState ι → Option (TlState ι)
  | [], X => some X
  | op :: ops, X => (tlStep M op X).bind (fun r => tlRun M ops r.2)

/-- **The discipline** over all runs from a state: no operation stops, or is told apart from one
with a guard; position and remaining bytes add up to the size; after an error nothing changes. -/
def TlDisciplined {ι : Type} (M : TlInMethods ι) (size : ℤ) (X₀ : TlState ι) : Prop :=
  ∀ ops : List TlOp, (∀ op ∈ ops, op.Plain) → ∃ X, tlRun M ops X₀ = some X ∧
    tlTrace M.within X₀ ops = tlTrace M X₀ ops ∧
    X.cur.pos + X.cur.remaining = size ∧ 0 ≤ X.cur.pos ∧ 0 ≤ X.cur.remaining ∧
    (X.cur.error.isSome → ∀ more : List TlOp, (∀ op ∈ more, op.Plain) →
      tlRun M more X = some X ∧ tlTrace M X more = more.map (fun _ => some ((-1, []), X.view)))

/-! ## What remains -/

/-- Position and remaining bytes add up. -/
structure TlIn.Counts (c : TlIn) (size : ℤ) : Prop where
  pos : 0 ≤ c.pos
  total : c.pos + c.remaining = size

/-- The operations may read some bytes, and the counts are right. -/
def TlOk {ι : Type} (Has : TlState ι → Bytes → Prop) (size : ℤ) (X : TlState ι) : Prop :=
  ∃ c bs, TlLeft Has c bs X ∧ c.Counts size

section Operations

variable {ι α : Type} {M N : TlInMethods ι} {Has : TlState ι → Bytes → Prop} {c : TlIn}
  {bs : Bytes} {size : ℤ}

/-- The counts stay right: bytes are taken, an error is set, a check is made. -/
theorem TlIn.Counts.advance (h : c.Counts size) (n : ℕ) : (c.advance n).Counts size := by
  obtain ⟨hpos, htotal⟩ := h
  refine ⟨add_nonneg hpos (Int.natCast_nonneg n), ?_⟩
  change c.pos + n + (c.remaining - n) = size
  omega

theorem TlIn.Counts.setError (h : c.Counts size) (errnum : ℤ) (text : String) :
    (c.setError errnum text).Counts size := by
  obtain ⟨hremaining, hpos, -⟩ := c.setError_counts errnum text
  exact ⟨hpos ▸ h.pos, by rw [hremaining, hpos]; exact h.total⟩

theorem TlIn.Counts.check (h : c.Counts size) (n : ℤ) : (c.check n).2.Counts size := by
  obtain ⟨hremaining, hpos⟩ := c.check_counts n
  exact ⟨hpos ▸ h.pos, by rw [hremaining, hpos]; exact h.total⟩

/-- An operation is right if it is, whatever is kept. -/
theorem returns_ok {m n : TlM ι α}
    (h : ∀ c bs, c.Counts size → Returns (TlLeft Has c bs) m n (fun _ => TlOk Has size)) :
    Returns (TlOk Has size) m n (fun _ => TlOk Has size) := by
  rintro X ⟨c, bs, hX, hc⟩
  exact h c bs hc X hX

/-- An operation that only answers is in order. -/
theorem pure_ok (hc : c.Counts size) (a : α) : Returns (TlLeft Has c bs)
    (pure a : TlM ι α) (pure a : TlM ι α) (fun _ => TlOk Has size) :=
  Returns.pure (fun _ hX => ⟨c, bs, hX, hc⟩)

/-- One that sets an error is, too. -/
theorem setError_ok (hM : TlReader M Has) (hc : c.Counts size) (errnum : ℤ) (text : String)
    (a : α) : Returns (TlLeft Has c bs)
      (do
        tlfSetError errnum text
        pure a : TlM ι α)
      (do
        tlfSetError errnum text
        pure a : TlM ι α) (fun _ => TlOk Has size) :=
  (setError_returns hM errnum text a).post (fun _ _ hX => ⟨_, bs, hX.2, hc.setError errnum text⟩)

/-- What comes behind a check: the bytes are there, or the operation ends. -/
theorem checked_ok (hM : TlReader M Has) (hc : c.Counts size) {n : ℕ} {m m' : TlM ι α} {a : α}
    (hok : n ≤ bs.length → Returns (TlLeft Has c bs) m m' (fun _ => TlOk Has size)) :
    Returns (TlLeft Has c bs) (do if ← tlfCheck n then m else pure a)
      (do if ← tlfCheck n then m' else pure a) (fun _ => TlOk Has size) := by
  intro X hX
  have hlen := hX.2.1
  by_cases hfail : c.error.isSome ∨ c.remaining < n
  · exact check_fails_returns hM hfail (pure_ok (hc.check n) a) X hX
  · push Not at hfail
    have herror : c.error = none := Option.not_isSome_iff_eq_none.mp hfail.1
    have hn : n ≤ bs.length := by omega
    exact check_returns hM herror hn (hok hn) X hX

variable (hM : TlReader M Has) (hN : SameWithin M N)
include hM hN

/-- Bytes are seen or taken behind a check. -/
theorem tlfLookup_ok (n : ℕ) (f : Bytes → α) (d : α) : Returns (TlOk Has size)
    (tlfLookup M n f d) (tlfLookup N n f d) (fun _ => TlOk Has size) := by
  refine returns_ok (fun c bs hc => checked_ok hM hc (fun hn => ?_))
  exact (lookup_returns hM hN hn).bind (fun x => Returns.given (fun _ => pure_ok hc _))

theorem tlfFetch_ok (n : ℕ) (f : Bytes → α) (d : α) : Returns (TlOk Has size)
    (tlfFetch M n f d) (tlfFetch N n f d) (fun _ => TlOk Has size) := by
  refine returns_ok (fun c bs hc => checked_ok hM hc (fun hn => ?_))
  exact (takeRawData_returns hM hN hn).bind
    (fun x => Returns.given (fun _ => pure_ok (hc.advance n) _))

omit hN in
/-- A number is checked against its range. -/
theorem tlfRange_ok (kind : String) (lo hi x : ℤ) : Returns (TlOk Has size)
    (tlfRange kind lo hi x) (tlfRange kind lo hi x) (fun _ => TlOk Has size) :=
  returns_ok (fun _ _ hc => Returns.ite (fun _ => setError_ok hM hc _ _ _) (fun _ => pure_ok hc _))

omit hN in
theorem tlfStringBound_ok (maxLen x : ℤ) : Returns (TlOk Has size)
    (tlfStringBound maxLen x) (tlfStringBound maxLen x) (fun _ => TlOk Has size) := by
  refine returns_ok (fun c bs hc => tlIn_returns ?_)
  refine Returns.ite (fun _ => setError_ok hM hc _ _ _) (fun _ => ?_)
  exact Returns.ite (fun _ => setError_ok hM hc _ _ _) (fun _ => pure_ok hc _)

/-- Four bytes were there, and one was taken. -/
theorem tlfStringLenRest_ok (hc : c.Counts size) (hn : 3 ≤ bs.length) (x : Bytes) :
    Returns (TlLeft Has c bs) (tlfStringLenRest M x) (tlfStringLenRest N x)
      (fun _ => TlOk Has size) :=
  Returns.ite
    (fun _ => (takeRawData_returns hM hN hn).bind
      (fun _ => Returns.given (fun _ => pure_ok (hc.advance 3) _)))
    (fun _ => pure_ok hc _)

/-- The length of a string is read. -/
theorem tlfStringLen_ok (maxLen : ℤ) : Returns (TlOk Has size)
    (tlfStringLen M maxLen) (tlfStringLen N maxLen) (fun _ => TlOk Has size) := by
  refine returns_ok (fun c bs hc => checked_ok (n := 4) hM hc (fun hn => ?_))
  have hone : 1 ≤ bs.length := by omega
  have hthree : 3 ≤ (bs.drop 1).length := by
    rw [List.length_drop]
    omega
  refine (takeRawData_returns hM hN hone).bind (fun x => Returns.given (fun _ => ?_))
  refine Returns.ite (fun _ => setError_ok hM (hc.advance 1) _ _ _) (fun _ => ?_)
  exact (tlfStringLenRest_ok hM hN (hc.advance 1) hthree x).bind
    (fun y => tlfStringBound_ok hM maxLen y)

theorem tlfPad_ok : Returns (TlOk Has size) (tlfPad M) (tlfPad N) (fun _ => TlOk Has size) := by
  refine returns_ok (fun c bs hc => tlIn_returns ?_)
  obtain ⟨n, hn⟩ := Int.eq_ofNat_of_zero_le (Int.emod_nonneg (-c.pos) (by decide : (4 : ℤ) ≠ 0))
  dsimp only
  rw [hn]
  refine checked_ok hM hc (fun hle => ?_)
  intro X hX
  have hlen := hX.2.1
  have hremaining : (n : ℤ) ≤ c.remaining := by omega
  refine ((Returns.assert hremaining).bind (fun _ => ?_)) X hX
  refine (takeRawData_returns hM hN hle).bind (fun t => Returns.given (fun _ => ?_))
  exact Returns.ite (fun _ => pure_ok (hc.advance n) _)
    (fun _ => setError_ok hM (hc.advance n) _ _ _)

/-- The bytes of a string and its padding are read. -/
theorem tlfRawData_ok {n : ℕ} (hwords : (n : ℤ) % 4 = 0) : Returns (TlOk Has size)
    (tlfRawData M n) (tlfRawData N n) (fun _ => TlOk Has size) :=
  (Returns.assert hwords).bind (fun _ => tlfFetch_ok hM hN n _ _)

theorem tlfStringData_ok (n : ℕ) : Returns (TlOk Has size)
    (tlfStringData M n) (tlfStringData N n) (fun _ => TlOk Has size) := by
  refine returns_ok (fun c bs hc => checked_ok hM hc (fun hn => ?_))
  have htake : Returns (TlLeft Has c bs) (tlfTakeRawData M n) (tlfTakeRawData N n)
      (fun _ => TlOk Has size) :=
    (takeRawData_returns hM hN hn).post (fun _ _ hX => ⟨_, _, hX.2, hc.advance n⟩)
  refine htake.bind (fun x => ?_)
  exact (tlfPad_ok hM hN).bind (fun _ => Returns.pure (fun _ hX => hX))

theorem tlfSkip_ok (n : ℕ) : Returns (TlOk Has size) (tlfSkip M n) (tlfSkip N n)
    (fun _ => TlOk Has size) := by
  refine returns_ok (fun c bs hc => checked_ok hM hc (fun hn => ?_))
  exact (skipRawData_returns hM hN hn).bind (fun _ => pure_ok (hc.advance n) _)

theorem tlfSkipStringData_ok (n : ℕ) : Returns (TlOk Has size)
    (tlfSkipStringData M n) (tlfSkipStringData N n) (fun _ => TlOk Has size) := by
  refine returns_ok (fun c bs hc => checked_ok hM hc (fun hn => ?_))
  have hskip : Returns (TlLeft Has c bs) (tlfSkipRawData M n) (tlfSkipRawData N n)
      (fun _ => TlOk Has size) :=
    (skipRawData_returns hM hN hn).post (fun _ _ hX => ⟨_, _, hX, hc.advance n⟩)
  refine hskip.bind (fun _ => ?_)
  exact (tlfPad_ok hM hN).bind (fun _ => Returns.pure (fun _ hX => hX))

/-- Whole strings are read or skipped. -/
theorem tlfString_ok (maxLen : ℤ) : Returns (TlOk Has size)
    (tlfString M maxLen) (tlfString N maxLen) (fun _ => TlOk Has size) := by
  refine (tlfStringLen_ok hM hN maxLen).bind (fun l => ?_)
  refine Returns.ite (fun _ => Returns.pure (fun _ hX => hX)) (fun hl => ?_)
  obtain ⟨n, rfl⟩ := Int.eq_ofNat_of_zero_le (not_lt.mp hl)
  exact (tlfStringData_ok hM hN n).bind (fun _ => Returns.pure (fun _ hX => hX))

theorem tlfSkipString_ok (maxLen : ℤ) : Returns (TlOk Has size)
    (tlfSkipString M maxLen) (tlfSkipString N maxLen) (fun _ => TlOk Has size) := by
  refine (tlfStringLen_ok hM hN maxLen).bind (fun l => ?_)
  refine Returns.ite (fun _ => Returns.pure (fun _ hX => hX)) (fun hl => ?_)
  obtain ⟨n, rfl⟩ := Int.eq_ofNat_of_zero_le (not_lt.mp hl)
  exact (tlfSkipStringData_ok hM hN n).bind (fun _ => Returns.pure (fun _ hX => hX))

omit hM hN in
theorem noBytes_ok {m n : TlM ι ℤ} (h : Returns (TlOk Has size) m n (fun _ => TlOk Has size)) :
    Returns (TlOk Has size) (noBytes m) (noBytes n) (fun _ => TlOk Has size) :=
  h.bind (fun _ => Returns.pure (fun _ hX => hX))

/-- **One operation**: it returns, with a guard as without one, and the counts stay right. -/
theorem tlStep_ok {op : TlOp} (hop : op.Plain) : Returns (TlOk Has size) (tlStep M op)
    (tlStep N op) (fun _ => TlOk Has size) := by
  cases op with
  | lookupInt => exact noBytes_ok (tlfLookup_ok hM hN 4 _ _)
  | lookupSecondInt => exact noBytes_ok (tlfLookup_ok hM hN 8 _ _)
  | lookupLong => exact noBytes_ok (tlfLookup_ok hM hN 8 _ _)
  | lookupData len =>
    obtain ⟨n, rfl⟩ := Int.eq_ofNat_of_zero_le hop
    exact tlfLookup_ok hM hN n _ _
  | int => exact noBytes_ok (tlfFetch_ok hM hN 4 _ _)
  | long => exact noBytes_ok (tlfFetch_ok hM hN 8 _ _)
  | intRange lo hi =>
    exact noBytes_ok ((tlfFetch_ok hM hN 4 _ _).bind (fun x => tlfRange_ok hM "int32" lo hi x))
  | longRange lo hi =>
    exact noBytes_ok ((tlfFetch_ok hM hN 8 _ _).bind (fun x => tlfRange_ok hM "int64" lo hi x))
  | stringLen maxLen => exact noBytes_ok (tlfStringLen_ok hM hN maxLen)
  | pad => exact noBytes_ok (tlfPad_ok hM hN)
  | rawData len =>
    obtain ⟨n, rfl⟩ := Int.eq_ofNat_of_zero_le hop.1
    exact tlfRawData_ok hM hN hop.2
  | stringData len =>
    obtain ⟨n, rfl⟩ := Int.eq_ofNat_of_zero_le hop
    exact tlfStringData_ok hM hN n
  | skipStringData len =>
    obtain ⟨n, rfl⟩ := Int.eq_ofNat_of_zero_le hop
    exact noBytes_ok (tlfSkipStringData_ok hM hN n)
  | string maxLen => exact tlfString_ok hM hN maxLen
  | skipString maxLen => exact noBytes_ok (tlfSkipString_ok hM hN maxLen)
  | string0 maxLen =>
    exact (tlfString_ok hM hN maxLen).bind (fun _ => Returns.pure (fun _ hX => hX))
  | skip len =>
    obtain ⟨n, rfl⟩ := Int.eq_ofNat_of_zero_le hop
    exact noBytes_ok (tlfSkip_ok hM hN n)
  | mark => exact absurd hop id
  | markRestore => exact absurd hop id
  | markDelete => exact absurd hop id
  | copyThrough len advance => exact absurd hop id

end Operations

/-! ## After an error -/

section Errors

variable {ι α : Type} {M : TlInMethods ι} {X : TlState ι}

/-- No check succeeds after an error, and no other error is kept. -/
theorem tlfCheck_of_error (h : X.cur.error.isSome) (n : ℤ) (m e : TlM ι α) :
    (do if ← tlfCheck n then m else e : TlM ι α) X = e X := by
  obtain ⟨x, hx⟩ := Option.isSome_iff_exists.mp h
  have hcheck : X.cur.check n = (false, X.cur) := by
    unfold TlIn.check
    split_ifs
    · rw [hx]
      rfl
    · exact congrArg (Prod.mk false) (if_pos h)
  change ((if (X.cur.check n).1 = true then m else e) : TlM ι α)
    { X with cur := (X.cur.check n).2 } = e X
  rw [hcheck]
  rfl

/-- The first error stays. -/
theorem tlfSetError_of_error (h : X.cur.error.isSome) (errnum : ℤ) (text : String) :
    (tlfSetError errnum text : TlM ι Unit) X = some ((), X) := by
  have hset : X.cur.setError errnum text = X.cur := if_pos h
  change some ((), { X with cur := X.cur.setError errnum text }) = some ((), X)
  rw [hset]

theorem bind_of_some {β : Type} {m : TlM ι α} {a : α} (h : m X = some (a, X)) (f : α → TlM ι β) :
    (m >>= f) X = f a X := by
  change (m X).bind (fun r => f r.1 r.2) = f a X
  rw [h, Option.bind_some]

/-- With an error, what reads a number or a string answers without a change. -/
theorem tlfRange_of_error (h : X.cur.error.isSome) (kind : String) (lo hi : ℤ) {m : TlM ι ℤ}
    (hm : m X = some (-1, X)) :
    (do
      let x ← m
      tlfRange kind lo hi x : TlM ι ℤ) X = some (-1, X) := by
  rw [bind_of_some hm]
  unfold tlfRange
  split_ifs
  · exact bind_of_some (tlfSetError_of_error h _ _) _
  · rfl

theorem tlfString_of_error (h : X.cur.error.isSome) (maxLen : ℤ) :
    tlfString M maxLen X = some ((-1, []), X) := by
  have hlen : tlfStringLen M maxLen X = some (-1, X) := tlfCheck_of_error h 4 _ _
  exact bind_of_some hlen _

theorem noBytes_of_error {m : TlM ι ℤ} (hm : m X = some (-1, X)) :
    noBytes m X = some ((-1, []), X) :=
  bind_of_some hm _

/-- **After an error** an operation returns -1 and changes nothing. -/
theorem tlStep_of_error (h : X.cur.error.isSome) {op : TlOp} (hop : op.Plain) :
    tlStep M op X = some ((-1, []), X) := by
  cases op with
  | lookupInt => exact noBytes_of_error (tlfCheck_of_error h 4 _ _)
  | lookupSecondInt => exact noBytes_of_error (tlfCheck_of_error h 8 _ _)
  | lookupLong => exact noBytes_of_error (tlfCheck_of_error h 8 _ _)
  | lookupData len => exact tlfCheck_of_error h len _ _
  | int => exact noBytes_of_error (tlfCheck_of_error h 4 _ _)
  | long => exact noBytes_of_error (tlfCheck_of_error h 8 _ _)
  | intRange lo hi =>
    exact noBytes_of_error (tlfRange_of_error h "int32" lo hi (tlfCheck_of_error h 4 _ _))
  | longRange lo hi =>
    exact noBytes_of_error (tlfRange_of_error h "int64" lo hi (tlfCheck_of_error h 8 _ _))
  | stringLen maxLen => exact noBytes_of_error (tlfCheck_of_error h 4 _ _)
  | pad =>
    apply noBytes_of_error
    exact tlfCheck_of_error h (-X.cur.pos % 4) _ _
  | rawData len =>
    have hassert : (CLib.assert (len % 4 = 0) : TlM ι Unit) X = some ((), X) := if_pos hop.2
    exact (bind_of_some hassert _).trans (tlfCheck_of_error h len _ _)
  | stringData len => exact tlfCheck_of_error h len _ _
  | skipStringData len => exact noBytes_of_error (tlfCheck_of_error h len _ _)
  | string maxLen => exact tlfString_of_error h maxLen
  | skipString maxLen =>
    have hlen : tlfStringLen M maxLen X = some (-1, X) := tlfCheck_of_error h 4 _ _
    exact noBytes_of_error (bind_of_some hlen _)
  | string0 maxLen => exact bind_of_some (tlfString_of_error h maxLen) _
  | skip len => exact noBytes_of_error (tlfCheck_of_error h len _ _)
  | mark => exact absurd hop id
  | markRestore => exact absurd hop id
  | markDelete => exact absurd hop id
  | copyThrough len advance => exact absurd hop id

/-- The rest of a run after an error, by induction on the operations. -/
theorem tlTrace_of_error (h : X.cur.error.isSome) (ops : List TlOp) (hops : ∀ op ∈ ops, op.Plain) :
    tlRun M ops X = some X ∧
      tlTrace M X ops = ops.map (fun _ => some ((-1, []), X.view)) := by
  induction ops with
  | nil => exact ⟨rfl, rfl⟩
  | cons op ops ih =>
    rw [List.forall_mem_cons] at hops
    have hstep := tlStep_of_error (M := M) h hops.1
    obtain ⟨hrun, htrace⟩ := ih hops.2
    constructor
    · rw [tlRun, hstep, Option.bind_some]
      exact hrun
    · simp only [tlTrace, hstep, htrace, List.map_cons]

end Errors

/-! ## Whole runs -/

section Runs

variable {ι : Type} {M : TlInMethods ι} {Has : TlState ι → Bytes → Prop} {size : ℤ}
  {X : TlState ι}

/-- **A run** from a state with the right counts, by induction on the operations. -/
theorem TlReader.disciplined (hM : TlReader M Has) (hX : TlOk Has size X) :
    TlDisciplined M size X := by
  intro ops hops
  induction ops generalizing X with
  | nil =>
    obtain ⟨c, bs, ⟨rfl, hlen, -⟩, hpos, htotal⟩ := hX
    refine ⟨X, rfl, rfl, htotal, hpos, by omega, fun herror more hmore => ?_⟩
    exact tlTrace_of_error herror more hmore
  | cons op ops ih =>
    rw [List.forall_mem_cons] at hops
    obtain ⟨r, X', hstep, hguard, hX'⟩ := tlStep_ok hM (SameWithin.within M) hops.1 X hX
    obtain ⟨X'', hrun, htrace, hrest⟩ := ih hX' hops.2
    refine ⟨X'', ?_, ?_, hrest⟩
    · rw [tlRun, hstep, Option.bind_some]
      exact hrun
    · simp only [tlTrace, hstep, hguard, htrace]

end Runs

/-- The start of an input of `size` bytes. -/
theorem tlOk_start {ι : Type} {Has : TlState ι → Bytes → Prop} {X : TlState ι} {s : Bytes}
    {size : ℕ} (hsize : size ≤ s.length) (hcur : X.cur = ⟨size, 0, 0, none⟩) (hhas : Has X s) :
    TlOk Has size X := by
  refine ⟨_, s.take size, ⟨hcur, ?_, s.drop size, ?_⟩, le_refl 0, zero_add _⟩
  · rw [List.length_take, Nat.min_eq_left hsize]
  · rwa [List.take_append_drop]

/-- **Reading is disciplined** on a string and on a raw message: over every sequence of operations
that look at bytes, take or skip them. -/
theorem tl_error_discipline {s : Bytes} {size : ℕ} (hsize : size ≤ s.length) :
    (∀ S out, TlDisciplined (tlInStrMethods s) size (tlfInitStr S out size)) ∧
    ∀ (junk : ℕ → ℕ → UInt8) (S : MsgState) (msg dup : ℕ) (out : TlOut), S.Reachable junk →
      S.contents msg = some s → ∃ Y, tlfInitRawMessage S out msg size dup = some Y ∧
        TlDisciplined tlInRawMsgMethods size Y := by
  refine ⟨fun S out => ?_, fun junk S msg dup out hS hmsg => ?_⟩
  · have hhas : StrHas s (tlfInitStr S out size) s := ⟨0, rfl, Nat.zero_le _, rfl⟩
    exact (strReader s).disciplined (tlOk_start hsize rfl hhas)
  · obtain ⟨A, hA⟩ := Reachable.refines hS
    rw [hA.contents] at hmsg
    obtain ⟨S', A', hin, hA', hnew, -⟩ := tlfInitMessage_spec dup hA hmsg
    refine ⟨_, by rw [tlfInitRawMessage, hin, Option.map_some], ?_⟩
    exact messageReader.disciplined (tlOk_start hsize rfl ⟨A', _, hA', rfl, hnew⟩)

/-- Eight bytes. -/
theorem tl_error_discipline_eight :
    (∀ S out, TlDisciplined (tlInStrMethods [1, 2, 3, 4, 5, 6, 7, 8]) (8 : ℕ)
      (tlfInitStr S out (8 : ℕ))) ∧
    ∀ (junk : ℕ → ℕ → UInt8) (S : MsgState) (msg dup : ℕ) (out : TlOut), S.Reachable junk →
      S.contents msg = some [1, 2, 3, 4, 5, 6, 7, 8] →
      ∃ Y, tlfInitRawMessage S out msg (8 : ℕ) dup = some Y ∧
        TlDisciplined tlInRawMsgMethods (8 : ℕ) Y :=
  tl_error_discipline (by decide)

end MtprotoProxy
