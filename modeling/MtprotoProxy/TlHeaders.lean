/-
# Headers of queries and answers

`tlf_query_header` and `tlf_query_answer_header` read an operation and a number, and then flags, as
long as the word that is next says so.

* `tl_headers_terminate`: both return, with -1 and an error or with the number of bytes they have
  taken, and then the next word is none that announces flags.  A header for KPHP and an error answer
  end before the flags, behind the number.

The exception is an answer in which the next word is `RPC_REQ_ERROR_WRAPPED` at some time: this case
takes nothing and goes on with the loop, which never ends (`tlfQueryAnswerHeader_hangs`).
-/
import MtprotoProxy.TlDiscipline

namespace MtprotoProxy

open CLib

/-! ## The functions -/

def rpcInvokeReq : ℤ := wrap32 0x2374df3d
def rpcInvokeKphpReq : ℤ := wrap32 0x99a37fda
def rpcReqError : ℤ := wrap32 0x7ae432f5
def rpcReqResult : ℤ := wrap32 0x63aeda4e
def rpcReqErrorWrapped : ℤ := rpcReqError + 1
def rpcDestActor : ℤ := wrap32 0x7568aabd
def rpcDestActorFlags : ℤ := wrap32 0xf0a5acf7
def rpcDestFlags : ℤ := wrap32 0xe352035e
def rpcReqResultFlags : ℤ := wrap32 0x8cc84ce1

def tlErrorHeader : ℤ := -1002

/-- `prepend_bytes` of both kinds of input. -/
def prependBytes : ℤ := 0

/-- `struct tl_query_header`, without the parameters of the work. -/
structure TlQueryHeader where
  qid : ℤ
  actorId : ℤ
  flags : BitVec 32
  op : ℤ
  realOp : ℤ
  refCnt : ℤ

section Headers

variable {ι : Type} (M : TlInMethods ι)

/-- `tlf_error`. -/
def tlfError : TlM ι Bool := do
  let c ← tlIn
  pure c.error.isSome

/-- `tlf_unread`. -/
def tlfUnread : TlM ι ℤ := do
  let c ← tlIn
  pure c.remaining

/-- An operation that ends with an error in the header. -/
def headerError (text : String) (header : TlQueryHeader) : TlM ι (ℤ × TlQueryHeader) := do
  tlfSetError tlErrorHeader text
  pure (-1, header)

/-- `tlf_query_flags`, and `tlf_query_answer_flags`, which has the same text. -/
def tlfQueryFlags (header : TlQueryHeader) : TlM ι (ℤ × TlQueryHeader) := do
  let x ← tlfInt M
  let flags := BitVec.ofInt 32 x
  if ← tlfError then pure (-1, header)
  else if header.flags &&& flags ≠ 0 then
    headerError ("Duplicate flags in header 0x" ++ (header.flags &&& flags).toHex) header
  else if flags ≠ 0 then headerError ("Unsupported flags in header 0x" ++ flags.toHex) header
  else pure (0, { header with flags := header.flags ||| flags })

def tlfQueryAnswerFlags (header : TlQueryHeader) : TlM ι (ℤ × TlQueryHeader) :=
  tlfQueryFlags M header

/-- `assert (tl_fetch_int () == op)`. -/
def tlfExpect (op : ℤ) : TlM ι Unit := do
  let x ← tlfInt M
  assert (x = op)

/-- A round of the loop of `tlf_query_header`; the flag is `ok`. -/
def queryStep (header : TlQueryHeader) : TlM ι (Bool × TlQueryHeader) := do
  let op ← tlfLookupInt M
  if op = rpcDestActor then
    tlfExpect M rpcDestActor
    let x ← tlfLong M
    pure (true, { header with actorId := x })
  else if op = rpcDestActorFlags then
    tlfExpect M rpcDestActorFlags
    let x ← tlfLong M
    let r ← tlfQueryFlags M { header with actorId := x }
    pure (true, r.2)
  else if op = rpcDestFlags then
    tlfExpect M rpcDestFlags
    let r ← tlfQueryFlags M header
    pure (true, r.2)
  else pure (false, header)

/-- A round of the loop of `tlf_query_answer_header`. -/
def answerStep (header : TlQueryHeader) : TlM ι (Bool × TlQueryHeader) := do
  if header.op ≠ rpcReqError then
    let op ← tlfLookupInt M
    if op = rpcReqError then
      tlfExpect M rpcReqError
      let _ ← tlfLong M
      pure (true, { header with op := rpcReqErrorWrapped })
    else if op = rpcReqErrorWrapped then pure (true, { header with op := rpcReqErrorWrapped })
    else if op = rpcReqResultFlags then
      tlfExpect M rpcReqResultFlags
      let r ← tlfQueryAnswerFlags M header
      pure (true, r.2)
    else pure (false, header)
  else pure (false, header)

/-- The loop of both functions, with `t` bytes at the start.  The fuel bounds the rounds. -/
def headerLoop (step : TlQueryHeader → TlM ι (Bool × TlQueryHeader)) :
    ℕ → ℤ → TlQueryHeader → TlM ι (ℤ × TlQueryHeader)
  | 0, _, _ => fun _ => none
  | n + 1, t, header => do
    let r ← step header
    if ← tlfError then pure (-1, r.2)
    else if r.1 = true then headerLoop step n t r.2
    else
      let u ← tlfUnread
      pure (t - u, r.2)

/-- `if (TL_IN_METHODS->prepend_bytes) { tl_fetch_skip (..); }` -/
def tlfSkipPrepended : TlM ι Unit :=
  if prependBytes ≠ 0 then do
    let _ ← tlfSkip M prependBytes
    pure ()
  else pure ()

/-- The start of both functions: how many bytes there are, and the operation. -/
def headerStart : TlM ι (ℤ × TlQueryHeader) := do
  let t ← tlfUnread
  tlfSkipPrepended M
  let op ← tlfInt M
  pure (t, ⟨0, 0, 0, op, op, 1⟩)

/-- What `tlf_query_header` does behind the number. -/
def queryHeaderRest (fuel : ℕ) (t : ℤ) (header : TlQueryHeader) : TlM ι (ℤ × TlQueryHeader) :=
  if header.op = rpcInvokeKphpReq then do
    if ← tlfError then pure (-1, header)
    else
      let u ← tlfUnread
      pure (t - u, header)
  else headerLoop (queryStep M) fuel t header

def tlfQueryHeader (fuel : ℕ) : TlM ι (ℤ × TlQueryHeader) := do
  let (t, header) ← headerStart M
  if header.op ≠ rpcInvokeReq ∧ header.op ≠ rpcInvokeKphpReq then
    headerError "Expected RPC_INVOKE_REQ or RPC_INVOKE_KPHP_REQ" header
  else
    let qid ← tlfLong M
    queryHeaderRest M fuel t { header with qid := qid }

def tlfQueryAnswerHeader (fuel : ℕ) : TlM ι (ℤ × TlQueryHeader) := do
  let (t, header) ← headerStart M
  if header.op ≠ rpcReqError ∧ header.op ≠ rpcReqResult then
    headerError "Expected RPC_REQ_ERROR or RPC_REQ_RESULT" header
  else
    let qid ← tlfLong M
    headerLoop (answerStep M) fuel t { header with qid := qid }

end Headers

/-! ## What is asked of them -/

/-- The words behind which `tlf_query_header` reads flags or an actor. -/
def QueryWord (x : ℤ) : Prop := x = rpcDestActor ∨ x = rpcDestActorFlags ∨ x = rpcDestFlags

/-- The words that `tlf_query_answer_header` has a case for. -/
def AnswerWord (x : ℤ) : Prop := x = rpcReqError ∨ x = rpcReqErrorWrapped ∨ x = rpcReqResultFlags

/-- The next word is there, and is none of the `words`. -/
def NextIsNot (words : ℤ → Prop) (bs : Bytes) : Prop := 4 ≤ bs.length ∧ ¬ words (int32At bs)

/-- A header was not read, and there is an error, or it takes some bytes.  It ends behind the number
where it starts with `short`, and before a word that is none of the `words` otherwise. -/
def HeaderRead {ι : Type} (Has : TlState ι → Bytes → Prop) (c : TlIn) (bs : Bytes) (short : ℤ)
    (words : ℤ → Prop) (r : ℤ × TlQueryHeader) (X : TlState ι) : Prop :=
  (r.1 = -1 ∧ X.cur.error.isSome) ∨
  ∃ k : ℕ, r.1 = k ∧ k ≤ bs.length ∧ X.cur.error = none ∧
    TlLeft Has (c.advance k) (bs.drop k) X ∧
    (int32At bs = short → k = 12) ∧ (int32At bs ≠ short → NextIsNot words (bs.drop k))

/-- `RPC_REQ_ERROR_WRAPPED` comes up as the next word of an answer, behind errors and flags. -/
inductive MeetsWrapped : Bytes → Prop
  | here {bs : Bytes} (hlen : 4 ≤ bs.length) (h : int32At bs = rpcReqErrorWrapped) : MeetsWrapped bs
  | error {bs : Bytes} (h : int32At bs = rpcReqError) (rest : MeetsWrapped (bs.drop 12)) :
      MeetsWrapped bs
  | flags {bs : Bytes} (h : int32At bs = rpcReqResultFlags) (hzero : int32At (bs.drop 4) = 0)
      (rest : MeetsWrapped (bs.drop 8)) : MeetsWrapped bs

/-- An answer with a result in which it does. -/
def AnswerMeetsWrapped (bs : Bytes) : Prop :=
  int32At bs = rpcReqResult ∧ MeetsWrapped (bs.drop 12)

/-! ## The operations with an error and without one -/

/-- There is an error. -/
def Errored {ι : Type} (X : TlState ι) : Prop := X.cur.error.isSome

section Rules

variable {ι α β : Type} {M : TlInMethods ι} {Has : TlState ι → Bytes → Prop} {c : TlIn}
  {bs : Bytes}

theorem tlfFetch_errored (n : ℤ) (f : Bytes → α) (d : α) :
    Returns Errored (tlfFetch M n f d) (tlfFetch M n f d) (fun x X => x = d ∧ Errored X) := by
  intro X hX
  have hrun : tlfFetch M n f d X = some (d, X) := tlfCheck_of_error hX n _ _
  exact ⟨d, X, hrun, hrun, rfl, hX⟩

theorem tlfLookup_errored (n : ℤ) (f : Bytes → α) (d : α) :
    Returns Errored (tlfLookup M n f d) (tlfLookup M n f d) (fun x X => x = d ∧ Errored X) := by
  intro X hX
  have hrun : tlfLookup M n f d X = some (d, X) := tlfCheck_of_error hX n _ _
  exact ⟨d, X, hrun, hrun, rfl, hX⟩

/-- The error is seen. -/
theorem tlfError_errored {m n : TlM ι α} {Q : α → TlState ι → Prop}
    (h : Returns Errored m m Q) :
    Returns Errored (do if ← tlfError then m else n) (do if ← tlfError then m else n) Q := by
  intro X hX
  have hrun : (tlfError : TlM ι Bool) X = some (true, X) := by
    change some (X.cur.error.isSome, X) = some (true, X)
    rw [hX]
  obtain ⟨a, X', hm, -, hQ⟩ := h X hX
  have hdone : (do if ← tlfError then m else n : TlM ι α) X = some (a, X') :=
    (bind_of_some hrun _).trans hm
  exact ⟨a, X', hdone, hdone, hQ⟩

/-- No error is seen. -/
theorem tlfError_returns {m n : TlM ι α} {Q : α → TlState ι → Prop} (herror : c.error = none)
    (h : Returns (TlLeft Has c bs) n n Q) :
    Returns (TlLeft Has c bs) (do if ← tlfError then m else n)
      (do if ← tlfError then m else n) Q := by
  refine Returns.bind (tlIn_returns (Q := fun e X => e = false ∧ TlLeft Has c bs X) ?_)
    (fun e => ?_)
  · exact Returns.pure (fun X hX => ⟨by rw [herror]; rfl, hX⟩)
  · refine Returns.given (fun he => ?_)
    rw [he]
    exact h

theorem headerError_errored (text : String) (header : TlQueryHeader) :
    Returns (Errored : TlState ι → Prop) (headerError text header) (headerError text header)
      (fun r X => r = (-1, header) ∧ Errored X) := by
  intro X hX
  have hrun : (headerError text header : TlM ι _) X = some ((-1, header), X) :=
    bind_of_some (tlfSetError_of_error hX tlErrorHeader text) _
  exact ⟨_, X, hrun, hrun, rfl, hX⟩

variable (hM : TlReader M Has)
include hM

theorem headerError_returns (text : String) (header : TlQueryHeader) :
    Returns (TlLeft Has c bs) (headerError text header) (headerError text header)
      (fun r X => r = (-1, header) ∧ Errored X) :=
  (setError_returns hM tlErrorHeader text (-1, header)).post (fun r X hX =>
    ⟨hX.1, by rw [Errored, hX.2.1]; exact c.setError_isSome tlErrorHeader text⟩)

/-- Bytes are taken that are there. -/
theorem tlfFetch_reads {n : ℕ} (herror : c.error = none) (hn : n ≤ bs.length) (f : Bytes → α)
    (d : α) : Returns (TlLeft Has c bs) (tlfFetch M n f d) (tlfFetch M n f d)
      (fun x X => x = f (bs.take n) ∧ TlLeft Has (c.advance n) (bs.drop n) X) := by
  apply check_returns hM herror hn
  refine (takeRawData_returns hM (SameWithin.refl M) hn).bind
    (fun x => Returns.given (fun hx => Returns.pure (fun Y hY => ⟨?_, hY⟩)))
  rw [hx]

/-- Bytes are seen that are there. -/
theorem tlfLookup_reads {n : ℕ} (herror : c.error = none) (hn : n ≤ bs.length) (f : Bytes → α)
    (d : α) : Returns (TlLeft Has c bs) (tlfLookup M n f d) (tlfLookup M n f d)
      (fun x X => x = f (bs.take n) ∧ TlLeft Has c bs X) := by
  apply check_returns hM herror hn
  refine (lookup_returns hM (SameWithin.refl M) hn).bind
    (fun x => Returns.given (fun hx => Returns.pure (fun Y hY => ⟨?_, hY⟩)))
  rw [hx]

/-- Bytes are taken, or there is an error. -/
theorem tlfFetch_returns (n : ℕ) (f : Bytes → α) (d : α) :
    Returns (TlLeft Has c bs) (tlfFetch M n f d) (tlfFetch M n f d)
      (fun x X => (x = d ∧ Errored X) ∨ (c.error = none ∧ n ≤ bs.length ∧ x = f (bs.take n) ∧
        TlLeft Has (c.advance n) (bs.drop n) X)) := by
  intro X hX
  have hlen := hX.2.1
  by_cases hfail : c.error.isSome ∨ c.remaining < n
  · refine check_fails_returns hM hfail (Returns.pure (fun Y hY => .inl ⟨rfl, ?_⟩)) X hX
    rw [Errored, hY.1]
    exact TlIn.check_isSome hfail (Int.natCast_nonneg n)
  · push Not at hfail
    have herror := Option.not_isSome_iff_eq_none.mp hfail.1
    have hn : n ≤ bs.length := by omega
    exact (tlfFetch_reads hM herror hn f d).post (fun x X h => .inr ⟨herror, hn, h⟩) X hX

/-- Bytes are seen, or there is an error. -/
theorem tlfLookup_returns (n : ℕ) (f : Bytes → α) (d : α) :
    Returns (TlLeft Has c bs) (tlfLookup M n f d) (tlfLookup M n f d)
      (fun x X => (x = d ∧ Errored X) ∨
        (c.error = none ∧ n ≤ bs.length ∧ x = f (bs.take n) ∧ TlLeft Has c bs X)) := by
  intro X hX
  have hlen := hX.2.1
  by_cases hfail : c.error.isSome ∨ c.remaining < n
  · refine check_fails_returns hM hfail (Returns.pure (fun Y hY => .inl ⟨rfl, ?_⟩)) X hX
    rw [Errored, hY.1]
    exact TlIn.check_isSome hfail (Int.natCast_nonneg n)
  · push Not at hfail
    have herror := Option.not_isSome_iff_eq_none.mp hfail.1
    have hn : n ≤ bs.length := by omega
    exact (tlfLookup_reads hM herror hn f d).post (fun x X h => .inr ⟨herror, hn, h⟩) X hX

end Rules

theorem int32At_take (bs : Bytes) : int32At (bs.take 4) = int32At bs := by
  unfold int32At
  rw [List.take_take, min_self]

/-! ## The rounds -/

section Rounds

variable {ι α : Type} {M : TlInMethods ι} {Has : TlState ι → Bytes → Prop} {c : TlIn} {bs : Bytes}
  {header : TlQueryHeader}

/-- What a round of the loop leaves: an error; or it has taken bytes, and goes on where `I` holds;
or it has taken none, and stops where `stop` holds. -/
def RoundEnds (Has : TlState ι → Bytes → Prop) (c : TlIn) (bs : Bytes)
    (I stop : TlQueryHeader → Bytes → Prop) (r : Bool × TlQueryHeader) (X : TlState ι) : Prop :=
  Errored X ∨
  (∃ k : ℕ, 0 < k ∧ k ≤ bs.length ∧ r.1 = true ∧ TlLeft Has (c.advance k) (bs.drop k) X ∧
    I r.2 (bs.drop k)) ∨
  (r.1 = false ∧ TlLeft Has c bs X ∧ stop r.2 bs)

theorem pure_errored (a : α) {Q : α → TlState ι → Prop} (h : ∀ X, Errored X → Q a X) :
    Returns Errored (pure a : TlM ι α) (pure a : TlM ι α) Q :=
  Returns.pure h

/-- Flags that are not zero are an error, and zero changes nothing. -/
theorem tlfQueryFlags_returns (hM : TlReader M Has) :
    Returns (TlLeft Has c bs) (tlfQueryFlags M header) (tlfQueryFlags M header)
      (fun r X => Errored X ∨ (4 ≤ bs.length ∧ int32At bs = 0 ∧ r.2 = header ∧
        TlLeft Has (c.advance (4 : ℕ)) (bs.drop 4) X)) := by
  refine (tlfFetch_returns hM 4 int32At (-1)).bind (fun x => Returns.or ?_ ?_)
  · refine Returns.given (fun _ => tlfError_errored (pure_errored _ (fun X hX => .inl hX)))
  · intro X hX
    obtain ⟨herror, hlen, hx, hX⟩ := hX
    refine tlfError_returns (c := c.advance (4 : ℕ)) herror ?_ X hX
    have hend {m n : TlM ι (ℤ × TlQueryHeader)}
        (h : Returns (TlLeft Has (c.advance (4 : ℕ)) (bs.drop 4)) m n
          (fun r X => r = (-1, header) ∧ Errored X)) :
        Returns (TlLeft Has (c.advance (4 : ℕ)) (bs.drop 4)) m n
          (fun r X => Errored X ∨ (4 ≤ bs.length ∧ int32At bs = 0 ∧ r.2 = header ∧
            TlLeft Has (c.advance (4 : ℕ)) (bs.drop 4) X)) :=
      h.post (fun _ _ hQ => .inl hQ.2)
    refine Returns.ite (fun _ => hend (headerError_returns hM _ _)) (fun _ => ?_)
    refine Returns.ite (fun _ => hend (headerError_returns hM _ _)) (fun hzero => ?_)
    rw [not_not] at hzero
    refine Returns.pure (fun Y hY => .inr ⟨hlen, ?_, ?_, hY⟩)
    · have hint := congrArg BitVec.toInt hzero
      rw [BitVec.toInt_ofInt, hx, int32At_take] at hint
      unfold int32At wrap32 at hint ⊢
      rwa [Int.bmod_bmod] at hint
    · rw [hzero]
      exact congrArg (fun f => { header with flags := f }) BitVec.or_zero

end Rounds

section Steps

variable {ι : Type} {M : TlInMethods ι} {Has : TlState ι → Bytes → Prop} {c : TlIn} {bs : Bytes}
  {header : TlQueryHeader}

theorem tlfQueryFlags_errored : Returns Errored (tlfQueryFlags M header) (tlfQueryFlags M header)
    (fun _ => Errored) :=
  (tlfFetch_errored 4 int32At (-1)).bind
    (fun _ => Returns.given (fun _ => tlfError_errored (pure_errored _ (fun _ hX => hX))))

/-- The word that was seen is taken. -/
theorem tlfExpect_returns (hM : TlReader M Has) {op : ℤ} (herror : c.error = none)
    (hlen : 4 ≤ bs.length) (hop : int32At bs = op) :
    Returns (TlLeft Has c bs) (tlfExpect M op) (tlfExpect M op)
      (fun _ => TlLeft Has (c.advance (4 : ℕ)) (bs.drop 4)) := by
  refine (tlfFetch_reads hM herror hlen int32At (-1)).bind
    (fun x => Returns.given (fun hx => Returns.assert ?_))
  rw [hx, int32At_take, hop]

/-- Eight bytes behind a word. -/
theorem tlfLong_behind (hM : TlReader M Has) (hlen : 4 ≤ bs.length) :
    Returns (TlLeft Has (c.advance (4 : ℕ)) (bs.drop 4)) (tlfLong M) (tlfLong M)
      (fun _ X => Errored X ∨
        (12 ≤ bs.length ∧ TlLeft Has (c.advance (12 : ℕ)) (bs.drop 12) X)) := by
  refine (tlfFetch_returns hM 8 int64At (-1)).post (fun x X hX => ?_)
  rcases hX with ⟨-, hX⟩ | ⟨-, hn, -, hX⟩
  · exact .inl hX
  · rw [List.length_drop] at hn
    rw [List.drop_drop, TlIn.advance_advance] at hX
    exact .inr ⟨by omega, hX⟩

/-- **Flags behind a word** end a round, `a` bytes behind its start. -/
theorem flagsRound_returns {I stop : TlQueryHeader → Bytes → Prop} (hM : TlReader M Has) {a : ℕ}
    (ha : a ≤ bs.length) (hI : int32At (bs.drop a) = 0 → I header (bs.drop (a + 4))) :
    Returns (TlLeft Has (c.advance (a : ℕ)) (bs.drop a))
      (tlfQueryFlags M header >>= fun r => pure (true, r.2))
      (tlfQueryFlags M header >>= fun r => pure (true, r.2)) (RoundEnds Has c bs I stop) := by
  refine (tlfQueryFlags_returns hM).bind (fun r => Returns.or ?_ ?_)
  · exact pure_errored _ (fun _ hX => .inl hX)
  · refine Returns.pure (fun X hX => .inr (.inl ?_))
    obtain ⟨h4, hzero, hheader, hX⟩ := hX
    rw [List.length_drop] at h4
    rw [List.drop_drop, TlIn.advance_advance] at hX
    refine ⟨a + 4, by omega, by omega, rfl, hX, ?_⟩
    dsimp only
    rw [hheader]
    exact hI hzero

theorem queryStep_errored : Returns Errored (queryStep M header) (queryStep M header)
    (fun _ => Errored) := by
  refine (tlfLookup_errored 4 int32At (-1)).bind (fun op => Returns.given (fun hop => ?_))
  rw [hop, if_neg (by decide), if_neg (by decide), if_neg (by decide)]
  exact Returns.pure (fun _ hX => hX)

/-- **A round of `tlf_query_header`**: it takes a word and what belongs to it, or stops. -/
theorem queryStep_returns (hM : TlReader M Has) :
    Returns (TlLeft Has c bs) (queryStep M header) (queryStep M header)
      (RoundEnds Has c bs (fun _ _ => True) (fun _ => NextIsNot QueryWord)) := by
  refine (tlfLookup_returns hM 4 int32At (-1)).bind (fun op => Returns.or ?_ ?_)
  · refine Returns.given (fun hop => ?_)
    rw [hop, if_neg (by decide), if_neg (by decide), if_neg (by decide)]
    exact Returns.pure (fun _ hX => .inl hX)
  · intro X hX
    obtain ⟨herror, hlen, hop, hX⟩ := hX
    rw [int32At_take] at hop
    refine (?_ : Returns (TlLeft Has c bs) _ _ _) X hX
    refine Returns.ite (fun h => ?_) (fun h₁ => Returns.ite (fun h => ?_) (fun h₂ =>
      Returns.ite (fun h => ?_) (fun h₃ => ?_)))
    · -- an actor
      refine (tlfExpect_returns hM herror hlen (hop.symm.trans h)).bind (fun _ => ?_)
      refine (tlfLong_behind hM hlen).bind (fun x => Returns.or ?_ ?_)
      · exact pure_errored _ (fun _ hX => .inl hX)
      · refine Returns.given (fun h12 => Returns.pure (fun X hX => .inr (.inl ?_)))
        exact ⟨12, by decide, h12, rfl, hX, trivial⟩
    · -- an actor and flags
      refine (tlfExpect_returns hM herror hlen (hop.symm.trans h)).bind (fun _ => ?_)
      refine (tlfLong_behind hM hlen).bind (fun x => Returns.or ?_ ?_)
      · exact (tlfQueryFlags_errored).bind (fun _ => pure_errored _ (fun _ hX => .inl hX))
      · exact Returns.given (fun h12 => flagsRound_returns hM h12 (fun _ => trivial))
    · -- flags
      exact (tlfExpect_returns hM herror hlen (hop.symm.trans h)).bind
        (fun _ => flagsRound_returns hM hlen (fun _ => trivial))
    · refine Returns.pure (fun X hX => .inr (.inr ⟨rfl, hX, hlen, ?_⟩))
      rw [← hop]
      rintro (h | h | h)
      · exact h₁ h
      · exact h₂ h
      · exact h₃ h

end Steps

section Answers

variable {ι : Type} {M : TlInMethods ι} {Has : TlState ι → Bytes → Prop} {c : TlIn} {bs : Bytes}
  {header : TlQueryHeader}

theorem answerStep_errored : Returns Errored (answerStep M header) (answerStep M header)
    (fun _ => Errored) := by
  refine Returns.ite (fun _ => ?_) (fun _ => Returns.pure (fun _ hX => hX))
  refine (tlfLookup_errored 4 int32At (-1)).bind (fun op => Returns.given (fun hop => ?_))
  rw [hop, if_neg (by decide), if_neg (by decide), if_neg (by decide)]
  exact Returns.pure (fun _ hX => hX)

/-- A result in which `RPC_REQ_ERROR_WRAPPED` does not come up any more. -/
def NotWrapped (header : TlQueryHeader) (bs : Bytes) : Prop :=
  header.op ≠ rpcReqError ∧ ¬ MeetsWrapped bs

/-- **A round of `tlf_query_answer_header`** on a result. -/
theorem answerStep_returns (hM : TlReader M Has) (hI : NotWrapped header bs) :
    Returns (TlLeft Has c bs) (answerStep M header) (answerStep M header)
      (RoundEnds Has c bs NotWrapped (fun _ => NextIsNot AnswerWord)) := by
  obtain ⟨hresult, hno⟩ := hI
  have hne : rpcReqErrorWrapped ≠ rpcReqError := by decide
  refine Returns.ite (fun _ => ?_) (fun h => absurd hresult h)
  refine (tlfLookup_returns hM 4 int32At (-1)).bind (fun op => Returns.or ?_ ?_)
  · refine Returns.given (fun hop => ?_)
    rw [hop, if_neg (by decide), if_neg (by decide), if_neg (by decide)]
    exact Returns.pure (fun _ hX => .inl hX)
  · intro X hX
    obtain ⟨herror, hlen, hop, hX⟩ := hX
    rw [int32At_take] at hop
    refine (?_ : Returns (TlLeft Has c bs) _ _ _) X hX
    refine Returns.ite (fun h => ?_) (fun h₁ => Returns.ite (fun h => ?_) (fun h₂ =>
      Returns.ite (fun h => ?_) (fun h₃ => ?_)))
    · -- an error inside of the result
      refine (tlfExpect_returns hM herror hlen (hop.symm.trans h)).bind (fun _ => ?_)
      refine (tlfLong_behind hM hlen).bind (fun x => Returns.or ?_ ?_)
      · exact pure_errored _ (fun _ hX => .inl hX)
      · refine Returns.given (fun h12 => Returns.pure (fun X hX => .inr (.inl ?_)))
        refine ⟨12, by decide, h12, rfl, hX, hne, fun hmeets => ?_⟩
        exact hno (.error (hop.symm.trans h) hmeets)
    · exact absurd (.here hlen (hop.symm.trans h)) hno
    · refine (tlfExpect_returns hM herror hlen (hop.symm.trans h)).bind (fun _ => ?_)
      refine flagsRound_returns hM hlen (fun hzero => ⟨hresult, fun hmeets => ?_⟩)
      exact hno (.flags (hop.symm.trans h) hzero hmeets)
    · refine Returns.pure (fun X hX => .inr (.inr ⟨rfl, hX, hlen, ?_⟩))
      rw [← hop]
      rintro (h | h | h)
      · exact h₁ h
      · exact h₂ h
      · exact h₃ h

/-- An error answer stops at once. -/
theorem answerStep_stops (hop : header.op = rpcReqError) :
    Returns (TlLeft Has c bs) (answerStep M header) (answerStep M header)
      (RoundEnds Has c bs (fun _ _ => False) (fun _ bs' => bs' = bs)) := by
  refine Returns.ite (fun h => absurd hop h) (fun _ => ?_)
  exact Returns.pure (fun X hX => .inr (.inr ⟨rfl, hX, rfl⟩))

end Answers

/-! ## The loop -/

section Loop

variable {ι α β : Type} {M : TlInMethods ι} {Has : TlState ι → Bytes → Prop} {c : TlIn}
  {bs : Bytes} {header : TlQueryHeader} {step : TlQueryHeader → TlM ι (Bool × TlQueryHeader)}
  {I stop : TlQueryHeader → Bytes → Prop}

theorem tlfUnread_bind {f g : ℤ → TlM ι β} {Q : β → TlState ι → Prop}
    (h : Returns (TlLeft Has c bs) (f c.remaining) (g c.remaining) Q) :
    Returns (TlLeft Has c bs) (tlfUnread >>= f) (tlfUnread >>= g) Q := by
  rintro X ⟨rfl, hX⟩
  exact h X ⟨rfl, hX⟩

theorem skipPrepended_eq : (tlfSkipPrepended M : TlM ι Unit) = pure () :=
  if_neg (not_not.mpr rfl)

/-- With an error, the loop ends after a round. -/
theorem headerLoop_errored {fuel : ℕ} (hfuel : 0 < fuel) (t : ℤ)
    (hstep : Returns Errored (step header) (step header) (fun _ => Errored)) :
    Returns Errored (headerLoop step fuel t header) (headerLoop step fuel t header)
      (fun r X => r.1 = -1 ∧ Errored X) := by
  obtain ⟨n, rfl⟩ := Nat.exists_eq_succ_of_ne_zero hfuel.ne'
  exact hstep.bind (fun r => tlfError_errored (pure_errored _ (fun _ hX => ⟨rfl, hX⟩)))

/-- What the loop leaves, with `t` bytes at the start of the header. -/
def LoopEnds (Has : TlState ι → Bytes → Prop) (t : ℤ) (c : TlIn) (bs : Bytes)
    (stop : TlQueryHeader → Bytes → Prop) (r : ℤ × TlQueryHeader) (X : TlState ι) : Prop :=
  (r.1 = -1 ∧ Errored X) ∨
  ∃ k : ℕ, r.1 = t - (c.remaining - k) ∧ k ≤ bs.length ∧ X.cur.error = none ∧
    TlLeft Has (c.advance k) (bs.drop k) X ∧ stop r.2 (bs.drop k)

/-- **The loop ends**, by induction on the fuel: every round but the last takes bytes. -/
theorem headerLoop_returns
    (hstep : ∀ c bs header, I header bs → Returns (TlLeft Has c bs) (step header) (step header)
      (RoundEnds Has c bs I stop))
    {fuel : ℕ} (hfuel : bs.length < fuel) (herror : c.error = none) (hI : I header bs) (t : ℤ) :
    Returns (TlLeft Has c bs) (headerLoop step fuel t header) (headerLoop step fuel t header)
      (LoopEnds Has t c bs stop) := by
  induction fuel generalizing c bs header with
  | zero => exact absurd hfuel (Nat.not_lt_zero _)
  | succ n ih =>
    refine (hstep c bs header hI).bind (fun r X hX => ?_)
    rcases hX with hX | ⟨k, hpos, hk, hok, hX, hI'⟩ | ⟨hok, hX, hstop⟩
    · exact tlfError_errored (pure_errored _ (fun _ hX => .inl ⟨rfl, hX⟩)) X hX
    · have herror' : (c.advance k).error = none := herror
      have hfuel' : (bs.drop k).length < n := by
        rw [List.length_drop]
        omega
      refine tlfError_returns herror' ?_ X hX
      rw [hok, if_pos rfl]
      refine (ih hfuel' herror' hI').post (fun r X hQ => ?_)
      rcases hQ with hQ | ⟨k', hr, hk', herr, hX, hstop⟩
      · exact .inl hQ
      · rw [List.length_drop] at hk'
        rw [List.drop_drop] at hX hstop
        rw [TlIn.advance_advance] at hX
        refine .inr ⟨k + k', ?_, by omega, herr, hX, hstop⟩
        rw [hr, Nat.cast_add]
        change t - (c.remaining - k - k') = _
        omega
    · refine tlfError_returns herror ?_ X hX
      rw [hok, if_neg (by decide)]
      refine tlfUnread_bind (Returns.pure (fun Y hY => .inr ⟨0, ?_, Nat.zero_le _, ?_, ?_, hstop⟩))
      · rw [Nat.cast_zero, sub_zero]
      · rw [hY.1]
        exact herror
      · rw [TlIn.advance_zero]
        exact hY

/-- The operation is read first. -/
theorem headerStart_reads (hM : TlReader M Has) (herror : c.error = none) (hlen : 4 ≤ bs.length) :
    Returns (TlLeft Has c bs) (headerStart M) (headerStart M)
      (fun r X => r = (c.remaining, ⟨0, 0, 0, int32At bs, int32At bs, 1⟩) ∧
        TlLeft Has (c.advance (4 : ℕ)) (bs.drop 4) X) := by
  apply tlfUnread_bind
  rw [skipPrepended_eq, pure_bind]
  refine (tlfFetch_reads hM herror hlen int32At (-1)).bind
    (fun x => Returns.given (fun hx => Returns.pure (fun X hX => ⟨?_, hX⟩)))
  rw [hx, int32At_take]

theorem headerStart_returns (hM : TlReader M Has) :
    Returns (TlLeft Has c bs) (headerStart M) (headerStart M)
      (fun r X => (r.2.op = -1 ∧ Errored X) ∨ (c.error = none ∧ 4 ≤ bs.length ∧
        r = (c.remaining, ⟨0, 0, 0, int32At bs, int32At bs, 1⟩) ∧
        TlLeft Has (c.advance (4 : ℕ)) (bs.drop 4) X)) := by
  apply tlfUnread_bind
  rw [skipPrepended_eq, pure_bind]
  refine (tlfFetch_returns hM 4 int32At (-1)).bind (fun x => Returns.pure (fun X hX => ?_))
  rcases hX with ⟨rfl, hX⟩ | ⟨herror, hlen, hx, hX⟩
  · exact .inl ⟨rfl, hX⟩
  · rw [int32At_take] at hx
    exact .inr ⟨herror, hlen, by rw [hx], hX⟩

end Loop

/-! ## Both functions -/

section Results

variable {ι : Type} {M : TlInMethods ι} {Has : TlState ι → Bytes → Prop} {c : TlIn} {bs : Bytes}

/-- What the loop leaves behind the first twelve bytes. -/
theorem headerRead_of_loop {stop : TlQueryHeader → Bytes → Prop} {short : ℤ} {words : ℤ → Prop}
    (h12 : 12 ≤ bs.length) (hstop : ∀ (header : TlQueryHeader) (k : ℕ), k + 12 ≤ bs.length →
      stop header ((bs.drop 12).drop k) →
      (int32At bs = short → k = 0) ∧
        (int32At bs ≠ short → NextIsNot words ((bs.drop 12).drop k)))
    {r : ℤ × TlQueryHeader} {X : TlState ι}
    (h : LoopEnds Has c.remaining (c.advance (12 : ℕ)) (bs.drop 12) stop r X) :
    HeaderRead Has c bs short words r X := by
  rcases h with h | ⟨k, hr, hk, herror, hX, hs⟩
  · exact .inl h
  · rw [List.length_drop] at hk
    obtain ⟨hshort, hlong⟩ := hstop r.2 k (by omega) hs
    rw [List.drop_drop] at hX hlong
    rw [TlIn.advance_advance] at hX
    refine .inr ⟨12 + k, ?_, by omega, herror, hX, fun h => by rw [hshort h], hlong⟩
    rw [hr, Nat.cast_add]
    change c.remaining - (c.remaining - (12 : ℕ) - k) = _
    omega

/-- The start of both functions, with the `rest` behind the number. -/
theorem header_returns (hM : TlReader M Has) {short : ℤ} {words : ℤ → Prop}
    (bad : ℤ → Prop) [DecidablePred bad] (hbad : bad (-1)) (text : String)
    (rest : ℤ → TlQueryHeader → TlM ι (ℤ × TlQueryHeader))
    (herr : ∀ t header, Returns Errored (rest t header) (rest t header)
      (fun r X => r.1 = -1 ∧ Errored X))
    (hrest : ∀ header : TlQueryHeader, header.op = int32At bs → ¬ bad header.op →
      c.error = none → 12 ≤ bs.length →
      Returns (TlLeft Has (c.advance (12 : ℕ)) (bs.drop 12)) (rest c.remaining header)
        (rest c.remaining header) (HeaderRead Has c bs short words)) :
    Returns (TlLeft Has c bs)
      (headerStart M >>= fun (t, header) => if bad header.op then headerError text header
        else tlfLong M >>= fun qid => rest t { header with qid := qid })
      (headerStart M >>= fun (t, header) => if bad header.op then headerError text header
        else tlfLong M >>= fun qid => rest t { header with qid := qid })
      (HeaderRead Has c bs short words) := by
  apply (headerStart_returns hM).bind
  rintro ⟨t, header⟩
  refine Returns.or (Returns.given (fun hop => ?_)) ?_
  · dsimp only at hop ⊢
    rw [hop, if_pos hbad]
    exact (headerError_errored _ header).post (fun r X hX => .inl ⟨by rw [hX.1], hX.2⟩)
  · rintro X ⟨herror, hlen, heq, hX⟩
    obtain ⟨rfl, hheader⟩ := Prod.mk.inj heq
    have hword : header.op = int32At bs := by rw [hheader]
    refine (?_ : Returns (TlLeft Has (c.advance (4 : ℕ)) (bs.drop 4)) _ _ _) X hX
    refine Returns.ite (fun _ => ?_) (fun hop => ?_)
    · exact (headerError_returns hM _ _).post (fun r X hX => .inl ⟨by rw [hX.1], hX.2⟩)
    · refine (tlfLong_behind hM hlen).bind
        (fun qid => Returns.or ?_ (Returns.given (fun h12 => ?_)))
      · exact (herr _ _).post (fun _ _ hX => .inl hX)
      · exact hrest { header with qid := qid } hword hop herror h12

/-- **`tlf_query_header` returns.** -/
theorem tlfQueryHeader_returns (hM : TlReader M Has) {fuel : ℕ} (hfuel : bs.length < fuel) :
    Returns (TlLeft Has c bs) (tlfQueryHeader M fuel) (tlfQueryHeader M fuel)
      (HeaderRead Has c bs rpcInvokeKphpReq QueryWord) := by
  refine header_returns hM (fun op => op ≠ rpcInvokeReq ∧ op ≠ rpcInvokeKphpReq) (by decide) _
    (queryHeaderRest M fuel) (fun t header => ?_) (fun header hop _ herror h12 => ?_)
  · refine Returns.ite (fun _ => ?_) (fun _ => ?_)
    · exact tlfError_errored (pure_errored _ (fun _ hX => ⟨rfl, hX⟩))
    · exact headerLoop_errored (Nat.zero_lt_of_lt hfuel) _ queryStep_errored
  · have herror' : (c.advance (12 : ℕ)).error = none := herror
    refine Returns.ite (fun hkphp => ?_) (fun hkphp => ?_)
    · refine tlfError_returns herror' (tlfUnread_bind (Returns.pure (fun Y hY => .inr ?_)))
      refine ⟨12, ?_, h12, by rw [hY.1]; exact herror, hY, fun _ => rfl,
        fun h => absurd (hop.symm.trans hkphp) h⟩
      change c.remaining - (c.remaining - (12 : ℕ)) = (12 : ℕ)
      omega
    · have hlen : (bs.drop 12).length < fuel := by
        rw [List.length_drop]
        omega
      refine Returns.post (headerLoop_returns (fun c bs header _ => queryStep_returns hM) hlen
        herror' trivial c.remaining) (fun _ _ h => headerRead_of_loop h12 (fun _ k _ hs => ?_) h)
      exact ⟨fun h => absurd (hop.trans h) hkphp, fun _ => hs⟩

/-- **`tlf_query_answer_header` returns**, unless `RPC_REQ_ERROR_WRAPPED` comes up. -/
theorem tlfQueryAnswerHeader_returns (hM : TlReader M Has) {fuel : ℕ} (hfuel : bs.length < fuel)
    (hwrapped : ¬ AnswerMeetsWrapped bs) :
    Returns (TlLeft Has c bs) (tlfQueryAnswerHeader M fuel) (tlfQueryAnswerHeader M fuel)
      (HeaderRead Has c bs rpcReqError AnswerWord) := by
  refine header_returns hM (fun op => op ≠ rpcReqError ∧ op ≠ rpcReqResult) (by decide) _
    (headerLoop (answerStep M) fuel)
    (fun t header => headerLoop_errored (Nat.zero_lt_of_lt hfuel) t answerStep_errored)
    (fun header hop hgood herror h12 => ?_)
  have herror' : (c.advance (12 : ℕ)).error = none := herror
  have hlen : (bs.drop 12).length < fuel := by
    rw [List.length_drop]
    omega
  by_cases hshort : header.op = rpcReqError
  · -- no byte is taken behind the number
    have hends : ∀ c bs' header', header'.op = rpcReqError ∧ bs' = bs.drop 12 →
        Returns (TlLeft Has c bs') (answerStep M header') (answerStep M header')
          (RoundEnds Has c bs' (fun header' bs' => header'.op = rpcReqError ∧ bs' = bs.drop 12)
          (fun _ bs' => bs' = bs.drop 12)) := by
      intro c bs' header' hI
      refine (answerStep_stops hI.1).post (fun r X hX => ?_)
      rcases hX with hX | ⟨k, -, -, -, -, hX⟩ | ⟨hok, hX, hs⟩
      · exact .inl hX
      · exact hX.elim
      · exact .inr (.inr ⟨hok, hX, hI.2⟩)
    refine Returns.post (headerLoop_returns hends hlen herror' ⟨hshort, rfl⟩ c.remaining)
      (fun _ _ h => headerRead_of_loop h12 (fun _ k hk hs => ?_) h)
    have hsame := congrArg List.length hs
    simp only [List.length_drop] at hsame
    exact ⟨fun _ => by omega, fun h => absurd (hop.symm.trans hshort) h⟩
  · have hresult : header.op = rpcReqResult := not_not.mp (fun hno => hgood ⟨hshort, hno⟩)
    have hI : NotWrapped header (bs.drop 12) :=
      ⟨hshort, fun hmeets => hwrapped ⟨hop.symm.trans hresult, hmeets⟩⟩
    refine Returns.post (headerLoop_returns (fun c bs header => answerStep_returns hM) hlen herror'
      hI c.remaining) (fun _ _ h => headerRead_of_loop h12 (fun _ k _ hs => ?_) h)
    exact ⟨fun h => absurd (hop.trans h) hshort, fun _ => hs⟩

/-! ## What does not end -/

/-- The case `RPC_REQ_ERROR_WRAPPED` takes nothing. -/
theorem answerStep_wrapped (hM : TlReader M Has) {header : TlQueryHeader} (herror : c.error = none)
    (hlen : 4 ≤ bs.length) (hword : int32At bs = rpcReqErrorWrapped)
    (hop : header.op ≠ rpcReqError) :
    Returns (TlLeft Has c bs) (answerStep M header) (answerStep M header)
      (fun r X => r.1 = true ∧ r.2.op = rpcReqErrorWrapped ∧ TlLeft Has c bs X) := by
  refine Returns.ite (fun _ => ?_) (fun h => absurd hop h)
  refine (tlfLookup_reads hM herror hlen int32At (-1)).bind (fun op => Returns.given (fun h => ?_))
  rw [int32At_take, hword] at h
  rw [h, if_neg (by decide), if_pos rfl]
  exact Returns.pure (fun X hX => ⟨rfl, rfl, hX⟩)

/-- The loop goes on for as long as there is fuel. -/
theorem answerLoop_hangs (hM : TlReader M Has) {header : TlQueryHeader} (herror : c.error = none)
    (hlen : 4 ≤ bs.length) (hword : int32At bs = rpcReqErrorWrapped)
    (hop : header.op ≠ rpcReqError) (fuel : ℕ) (t : ℤ) {X : TlState ι} (hX : TlLeft Has c bs X) :
    headerLoop (answerStep M) fuel t header X = none := by
  induction fuel generalizing header X with
  | zero => rfl
  | succ n ih =>
    refine (answerStep_wrapped hM herror hlen hword hop).bind_eq_none (fun r Y hY => ?_) hX
    obtain ⟨hok, hwrapped, hY⟩ := hY
    have hseen : (tlfError : TlM ι Bool) Y = some (false, Y) := by
      change some (Y.cur.error.isSome, Y) = some (false, Y)
      rw [hY.1, herror]
      rfl
    apply (bind_of_some hseen _).trans
    rw [if_neg Bool.false_ne_true, if_pos hok]
    exact ih (by rw [hwrapped]; decide) hY

/-- **`tlf_query_answer_header` never ends** on a result whose first word behind the number is
`RPC_REQ_ERROR_WRAPPED`. -/
theorem tlfQueryAnswerHeader_hangs (hM : TlReader M Has) (herror : c.error = none)
    (hlen : 16 ≤ bs.length) (hop : int32At bs = rpcReqResult)
    (hword : int32At (bs.drop 12) = rpcReqErrorWrapped) (fuel : ℕ) {X : TlState ι}
    (hX : TlLeft Has c bs X) : tlfQueryAnswerHeader M fuel X = none := by
  have h8 : 8 ≤ (bs.drop 4).length := by
    rw [List.length_drop]
    omega
  have h4 : 4 ≤ (bs.drop 12).length := by
    rw [List.length_drop]
    omega
  refine (headerStart_reads hM herror (by omega)).bind_eq_none (fun r Y hY => ?_) hX
  obtain ⟨rfl, hY⟩ := hY
  rw [hop]
  dsimp only
  rw [if_neg (fun h => h.2 rfl)]
  refine (tlfFetch_reads hM (c := c.advance (4 : ℕ)) herror h8 int64At (-1)).bind_eq_none
    (fun qid Z hZ => ?_) hY
  obtain ⟨-, hZ⟩ := hZ
  rw [List.drop_drop, TlIn.advance_advance] at hZ
  have hne : rpcReqResult ≠ rpcReqError := by decide
  exact answerLoop_hangs hM (c := c.advance (12 : ℕ)) herror h4 hword hne fuel _ hZ

/-- `RPC_REQ_RESULT`, a number, and `RPC_REQ_ERROR_WRAPPED`. -/
def wrappedResult : Bytes :=
  [0x4e, 0xda, 0xae, 0x63, 0, 0, 0, 0, 0, 0, 0, 0, 0xf6, 0x32, 0xe4, 0x7a]

theorem tlfQueryAnswerHeader_hangs_wrapped :
    tlfQueryAnswerHeader (tlInStrMethods wrappedResult) 17
      (tlfInitStr (MsgState.start (fun _ _ => 0)) ⟨.str [], 0, 0⟩ 16) = none := by
  have hlen : 16 ≤ wrappedResult.length := by decide
  exact tlfQueryAnswerHeader_hangs (c := ⟨16, 0, 0, none⟩) (strReader wrappedResult) rfl hlen
    (by decide) (by decide) 17 ⟨rfl, rfl, [], 0, rfl, Nat.zero_le _, rfl⟩

end Results

/-- `tlf_query_header` returns with what it should. -/
def QueryHeaderReturns {ι : Type} (M : TlInMethods ι) (Has : TlState ι → Bytes → Prop) (c : TlIn)
    (bs : Bytes) (fuel : ℕ) : Prop :=
  Returns (TlLeft Has c bs) (tlfQueryHeader M fuel) (tlfQueryHeader M fuel)
    (HeaderRead Has c bs rpcInvokeKphpReq QueryWord)

/-- `tlf_query_answer_header` does. -/
def AnswerHeaderReturns {ι : Type} (M : TlInMethods ι) (Has : TlState ι → Bytes → Prop) (c : TlIn)
    (bs : Bytes) (fuel : ℕ) : Prop :=
  Returns (TlLeft Has c bs) (tlfQueryAnswerHeader M fuel) (tlfQueryAnswerHeader M fuel)
    (HeaderRead Has c bs rpcReqError AnswerWord)

/-- **Headers are read to their end** in no more rounds than there are bytes, on inputs of either
kind: of queries always, of answers unless `RPC_REQ_ERROR_WRAPPED` comes up. -/
theorem tl_headers_terminate (c : TlIn) (bs : Bytes) {fuel : ℕ} (hfuel : bs.length < fuel) :
    (∀ s, QueryHeaderReturns (tlInStrMethods s) (StrHas s) c bs fuel) ∧
    QueryHeaderReturns tlInRawMsgMethods MessageHas c bs fuel ∧
    (¬ AnswerMeetsWrapped bs →
      (∀ s, AnswerHeaderReturns (tlInStrMethods s) (StrHas s) c bs fuel) ∧
      AnswerHeaderReturns tlInRawMsgMethods MessageHas c bs fuel) :=
  ⟨fun s => tlfQueryHeader_returns (strReader s) hfuel,
    tlfQueryHeader_returns messageReader hfuel,
    fun hwrapped => ⟨fun s => tlfQueryAnswerHeader_returns (strReader s) hfuel hwrapped,
      tlfQueryAnswerHeader_returns messageReader hfuel hwrapped⟩⟩

/-- Behind a header of `k` bytes comes another word. -/
theorem HeaderRead.next {ι : Type} {Has : TlState ι → Bytes → Prop} {c : TlIn} {bs : Bytes}
    {short : ℤ} {words : ℤ → Prop} {r : ℤ × TlQueryHeader} {X : TlState ι} {k : ℕ}
    (h : HeaderRead Has c bs short words r X) (hk : r.1 = k) (hlong : int32At bs ≠ short) :
    X.cur.error = none ∧ NextIsNot words (bs.drop k) := by
  rcases h with ⟨hr, -⟩ | ⟨k', hr, -, herror, -, -, hnext⟩
  · omega
  · obtain rfl : k' = k := by omega
    exact ⟨herror, hnext hlong⟩

/-- `RPC_INVOKE_REQ`, a number, `RPC_DEST_ACTOR` with actor 7, `RPC_DEST_FLAGS` with 0, and 1. -/
def actorQuery : Bytes :=
  [0x3d, 0xdf, 0x74, 0x23, 0, 0, 0, 0, 0, 0, 0, 0, 0xbd, 0xaa, 0x68, 0x75, 7, 0, 0, 0, 0, 0, 0, 0,
    0x5e, 0x03, 0x52, 0xe3, 0, 0, 0, 0, 1, 0, 0, 0]

/-- `RPC_REQ_RESULT`, a number, `RPC_REQ_RESULT_FLAGS` with 0, and 2. -/
def flagsResult : Bytes :=
  [0x4e, 0xda, 0xae, 0x63, 0, 0, 0, 0, 0, 0, 0, 0, 0xe1, 0x4c, 0xc8, 0x8c, 0, 0, 0, 0, 2, 0, 0, 0]

/-- The state before a string of `n` bytes is read. -/
def startOfString (n : ℤ) : TlState ℤ :=
  tlfInitStr (MsgState.start (fun _ _ => 0)) ⟨.str [], 0, 0⟩ n

theorem flagsResult_not_wrapped : ¬ AnswerMeetsWrapped flagsResult := by
  have hend : ¬ MeetsWrapped (flagsResult.drop 20) := by
    intro h
    cases h with
    | here _ h => exact absurd h (by decide)
    | error h => exact absurd h (by decide)
    | flags h => exact absurd h (by decide)
  rintro ⟨-, h⟩
  cases h with
  | here _ h => exact absurd h (by decide)
  | error h => exact absurd h (by decide)
  | flags _ _ h => exact hend h

/-- The query is read up to the last word, and so is the result. -/
theorem tl_headers_terminate_flags :
    (∃ r X, tlfQueryHeader (tlInStrMethods actorQuery) 37 (startOfString 36) = some (r, X) ∧
      r.1 = (32 : ℕ) ∧ r.2.actorId = 7 ∧ X.cur.error = none ∧
      NextIsNot QueryWord (actorQuery.drop 32)) ∧
    ∃ r X, tlfQueryAnswerHeader (tlInStrMethods flagsResult) 25 (startOfString 24) = some (r, X) ∧
      r.1 = (20 : ℕ) ∧ X.cur.error = none ∧ NextIsNot AnswerWord (flagsResult.drop 20) := by
  obtain ⟨hquery, -⟩ := tl_headers_terminate ⟨36, 0, 0, none⟩ actorQuery (by decide : 36 < 37)
  obtain ⟨-, -, hanswer⟩ := tl_headers_terminate ⟨24, 0, 0, none⟩ flagsResult (by decide : 24 < 25)
  constructor
  · have hvalue : (tlfQueryHeader (tlInStrMethods actorQuery) 37 (startOfString 36)).map
        (fun out => (out.1.1, out.1.2.actorId)) = some (32, 7) := by decide +kernel
    obtain ⟨r, X, hrun, -, hread⟩ :=
      hquery actorQuery (startOfString 36) ⟨rfl, rfl, [], 0, rfl, Nat.zero_le _, rfl⟩
    rw [hrun, Option.map_some, Option.some.injEq, Prod.mk.injEq] at hvalue
    exact ⟨r, X, hrun, hvalue.1, hvalue.2, hread.next hvalue.1 (by decide)⟩
  · have hvalue : (tlfQueryAnswerHeader (tlInStrMethods flagsResult) 25 (startOfString 24)).map
        (fun out => out.1.1) = some 20 := by decide +kernel
    obtain ⟨r, X, hrun, -, hread⟩ := (hanswer flagsResult_not_wrapped).1 flagsResult
      (startOfString 24) ⟨rfl, rfl, [], 0, rfl, Nat.zero_le _, rfl⟩
    rw [hrun, Option.map_some, Option.some.injEq] at hvalue
    exact ⟨r, X, hrun, hvalue, hread.next hvalue (by decide)⟩

/-- `RPC_INVOKE_KPHP_REQ`, a number, and `RPC_DEST_FLAGS`. -/
def kphpFlags : Bytes := [0xda, 0x7f, 0xa3, 0x99, 0, 0, 0, 0, 0, 0, 0, 0, 0x5e, 0x03, 0x52, 0xe3]

/-- A header for KPHP takes twelve bytes without an error, and the next word announces flags. -/
theorem not_tl_headers_terminate :
    (tlfQueryHeader (tlInStrMethods kphpFlags) 17
        (tlfInitStr (MsgState.start (fun _ _ => 0)) ⟨.str [], 0, 0⟩ 16)).map
      (fun r => (r.1.1, r.2.cur.error, (tlfLookupInt (tlInStrMethods kphpFlags) r.2).map Prod.fst))
    = some (12, none, some rpcDestFlags) := by
  decide +kernel

end MtprotoProxy
