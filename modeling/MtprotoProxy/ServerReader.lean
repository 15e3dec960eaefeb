/-
# The reader of a connection

`cpu_tcp_server_reader` of `net/net-tcp-connections.c` for any type of connection: the
functions of `conn_type_t` that it calls are parameters.  A call of the reader up to its loop
is one step, a round of the loop is another one, and other threads act in between.

What the reader owes to `parse_execute` is said of the `ReaderLog` of a run.  A positive
answer asks for that many bytes more than there are, a negative one gives up the bytes that
are there and as many more.

* `reader_contract`: the reader keeps this along every run in which it counts the bytes that
  are there.  It counts `c->in_u` of a connection without a cipher, whose bytes are in `c->in`.
-/
import MtprotoProxy.CompactParse
import MtprotoProxy.Runs

namespace MtprotoProxy

open CLib

/-- `c->status`, as far as the reader and the parsers look at it. -/
inductive ConnStatus where
  | working
  | error
  | writeClose
  deriving DecidableEq

/-- What the functions of a connection type know beside the buffers of the connection; `data`
is their own. -/
structure ReaderEnv (σ : Type) where
  crypto : Bool
  flags : ConnFlags
  status : ConnStatus
  data : σ

/-- The connection: `c->in_u`, `c->in` and `c->skip_bytes`. -/
structure ReaderConn (σ : Type) where
  env : ReaderEnv σ
  inU : Bytes
  inp : Bytes
  skipBytes : ℤ

/-- The functions of `conn_type_t`.  `crypto_decrypt_input` leaves bytes in `c->in_u` and puts
others behind `c->in`; it may fail its assertion.  `parse_execute` may do anything. -/
structure ConnFunctions (σ : Type) where
  cryptoDecryptInput : ReaderEnv σ → Bytes → Option (ReaderEnv σ × Bytes × Bytes)
  dataReceived : ReaderEnv σ → ℕ → ReaderEnv σ
  parseExecute : ReaderEnv σ → Bytes → Bytes → ReaderEnv σ × Bytes × Bytes × ℤ

/-- What is observed of the reader: bytes come to the input, bytes are dropped from it,
`parse_execute` is called, and it answers `res` with `n` bytes in the input and `u` bytes in
`c->in_u`. -/
inductive ReaderLog where
  | arrived (k : ℕ)
  | dropped (k : ℕ)
  | called
  | answered (crypto : Bool) (n u : ℕ) (res : ℤ)
  deriving DecidableEq

/-- A connection with its reader, which is in its loop or not, and what was observed. -/
structure ReaderState (σ : Type) where
  conn : ReaderConn σ
  parsing : Bool
  log : List ReaderLog

/-- Bytes are read from the queue, the loop goes round, or other threads act. -/
inductive ReaderEvent (σ : Type) where
  | read (pieces : Bytes)
  | pass
  | others (env : ReaderEnv σ)

/-! ## The contract -/

/-- The answer that `parse_execute` gave last, with the number of bytes that were in the
input, and the bytes that came and were dropped since. -/
structure Progress where
  answer : Option (ℕ × ℤ)
  arrived : ℕ
  dropped : ℕ
  deriving DecidableEq

namespace Progress

/-- Nothing has happened. -/
def start : Progress := ⟨none, 0, 0⟩

/-- The answer `res` was given with `n` bytes in the input. -/
def after (n : ℕ) (res : ℤ) : Progress := ⟨some (n, res), 0, 0⟩

def next (p : Progress) : ReaderLog → Progress
  | .arrived k => { p with arrived := p.arrived + k }
  | .dropped k => { p with dropped := p.dropped + k }
  | .called => p
  | .answered _ n _ res => after n res

/-- The number of bytes to drop before the next call: those that were in the input and as many
more as a negative answer says. -/
def owed (p : Progress) : ℕ :=
  match p.answer with
  | none => 0
  | some (n, res) => if res < 0 then n + res.natAbs else 0

/-- The number of bytes to wait for before the next call. -/
def awaited (p : Progress) : ℕ :=
  match p.answer with
  | none => 0
  | some (_, res) => if 0 < res ∧ res ≠ needMoreBytes then res.natAbs else 0

/-- `parse_execute` may be called. -/
def Due (p : Progress) : Prop := p.awaited ≤ p.arrived ∧ p.dropped = p.owed

instance (p : Progress) : Decidable p.Due := inferInstanceAs (Decidable (_ ∧ _))

end Progress

/-- What has happened since the last answer. -/
def progress (log : List ReaderLog) : Progress := log.foldl Progress.next Progress.start

/-- **What is expected of the reader.**  It calls `parse_execute` when that is due, and it never
drops more than is owed. -/
structure Contract (log : List ReaderLog) : Prop where
  called : ∀ pre post, log = pre ++ .called :: post → (progress pre).Due
  dropped : ∀ pre post, log = pre ++ post → (progress pre).dropped ≤ (progress pre).owed

/-- The reader counts the `n` bytes in the input with an answer that asks for bytes or gives
bytes up, and the sum is an `int`. -/
def ReaderLog.Counts : ReaderLog → Prop
  | .answered crypto n u res => res = 0 ∨ res = needMoreBytes ∨
      ((crypto = true ∨ n = u) ∧ n + res.natAbs < 2 ^ 31)
  | _ => True

instance ReaderLog.decidableCounts : ∀ e : ReaderLog, Decidable e.Counts
  | .answered _ _ _ _ => inferInstanceAs (Decidable (_ ∨ _))
  | .arrived _ => isTrue trivial
  | .dropped _ => isTrue trivial
  | .called => isTrue trivial

theorem progress_snoc (log : List ReaderLog) (e : ReaderLog) :
    progress (log ++ [e]) = (progress log).next e := by
  unfold progress
  rw [List.foldl_append]
  rfl

theorem Contract.nil : Contract [] where
  called := by
    intro pre post h
    exact absurd h (by simp)
  dropped := by
    intro pre post h
    rw [(List.append_eq_nil_iff.mp h.symm).1]
    exact le_rfl

/-- One more observation. -/
theorem Contract.snoc {log : List ReaderLog} {e : ReaderLog} (h : Contract log)
    (hcalled : e = .called → (progress log).Due)
    (hdropped : (progress (log ++ [e])).dropped ≤ (progress (log ++ [e])).owed) :
    Contract (log ++ [e]) where
  called := by
    intro pre post hlog
    rcases List.eq_nil_or_concat post with rfl | ⟨post', e', rfl⟩
    · obtain ⟨rfl, he⟩ := List.append_inj' hlog rfl
      exact hcalled (List.cons.inj he).1
    · rw [List.concat_eq_append, ← List.cons_append, ← List.append_assoc] at hlog
      exact h.called pre post' (List.append_inj' hlog rfl).1
  dropped := by
    intro pre post hlog
    rcases List.eq_nil_or_concat post with rfl | ⟨post', e', rfl⟩
    · rw [List.append_nil] at hlog
      rwa [← hlog]
    · rw [List.concat_eq_append, ← List.append_assoc] at hlog
      exact h.dropped pre post' (List.append_inj' hlog rfl).1

/-! ## The code -/

namespace ReaderConn

variable {σ : Type}

/-- The bytes of `c->in_queue` come to the input. -/
def take (T : ConnFunctions σ) (pieces : Bytes) (c : ReaderConn σ) : Option (ReaderConn σ) :=
  if c.env.crypto then do
    let (env, inU, plain) ← T.cryptoDecryptInput c.env (c.inU ++ pieces)
    some ⟨env, inU, c.inp ++ plain, c.skipBytes⟩
  else some { c with inp := c.inp ++ pieces }

/-- The handling of `skip_bytes`: the connection, whether the reader goes on, and the number
of bytes that are dropped. -/
def skip (c : ReaderConn σ) : Option (ReaderConn σ × Bool × ℕ) :=
  let s := c.skipBytes
  if s < 0 then
    let r₁ : ℤ := if wrap32 (-s) < c.inp.length then wrap32 (-s) else c.inp.length
    -- `rwm_skip_data` asserts that it is not asked for a negative number of bytes
    if r₁ < 0 then none
    else some ({ c with inp := c.inp.drop r₁.toNat, skipBytes := s + r₁ }, decide (s + r₁ = 0),
      r₁.toNat)
  else if 0 < s then
    if s ≤ c.inp.length then some ({ c with skipBytes := 0 }, true, 0) else some (c, false, 0)
  else some (c, true, 0)

/-- The condition of the loop, with the check for an empty input. -/
def Loops (c : ReaderConn σ) : Prop :=
  c.skipBytes = 0 ∧ c.env.flags.error = false ∧ c.env.flags.failed = false ∧
    c.env.flags.netFailed = false ∧ c.env.flags.stopread = false ∧
    c.env.status ≠ .error ∧ c.inp ≠ []

instance (c : ReaderConn σ) : Decidable c.Loops := inferInstanceAs (Decidable (_ ∧ _))

end ReaderConn

namespace ReaderState

variable {σ : Type}

/-- A new connection. -/
def start (env : ReaderEnv σ) : ReaderState σ := ⟨⟨env, [], [], 0⟩, false, []⟩

/-- `cpu_tcp_server_reader` up to its loop. -/
def read (T : ConnFunctions σ) (pieces : Bytes) (s : ReaderState σ) : Option (ReaderState σ) := do
  let c ← s.conn.take T pieces
  let newlyReceived := c.inp.length - s.conn.inp.length
  let c := { c with env := T.dataReceived c.env newlyReceived }
  let log := s.log ++ [.arrived newlyReceived]
  let flags := c.env.flags
  if flags.failed ∨ flags.error ∨ flags.netFailed ∨ flags.stopread then some ⟨c, false, log⟩
  else
    let (c, goesOn, k) ← c.skip
    some ⟨c, goesOn, log ++ [.dropped k]⟩

/-- A round of the loop. -/
def pass (T : ConnFunctions σ) (s : ReaderState σ) : ReaderState σ :=
  if s.conn.Loops then
    let (env, inU, inp, res) := T.parseExecute s.conn.env s.conn.inU s.conn.inp
    let log := s.log ++ [.called, .answered env.crypto inp.length inU.length res]
    if res = 0 then ⟨⟨env, inU, inp, s.conn.skipBytes⟩, true, log⟩
    else if res = needMoreBytes then ⟨⟨env, inU, inp, s.conn.skipBytes⟩, false, log⟩
    else
      let bytes : ℤ := if env.crypto then inp.length else inU.length
      let skipBytes := wrap32 (if res < 0 then res - bytes else res + bytes)
      ⟨⟨env, inU, inp, skipBytes⟩, false, log⟩
  else { s with parsing := false }

/-- One step. -/
def step (T : ConnFunctions σ) (s : ReaderState σ) : ReaderEvent σ → Option (ReaderState σ)
  | .read pieces => if s.parsing then none else s.read T pieces
  | .pass => if s.parsing then some (s.pass T) else none
  | .others env => some { s with conn := { s.conn with env := env } }

/-! ## The reader keeps it -/

/-- What a state knows of its last answer. -/
structure Keeps (s : ReaderState σ) : Prop where
  bytes : ∀ n res, (progress s.log).answer = some (n, res) →
    s.conn.inp.length + (progress s.log).dropped = n + (progress s.log).arrived
  waiting : 0 < s.conn.skipBytes → ∃ n res, (progress s.log).answer = some (n, res) ∧
    s.conn.skipBytes = n + (progress s.log).awaited
  skipping : s.conn.skipBytes < 0 → -2 ^ 31 < s.conn.skipBytes ∧
    (progress s.log).dropped - s.conn.skipBytes = (progress s.log).owed ∧
    (progress s.log).awaited = 0
  settled : 0 ≤ s.conn.skipBytes → (progress s.log).dropped = (progress s.log).owed
  due : s.conn.skipBytes = 0 → (progress s.log).awaited ≤ (progress s.log).arrived
  idle : s.parsing = true → s.conn.skipBytes = 0
  contract : Contract s.log

variable {T : ConnFunctions σ} {s s' : ReaderState σ}

@[simp] theorem next_answered (p : Progress) (crypto : Bool) (n u : ℕ) (res : ℤ) :
    p.next (.answered crypto n u res) = .after n res := rfl

theorem keeps_start (env : ReaderEnv σ) : (start env).Keeps where
  bytes := fun n res h => absurd h (by simp [start, progress, Progress.start])
  waiting := fun h => absurd h (lt_irrefl 0)
  skipping := fun h => absurd h (lt_irrefl 0)
  settled := fun _ => rfl
  due := fun _ => le_rfl
  idle := fun h => absurd h Bool.false_ne_true
  contract := Contract.nil

/-- Bytes come to the input. -/
theorem Keeps.arrive (h : s.Keeps) (env : ReaderEnv σ) (inU bs : Bytes) :
    Keeps ⟨⟨env, inU, s.conn.inp ++ bs, s.conn.skipBytes⟩, false,
      s.log ++ [.arrived bs.length]⟩ where
  bytes := by
    intro n res hanswer
    rw [progress_snoc] at hanswer ⊢
    have hbytes := h.bytes n res hanswer
    show (s.conn.inp ++ bs).length + (progress s.log).dropped =
      n + ((progress s.log).arrived + bs.length)
    rw [List.length_append]
    omega
  waiting := by
    intro hpos
    rw [progress_snoc]
    exact h.waiting hpos
  skipping := by
    intro hneg
    rw [progress_snoc]
    exact h.skipping hneg
  settled := by
    intro hskip
    rw [progress_snoc]
    exact h.settled hskip
  due := by
    intro hzero
    rw [progress_snoc]
    exact (h.due hzero).trans (Nat.le_add_right _ _)
  idle := fun hparsing => absurd hparsing Bool.false_ne_true
  contract := by
    apply h.contract.snoc (by simp)
    have hle := h.contract.dropped s.log [] (List.append_nil _).symm
    rwa [progress_snoc]

/-- Bytes are dropped, or waited for. -/
theorem Keeps.skip (h : s.Keeps) {c : ReaderConn σ} {goesOn : Bool} {k : ℕ}
    (hskip : s.conn.skip = some (c, goesOn, k)) : Keeps ⟨c, goesOn, s.log ++ [.dropped k]⟩ := by
  have hanswer : (progress (s.log ++ [.dropped k])).answer = (progress s.log).answer := by
    rw [progress_snoc]
    rfl
  have howed : (progress (s.log ++ [.dropped k])).owed = (progress s.log).owed := by
    rw [progress_snoc]
    rfl
  have hawaited : (progress (s.log ++ [.dropped k])).awaited = (progress s.log).awaited := by
    rw [progress_snoc]
    rfl
  have harrived : (progress (s.log ++ [.dropped k])).arrived = (progress s.log).arrived := by
    rw [progress_snoc]
    rfl
  have hdropped : (progress (s.log ++ [.dropped k])).dropped = (progress s.log).dropped + k := by
    rw [progress_snoc]
    rfl
  unfold ReaderConn.skip at hskip
  dsimp only at hskip
  by_cases hneg : s.conn.skipBytes < 0
  · rw [if_pos hneg] at hskip
    obtain ⟨hlow, hdebt, hawait⟩ := h.skipping hneg
    rw [wrap32_of_isInt32 (by constructor <;> omega)] at hskip
    generalize hr : (if -s.conn.skipBytes < (s.conn.inp.length : ℤ) then -s.conn.skipBytes
      else s.conn.inp.length) = r₁ at hskip
    have hrange : 0 ≤ r₁ ∧ r₁ ≤ -s.conn.skipBytes ∧ r₁ ≤ s.conn.inp.length := by
      split_ifs at hr <;> omega
    rw [if_neg (by omega)] at hskip
    obtain ⟨rfl, rfl, rfl⟩ : _ ∧ _ ∧ _ := by simpa using hskip
    constructor
    · intro n res hres
      rw [hanswer] at hres
      have hbytes := h.bytes n res hres
      rw [harrived, hdropped]
      show (s.conn.inp.drop r₁.toNat).length + _ = _
      rw [List.length_drop]
      omega
    · intro hpos
      exact absurd hpos (by dsimp only; omega)
    · intro hneg'
      rw [hdropped, howed, hawaited]
      dsimp only at hneg' ⊢
      exact ⟨by omega, by push_cast; omega, hawait⟩
    · intro hnn
      rw [hdropped, howed]
      dsimp only at hnn
      omega
    · intro _
      rw [hawaited, hawait]
      exact Nat.zero_le _
    · intro hgo
      simpa using hgo
    · apply h.contract.snoc (by simp)
      rw [hdropped, howed]
      omega
  · rw [if_neg hneg] at hskip
    have hsettled := h.settled (not_lt.mp hneg)
    -- nothing is dropped
    have hk : k = 0 ∧ c.inp = s.conn.inp ∧ (c = s.conn ∨ c.skipBytes = 0 ∧ goesOn = true ∧
        0 < s.conn.skipBytes ∧ s.conn.skipBytes ≤ s.conn.inp.length) ∧
        (goesOn = true → c.skipBytes = 0) := by
      split_ifs at hskip with hpos hle
      · obtain ⟨rfl, rfl, rfl⟩ : _ ∧ _ ∧ _ := by simpa using hskip
        exact ⟨rfl, rfl, Or.inr ⟨rfl, rfl, hpos, hle⟩, fun _ => rfl⟩
      · obtain ⟨rfl, rfl, rfl⟩ : _ ∧ _ ∧ _ := by simpa using hskip
        exact ⟨rfl, rfl, Or.inl rfl, fun hgo => absurd hgo Bool.false_ne_true⟩
      · obtain ⟨rfl, rfl, rfl⟩ : _ ∧ _ ∧ _ := by simpa using hskip
        exact ⟨rfl, rfl, Or.inl rfl, fun _ => by omega⟩
    obtain ⟨rfl, hinp, hconn, hgo⟩ := hk
    rw [Nat.add_zero] at hdropped
    constructor
    · intro n res hres
      rw [hanswer] at hres
      rw [harrived, hdropped]
      show c.inp.length + _ = _
      rw [hinp]
      exact h.bytes n res hres
    · intro hpos
      rw [hanswer, hawaited]
      rcases hconn with rfl | ⟨hzero, -⟩
      · exact h.waiting hpos
      · exact absurd hpos (by dsimp only; omega)
    · intro hneg'
      rcases hconn with rfl | ⟨hzero, -⟩
      · exact absurd hneg' hneg
      · exact absurd hneg' (by dsimp only; omega)
    · intro _
      rw [hdropped, howed]
      exact hsettled
    · intro hzero
      rw [hawaited, harrived]
      rcases hconn with rfl | ⟨-, -, hpos, hle⟩
      · exact h.due hzero
      · obtain ⟨n, res, hres, heq⟩ := h.waiting hpos
        have hbytes := h.bytes n res hres
        omega
    · exact hgo
    · apply h.contract.snoc (by simp)
      rw [hdropped, howed]
      exact hsettled.le

/-- `parse_execute` is called when that is due; what is owed and awaited then is a matter of its
answer. -/
theorem Keeps.answer (h : s.Keeps) (hzero : s.conn.skipBytes = 0) (env : ReaderEnv σ)
    (inU inp : Bytes) {res k : ℤ} {goesOn : Bool} (hgo : goesOn = true → k = 0)
    (hpos : 0 < k → k = inp.length + (Progress.after inp.length res).awaited)
    (hneg : k < 0 → -2 ^ 31 < k ∧ -k = (Progress.after inp.length res).owed ∧
      (Progress.after inp.length res).awaited = 0)
    (hnn : 0 ≤ k → (Progress.after inp.length res).owed = 0)
    (hdue : k = 0 → (Progress.after inp.length res).awaited = 0) :
    Keeps ⟨⟨env, inU, inp, k⟩, goesOn,
      s.log ++ [.called, .answered env.crypto inp.length inU.length res]⟩ := by
  have hprogress : progress (s.log ++ [.called, .answered env.crypto inp.length inU.length res])
      = Progress.after inp.length res := by
    rw [List.append_cons, progress_snoc, next_answered]
  constructor <;> dsimp only <;> (try rw [hprogress])
  · intro n res' hres
    rw [← (Prod.mk.inj (Option.some.inj hres)).1]
    rfl
  · exact fun hk => ⟨inp.length, res, rfl, hpos hk⟩
  · intro hk
    obtain ⟨hlow, hdebt, hawait⟩ := hneg hk
    refine ⟨hlow, ?_, hawait⟩
    rw [← hdebt]
    exact zero_sub k
  · exact fun hk => (hnn hk).symm
  · exact fun hk => (hdue hk).le
  · exact hgo
  · rw [List.append_cons]
    apply Contract.snoc _ (by simp) (by rw [progress_snoc]; exact Nat.zero_le _)
    apply h.contract.snoc (fun _ => ⟨h.due hzero, h.settled hzero.ge⟩)
    have hle := h.contract.dropped s.log [] (List.append_nil _).symm
    rwa [progress_snoc]

/-- `parse_execute` is called, and the reader counts what it asks for. -/
theorem Keeps.pass (h : s.Keeps) (hparsing : s.parsing = true)
    (hcounts : ∀ e ∈ (s.pass T).log, e.Counts) : (s.pass T).Keeps := by
  have hzero := h.idle hparsing
  have hnone : ∀ k : ℤ, k = 0 → ¬ 0 < k ∧ ¬ k < 0 := by omega
  unfold ReaderState.pass at hcounts ⊢
  by_cases hloops : s.conn.Loops
  swap
  · rw [if_neg hloops]
    exact ⟨h.bytes, h.waiting, h.skipping, h.settled, h.due,
      fun hgo => absurd hgo Bool.false_ne_true, h.contract⟩
  rw [if_pos hloops] at hcounts ⊢
  generalize T.parseExecute s.conn.env s.conn.inU s.conn.inp = out at hcounts ⊢
  obtain ⟨env, inU, inp, res⟩ := out
  dsimp only at hcounts ⊢
  by_cases hres : res = 0
  · rw [if_pos hres]
    subst hres
    exact h.answer hzero env inU inp (fun _ => hzero) (fun hk => absurd hk (hnone _ hzero).1)
      (fun hk => absurd hk (hnone _ hzero).2) (fun _ => rfl) (fun _ => rfl)
  rw [if_neg hres] at hcounts ⊢
  by_cases hmore : res = needMoreBytes
  · rw [if_pos hmore]
    subst hmore
    exact h.answer hzero env inU inp (fun _ => hzero) (fun hk => absurd hk (hnone _ hzero).1)
      (fun hk => absurd hk (hnone _ hzero).2) (fun _ => rfl) (fun _ => rfl)
  rw [if_neg hmore] at hcounts ⊢
  -- the number that is counted is the number that is there
  obtain ⟨hbytes, hint⟩ : (env.crypto = true ∨ inp.length = inU.length) ∧
      inp.length + res.natAbs < 2 ^ 31 := by
    have hanswer := hcounts (.answered env.crypto inp.length inU.length res) (by simp)
    exact (hanswer.resolve_left hres).resolve_left hmore
  have hcount : (if env.crypto = true then (inp.length : ℤ) else inU.length) = inp.length := by
    split_ifs with hcrypto
    · rfl
    · rw [hbytes.resolve_left hcrypto]
  rw [hcount, wrap32_of_isInt32 (by unfold IsInt32; split_ifs <;> omega)]
  rcases lt_or_gt_of_ne hres with hneg | hpos
  · rw [if_pos hneg]
    have howed : (Progress.after inp.length res).owed = inp.length + res.natAbs := if_pos hneg
    have hawaited : (Progress.after inp.length res).awaited = 0 :=
      if_neg (fun hb => absurd hb.1 hneg.not_gt)
    apply h.answer hzero
    · exact fun hgo => absurd hgo Bool.false_ne_true
    · intro hk
      omega
    · intro _
      exact ⟨by omega, by rw [howed]; omega, hawaited⟩
    · intro hk
      omega
    · exact fun _ => hawaited
  · rw [if_neg hpos.not_gt]
    have howed : (Progress.after inp.length res).owed = 0 := if_neg hpos.not_gt
    have hawaited : (Progress.after inp.length res).awaited = res.natAbs := if_pos ⟨hpos, hmore⟩
    apply h.answer hzero
    · exact fun hgo => absurd hgo Bool.false_ne_true
    · intro _
      rw [hawaited]
      omega
    · intro hk
      omega
    · exact fun _ => howed
    · intro hk
      omega

/-- The bytes of the queue only come behind the input. -/
theorem take_eq {pieces : Bytes} {c c' : ReaderConn σ} (h : c.take T pieces = some c') :
    ∃ env inU bs, c' = ⟨env, inU, c.inp ++ bs, c.skipBytes⟩ := by
  unfold ReaderConn.take at h
  split_ifs at h
  · obtain ⟨⟨env, inU, plain⟩, -, heq⟩ := Option.bind_eq_some_iff.mp h
    exact ⟨env, inU, plain, (Option.some.inj heq).symm⟩
  · exact ⟨c.env, c.inU, pieces, (Option.some.inj h).symm⟩

theorem Keeps.read (h : s.Keeps) {pieces : Bytes} (hread : s.read T pieces = some s') :
    s'.Keeps := by
  unfold ReaderState.read at hread
  obtain ⟨c, htake, hread⟩ := Option.bind_eq_some_iff.mp hread
  obtain ⟨env, inU, bs, rfl⟩ := take_eq htake
  dsimp only at hread
  rw [List.length_append, Nat.add_sub_cancel_left] at hread
  have harrive := h.arrive (T.dataReceived env bs.length) inU bs
  split_ifs at hread
  · rw [← Option.some.inj hread]
    exact harrive
  · obtain ⟨⟨c, goesOn, k⟩, hskip, heq⟩ := Option.bind_eq_some_iff.mp hread
    rw [← Option.some.inj heq]
    exact harrive.skip hskip

theorem pass_log (T : ConnFunctions σ) (s : ReaderState σ) : s.log <+: (s.pass T).log := by
  unfold ReaderState.pass
  by_cases hloops : s.conn.Loops
  · rw [if_pos hloops]
    dsimp only
    repeat' split
    all_goals exact List.prefix_append _ _
  · rw [if_neg hloops]

/-- What was observed stays observed. -/
theorem step_log {e : ReaderEvent σ} (h : s.step T e = some s') : s.log <+: s'.log := by
  cases e with
  | read pieces =>
    unfold step at h
    split_ifs at h
    unfold ReaderState.read at h
    obtain ⟨c, -, h⟩ := Option.bind_eq_some_iff.mp h
    dsimp only at h
    split_ifs at h
    · rw [← Option.some.inj h]
      exact List.prefix_append _ _
    · obtain ⟨⟨c, goesOn, k⟩, -, heq⟩ := Option.bind_eq_some_iff.mp h
      rw [← Option.some.inj heq]
      exact (List.prefix_append _ _).trans (List.prefix_append _ _)
  | pass =>
    unfold step at h
    split_ifs at h
    rw [← Option.some.inj h]
    exact pass_log T s
  | others env =>
    rw [← Option.some.inj h]

theorem Keeps.step {e : ReaderEvent σ} (h : s.Keeps) (hcounts : ∀ e ∈ s'.log, e.Counts)
    (hstep : s.step T e = some s') : s'.Keeps := by
  cases e with
  | read pieces =>
    unfold ReaderState.step at hstep
    split_ifs at hstep
    exact h.read hstep
  | pass =>
    unfold ReaderState.step at hstep
    split_ifs at hstep with hparsing
    obtain rfl := Option.some.inj hstep
    exact h.pass hparsing hcounts
  | others env =>
    obtain rfl := Option.some.inj hstep
    exact ⟨h.bytes, h.waiting, h.skipping, h.settled, h.due, h.idle, h.contract⟩

/-- **The reader keeps its contract** along every run in which it counts the bytes of the input:
`parse_execute` is not called again before what it asked for is there, and what is dropped
before the next call are the bytes that were there and as many more as it gave up, whether there
is a cipher or not; nothing else is dropped. -/
theorem reader_contract (T : ConnFunctions σ) (env : ReaderEnv σ) (es : List (ReaderEvent σ))
    (s : ReaderState σ) (hrun : Runs.run (ReaderState.step T) (start env) es = some s)
    (hcounts : ∀ e ∈ s.log, e.Counts) : Contract s.log := by
  have hlog : ∀ {es : List (ReaderEvent σ)} {s s' : ReaderState σ},
      Runs.run (ReaderState.step T) s es = some s' → s.log <+: s'.log := by
    intro es s s' hrun
    exact Runs.run_relation (C := fun _ _ => True) (P := fun _ => True)
      (R := fun s s' => s.log <+: s'.log) (fun _ => List.prefix_rfl) List.IsPrefix.trans
      (fun s e s' _ _ hstep => ⟨trivial, step_log hstep⟩) trivial
      (Runs.along_of_forall (fun _ _ => trivial)) hrun
  have hkeeps : ∀ {es : List (ReaderEvent σ)} {s₀ : ReaderState σ}, s₀.Keeps →
      Runs.run (ReaderState.step T) s₀ es = some s → s.Keeps := by
    intro es
    induction es with
    | nil =>
      intro s₀ h hrun
      rwa [← Option.some.inj hrun]
    | cons e es ih =>
      intro s₀ h hrun
      obtain ⟨t, hstep, hrest⟩ := Runs.run_cons.mp hrun
      exact ih (h.step (fun e he => hcounts e ((hlog hrest).subset he)) hstep) hrest
  exact (hkeeps (keeps_start env) hrun).contract

/-- A connection type without a cipher whose parser asks for five bytes each time. -/
def fiveMore : ConnFunctions Unit where
  cryptoDecryptInput := fun _ _ => none
  dataReceived := fun env _ => env
  parseExecute := fun env inU inp => (env, inU, inp, 5)

/-- The environment of a connection without a cipher. -/
def plainEnv : ReaderEnv Unit := ⟨false, ⟨false, false, false, false, false⟩, .working, ()⟩

/-- A parser that takes all bytes and gives up two more: the reader counts no bytes rightly. -/
def giveUpTwo : ConnFunctions Unit where
  cryptoDecryptInput := fun _ _ => none
  dataReceived := fun env _ => env
  parseExecute := fun env inU _ => (env, inU, [], -2)

/-- Three of five bytes that are dropped beside those that were taken. -/
theorem reader_contract_giveUpTwo : ∃ s, Runs.run (ReaderState.step giveUpTwo) (start plainEnv)
    [.read [1], .pass, .read [2, 3, 4], .pass] = some s ∧ Contract s.log := by
  obtain ⟨s, hrun, hcounts⟩ : ∃ s, Runs.run (ReaderState.step giveUpTwo) (start plainEnv)
      [.read [1], .pass, .read [2, 3, 4], .pass] = some s ∧ ∀ e ∈ s.log, e.Counts :=
    ⟨_, rfl, by decide⟩
  exact ⟨s, hrun, reader_contract giveUpTwo plainEnv _ s hrun hcounts⟩

/-- **The reader calls too early**: with three bytes in the input five more are asked for, and
the next call is made when two have come. -/
theorem not_reader_contract : ∃ s, Runs.run (ReaderState.step fiveMore) (start plainEnv)
    [.read [1, 2, 3], .pass, .read [4, 5], .pass] = some s ∧ ¬ Contract s.log := by
  refine ⟨_, rfl, ?_⟩
  intro h
  have hdue : (progress [.arrived 3, .dropped 0, .called, .answered false 3 0 5, .arrived 2,
      .dropped 0]).Due := h.called _ [.answered false 5 0 5] rfl
  exact absurd hdue (by decide)

end ReaderState

end MtprotoProxy
