/-
# Keep-alive requests

`hts_parse_execute` of `net/net-http-server.c` behind the reader of `ServerReader`.  A round of its
loop (`htsRound`) parses a header from the input and hands the request to the `execute` handler,
which is any function; the blocks of the input are any cut of it.

The log of a connection has what the header machine started on and what the handler was called
with.  `Serves` says that these are the requests of the client in their order.

* `keepAlive_framing`: this holds along every run in which the body of a request and bytes behind
  it are never in the input together when the handler takes the request, and in which the handler
  closes the connection when it rejects a request with a body.

The counters of the statistics are left out, and the texts of the error pages.
-/
import MtprotoProxy.HttpRequests
import MtprotoProxy.ServerReader

namespace MtprotoProxy

open CLib

/-! ## The connection -/

/-- `SKIP_ALL_BYTES`. -/
def httpSkipAllBytes : ℤ := -2 ^ 31

/-- What an `execute` handler returns and leaves: the data of the request, `c->pending_queries`,
and the flags and the status of the connection. -/
structure HttpAnswer where
  res : ℤ
  hts : HtsData
  pendingQueries : ℕ
  flags : ConnFlags
  status : ConnStatus
  deriving DecidableEq

/-- What is observed: the header machine starts on the input, the handler is called, an error is
written. -/
inductive HttpLog where
  | parsed (content : Bytes)
  | executed (D : HtsData) (inp raw : Bytes) (answer : HttpAnswer)
  | refused (code : ℤ)
  deriving DecidableEq

/-- The data of an HTTP connection; `handler` is what the handler knows. -/
structure HttpConn (τ : Type) where
  hts : HtsData
  pendingQueries : ℕ
  handler : τ
  log : List HttpLog

/-- `execute` of `struct http_server_functions`, and the blocks of the input. -/
structure HttpServer (τ : Type) where
  execute : ReaderEnv (HttpConn τ) → Bytes → τ × HttpAnswer
  blocks : HttpConn τ → Bytes → List Bytes
  blocks_flatten : ∀ c inp, (blocks c inp).flatten = inp

/-- `D->query_flags &= ~QF_KEEPALIVE`. -/
def HtsData.clearKeepalive (D : HtsData) : HtsData :=
  { D with queryFlags := { D.queryFlags with keepalive := false } }

/-- `D->query_flags &= ~QF_ERROR`. -/
def HtsData.clearError (D : HtsData) : HtsData :=
  { D with queryFlags := { D.queryFlags with error := false } }

section

variable {τ : Type} (srv : HttpServer τ) (env : ReaderEnv (HttpConn τ))

def withHts (D : HtsData) : ReaderEnv (HttpConn τ) := { env with data := { env.data with hts := D } }

/-- Something is observed. -/
def observeHttp (e : HttpLog) : ReaderEnv (HttpConn τ) :=
  { env with data := { env.data with log := env.data.log ++ [e] } }

/-- `connection_write_close`. -/
def connectionWriteClose : ReaderEnv (HttpConn τ) :=
  if env.status = .working then
    { env with flags := { env.flags with stopread := true }, status := .writeClose }
  else env

/-! ## The loop -/

/-- The end of a round, with `inp` left: the return value, or the next round. -/
def htsNext (inp : Bytes) : ReaderEnv (HttpConn τ) × Bytes × Option ℤ :=
  let env :=
    if env.data.hts.queryFlags.error then
      observeHttp (withHts env env.data.hts.clearKeepalive) (.refused 400)
    else env
  if env.data.pendingQueries = 0 ∧ env.data.hts.queryFlags.keepalive = false then
    (connectionWriteClose env, inp, some 0)
  else (withHts env (env.data.hts.goto .start), inp, none)

/-- The handler is called, or the request is rejected before. -/
def htsAnswer (inp : Bytes) : ReaderEnv (HttpConn τ) × ℤ :=
  let D := env.data.hts
  if D.queryType = .post ∧ D.dataSize < 0 then (env, -411)
  else if D.queryType ≠ .post ∧ 0 < D.dataSize then (env, -413)
  else
    let bytes : ℤ := if D.queryType = .post then wrap32 (D.headerSize + D.dataSize) else D.headerSize
    let raw := if bytes < inp.length then inp.take bytes.toNat else inp
    let (handler, answer) := srv.execute env raw
    ({ env with
        flags := answer.flags
        status := answer.status
        data := {
          hts := answer.hts
          pendingQueries := answer.pendingQueries
          handler := handler
          log := env.data.log ++ [.executed D inp raw answer] } }, answer.res)

/-- What follows from the answer; `none` is an assertion that fails. -/
def htsReply (inp : Bytes) (res : ℤ) : Option (ReaderEnv (HttpConn τ) × Bytes × Option ℤ) :=
  let D := env.data.hts
  if 0 < res then some (env, inp, some res)
  else if inp.length < D.headerSize then none
  else
    let inp := inp.drop D.headerSize
    if res = httpSkipAllBytes ∨ res = 0 then
      if 0 < D.dataSize then
        let x : ℤ := inp.length
        let y := if D.dataSize < x then D.dataSize else x
        if y < x then
          some (withHts env (D.goto .start), inp.drop y.toNat, some (y - x))
        else some (htsNext env (inp.drop y.toNat))
      else some (htsNext env inp)
    else
      let D := if res = -413 then D.clearKeepalive else D
      some (htsNext (observeHttp (withHts env D.clearError) (.refused (-res))) inp)

/-- A header is parsed. -/
def htsDispatch (inp : Bytes) : Option (ReaderEnv (HttpConn τ) × Bytes × Option ℤ) :=
  let D := env.data.hts
  let D := if maxHttpHeaderSize ≤ D.headerSize then D.setError else D
  if D.queryFlags.error then
    if inp.length < D.headerSize then none
    else some (htsNext (withHts env D) (inp.drop D.headerSize))
  else
    let (env, res) := htsAnswer srv env inp
    htsReply env inp res

/-- A round of the loop on an input that is not empty. -/
def htsRound (inp : Bytes) : Option (ReaderEnv (HttpConn τ) × Bytes × Option ℤ) := do
  let (D, _) ← parseBlocks env.data.hts (srv.blocks env.data inp)
  let env := withHts (observeHttp env (.parsed inp)) D
  if D.parseState ≠ .done then some (env, inp, some needMoreBytes) else htsDispatch srv env inp

/-- The loop is left. -/
def htsStops (inp : Bytes) : Prop :=
  env.status ≠ .working ∨ env.data.pendingQueries ≠ 0 ∨ inp = [] ∨
    env.flags.error = true ∨ env.flags.stopparse = true

instance (inp : Bytes) : Decidable (htsStops env inp) := inferInstanceAs (Decidable (_ ∨ _))

end

/-- The loop of `hts_parse_execute`. -/
def htsLoop {τ : Type} (srv : HttpServer τ) :
    ℕ → ReaderEnv (HttpConn τ) → Bytes → Option (ReaderEnv (HttpConn τ) × Bytes × ℤ)
  | 0, _, _ => none
  | n + 1, env, inp =>
    if htsStops env inp then some (env, inp, needMoreBytes)
    else do
      let (env, inp, out) ← htsRound srv env inp
      match out with
      | some res => some (env, inp, res)
      | none => htsLoop srv n env inp

/-- `hts_parse_execute`. -/
def htsParseExecute {τ : Type} (srv : HttpServer τ) (env : ReaderEnv (HttpConn τ)) (inp : Bytes) :
    Option (ReaderEnv (HttpConn τ) × Bytes × ℤ) :=
  htsLoop srv (inp.length + 1) (withHts env (env.data.hts.goto .start)) inp

/-- `ct_http_server`, as far as the reader calls it.  The last case is an assertion that fails; it
does not come up, see `htsParseExecute_total`. -/
def httpFunctions {τ : Type} (srv : HttpServer τ) : ConnFunctions (HttpConn τ) where
  cryptoDecryptInput := fun _ _ => none
  dataReceived := fun env _ => env
  parseExecute := fun env inU inp =>
    match htsParseExecute srv env inp with
    | some (env, inp, res) => (env, inU, inp, res)
    | none => ({ env with status := .error }, inU, inp, needMoreBytes)

/-! ## What is expected -/

/-- The handler has answered a request, and asks for no more bytes. -/
def HttpLog.IsAnswer : HttpLog → Bool
  | .executed _ _ _ answer => decide (answer.res ≤ 0)
  | _ => false

/-- The number of requests that were answered. -/
def answeredCount (log : List HttpLog) : ℕ := log.countP HttpLog.IsAnswer

/-- What is observed belongs to the next one of the requests that are left: a header starts where
that request starts, and the handler has its header, and its body when it takes it. -/
def HttpLog.Suits (rem : List HttpRequest) : HttpLog → Prop
  | .parsed content => content <+: requestStream rem
  | .executed D _ raw answer => ∃ r rest, rem = r :: rest ∧ D.headerSize = r.head.length ∧
      D.queryType = r.queryType ∧ D.dataSize = r.dataSize ∧ r.head <+: raw ∧ raw <+: r.text ∧
      (answer.res = 0 → raw = r.text)
  | .refused _ => True

/-- **The requests are executed in their order.** -/
def Serves (requests : List HttpRequest) (log : List HttpLog) : Prop :=
  ∀ pre e post, log = pre ++ e :: post → e.Suits (requests.drop (answeredCount pre))

/-- The bytes that come from the client. -/
def received {σ : Type} (es : List (ReaderEvent σ)) : Bytes :=
  es.flatMap (fun e => match e with | .read pieces => pieces | _ => [])

/-- No byte is lost: behind the requests that were answered the input is what has come. -/
def Aligned (requests : List HttpRequest) (got : Bytes) (log : List HttpLog) (inp : Bytes) : Prop :=
  answeredCount log ≤ requests.length ∧
    got = requestStream (requests.take (answeredCount log)) ++ inp

/-- Nothing keeps the next request back. -/
def HttpReady {τ : Type} (env : ReaderEnv (HttpConn τ)) : Prop :=
  env.status = .working ∧ env.data.pendingQueries = 0 ∧
    env.flags = ⟨false, false, false, false, false⟩

/-- No request is left that has come as a whole. -/
def AllTaken {τ : Type} (requests : List HttpRequest) (env : ReaderEnv (HttpConn τ)) (inp : Bytes) :
    Prop :=
  HttpReady env → ∀ r rest, requests.drop (answeredCount env.data.log) = r :: rest →
    ¬ r.text <+: inp

/-- The requests are served so far, and as long as the connection is open no byte is lost.  Behind a
step of the reader no request is left over. -/
structure KeepsFraming {τ : Type} (requests : List HttpRequest) (es : List (ReaderEvent (HttpConn τ)))
    (s : ReaderState (HttpConn τ)) : Prop where
  serves : Serves requests s.conn.env.data.log
  aligned : s.conn.env.status = .working →
    Aligned requests (received es) s.conn.env.data.log s.conn.inp
  taken : (∀ env, es.getLast? ≠ some (.others env)) → s.parsing = false →
    AllTaken requests s.conn.env s.conn.inp

/-- A handler that returns `0` once the whole body is there, the number of missing bytes before
that, or a negative number.  It may set a length of a body that is not there. -/
structure HttpServer.Handles {τ : Type} (srv : HttpServer τ) : Prop where
  size : ∀ env raw, (srv.execute env raw).2.hts.headerSize = env.data.hts.headerSize
  data : ∀ env raw, 0 < env.data.hts.dataSize ∨ 0 < (srv.execute env raw).2.hts.dataSize →
    (srv.execute env raw).2.hts.dataSize = env.data.hts.dataSize
  res : ∀ env raw, (raw.length : ℤ) ≤ env.data.hts.headerSize + max env.data.hts.dataSize 0 →
    (srv.execute env raw).2.res < 0 ∨ (srv.execute env raw).2.res =
      env.data.hts.headerSize + max env.data.hts.dataSize 0 - raw.length

/-- The connection is closed behind an error. -/
def HttpAnswer.Closes (answer : HttpAnswer) : Prop :=
  answer.pendingQueries = 0 ∧ (answer.res = -413 ∨ answer.hts.queryFlags.keepalive = false)

/-- A request with a body, if it starts the input, is taken when the input ends with it, and a
rejection of it closes the connection. -/
def HttpLog.Framed : HttpLog → Prop
  | .executed _ inp _ answer => ∀ r : HttpRequest, r.WellFormed → r.method = postText → r.body ≠ [] →
      r.head <+: inp → answer.status ≠ .working ∨
        if answer.res = 0 ∨ answer.res = httpSkipAllBytes then inp.length = r.text.length
        else answer.res < 0 → answer.Closes
  | _ => True

/-- What other threads do: they may close the connection, but not open it again, and they do not
parse. -/
def HttpOthers {τ : Type} (s : ReaderState (HttpConn τ)) : ReaderEvent (HttpConn τ) → Prop
  | .others env => env.crypto = s.conn.env.crypto ∧ env.data.log = s.conn.env.data.log ∧
      (s.conn.env.status ≠ .working → env.status ≠ .working)
  | _ => True

/-! ## The log -/

theorem answeredCount_append (log more : List HttpLog) :
    answeredCount (log ++ more) = answeredCount log + answeredCount more := List.countP_append

theorem Serves.nil (requests : List HttpRequest) : Serves requests [] := by
  intro pre e post h
  exact absurd h (by simp)

/-- One more observation. -/
theorem Serves.snoc {requests : List HttpRequest} {log : List HttpLog} {e : HttpLog}
    (h : Serves requests log) (he : e.Suits (requests.drop (answeredCount log))) :
    Serves requests (log ++ [e]) := by
  intro pre e' post hlog
  rcases List.eq_nil_or_concat post with rfl | ⟨post', d, rfl⟩
  · obtain ⟨rfl, heq⟩ := List.append_inj' hlog rfl
    rwa [← (List.cons.inj heq).1]
  · rw [List.concat_eq_append, ← List.cons_append, ← List.append_assoc] at hlog
    exact h pre e' post' (List.append_inj' hlog rfl).1

/-- Only errors are written. -/
def Refusals (es : List HttpLog) : Prop := ∀ e ∈ es, ∃ code, e = .refused code

theorem Refusals.nil : Refusals [] := by
  intro e he
  exact absurd he List.not_mem_nil

theorem Refusals.one (code : ℤ) : Refusals [.refused code] := by
  intro e he
  exact ⟨code, List.mem_singleton.mp he⟩

theorem Refusals.append {es fs : List HttpLog} (h : Refusals es) (h' : Refusals fs) :
    Refusals (es ++ fs) := by
  intro e he
  rcases List.mem_append.mp he with he | he
  · exact h e he
  · exact h' e he

theorem Refusals.answeredCount {es : List HttpLog} (h : Refusals es) : answeredCount es = 0 := by
  refine List.countP_eq_zero.mpr (fun e he => ?_)
  obtain ⟨code, rfl⟩ := h e he
  exact Bool.false_ne_true

theorem Serves.refusals {requests : List HttpRequest} {log es : List HttpLog}
    (h : Serves requests log) (hes : Refusals es) : Serves requests (log ++ es) := by
  induction es generalizing log with
  | nil => rwa [List.append_nil]
  | cons e es ih =>
    obtain ⟨⟨code, rfl⟩, hrest⟩ := List.forall_mem_cons.mp hes
    rw [List.append_cons]
    exact ih (h.snoc trivial) hrest

/-! ## The ends of a round -/

section

variable {τ : Type} {env env' env'' : ReaderEnv (HttpConn τ)}

/-- The connection goes from `env` to `env'` at the end of a round: errors may be written, and it is
not opened again. -/
structure Winds (env env' : ReaderEnv (HttpConn τ)) : Prop where
  crypto : env'.crypto = env.crypto
  log : ∃ es, Refusals es ∧ env'.data.log = env.data.log ++ es
  closed : env.status ≠ .working → env'.status ≠ .working

theorem Winds.of_eq (hcrypto : env'.crypto = env.crypto) (hlog : env'.data.log = env.data.log)
    (hclosed : env.status ≠ .working → env'.status ≠ .working) : Winds env env' :=
  ⟨hcrypto, ⟨[], Refusals.nil, by rw [hlog, List.append_nil]⟩, hclosed⟩

theorem Winds.trans (h : Winds env env') (h' : Winds env' env'') : Winds env env'' := by
  obtain ⟨es, hes, hlog⟩ := h.log
  obtain ⟨fs, hfs, hlog'⟩ := h'.log
  refine ⟨h'.crypto.trans h.crypto, ⟨es ++ fs, hes.append hfs, ?_⟩,
    fun hst => h'.closed (h.closed hst)⟩
  rw [hlog', hlog, List.append_assoc]

theorem Winds.answeredCount (h : Winds env env') :
    answeredCount env'.data.log = answeredCount env.data.log := by
  obtain ⟨es, hes, hlog⟩ := h.log
  rw [hlog, answeredCount_append, hes.answeredCount, Nat.add_zero]

theorem Winds.serves (h : Winds env env') {requests : List HttpRequest}
    (hserves : Serves requests env.data.log) : Serves requests env'.data.log := by
  obtain ⟨es, hes, hlog⟩ := h.log
  rw [hlog]
  exact hserves.refusals hes

/-- An error is written. -/
theorem winds_refused (env : ReaderEnv (HttpConn τ)) (D : HtsData) (code : ℤ) :
    Winds env (observeHttp (withHts env D) (.refused code)) :=
  ⟨rfl, ⟨_, Refusals.one code, rfl⟩, id⟩

/-- The connection is closed. -/
theorem connectionWriteClose_spec (env : ReaderEnv (HttpConn τ)) :
    Winds env (connectionWriteClose env) ∧ (connectionWriteClose env).status ≠ .working := by
  unfold connectionWriteClose
  split_ifs with hworking
  · exact ⟨Winds.of_eq rfl rfl (fun _ => (by decide : ConnStatus.writeClose ≠ .working)),
      (by decide : ConnStatus.writeClose ≠ .working)⟩
  · exact ⟨Winds.of_eq rfl rfl id, hworking⟩

/-- The next round starts, or the connection is closed. -/
def Goes (env : ReaderEnv (HttpConn τ)) (out : Option ℤ) : Prop :=
  out = none ∧ env.data.hts.parseState = .start ∨ out = some 0 ∧ env.status ≠ .working

/-- The end of a round. -/
theorem htsNext_spec (env : ReaderEnv (HttpConn τ)) (inp : Bytes) :
    ∃ env' out, htsNext env inp = (env', inp, out) ∧ Winds env env' ∧ Goes env' out ∧
      (env.data.pendingQueries = 0 → env.data.hts.queryFlags.error = true ∨
        env.data.hts.queryFlags.keepalive = false → env'.status ≠ .working) := by
  generalize hE : (if env.data.hts.queryFlags.error = true
    then observeHttp (withHts env env.data.hts.clearKeepalive) (.refused 400) else env) = E
  have hwinds : Winds env E := by
    rw [← hE]
    split_ifs
    · exact winds_refused env _ 400
    · exact Winds.of_eq rfl rfl id
  have hpending : E.data.pendingQueries = env.data.pendingQueries := by
    rw [← hE]
    split_ifs <;> rfl
  have hkeep : env.data.hts.queryFlags.error = true ∨ env.data.hts.queryFlags.keepalive = false →
      E.data.hts.queryFlags.keepalive = false := by
    rw [← hE]
    split_ifs with herror
    · exact fun _ => rfl
    · exact fun h => h.resolve_left herror
  have hnext : htsNext env inp
      = if E.data.pendingQueries = 0 ∧ E.data.hts.queryFlags.keepalive = false
        then (connectionWriteClose E, inp, some 0)
        else (withHts E (E.data.hts.goto .start), inp, none) := by
    rw [← hE]
    rfl
  rw [hnext]
  by_cases hclose : E.data.pendingQueries = 0 ∧ E.data.hts.queryFlags.keepalive = false
  · obtain ⟨hcloses, hclosed⟩ := connectionWriteClose_spec E
    rw [if_pos hclose]
    exact ⟨_, _, rfl, hwinds.trans hcloses, Or.inr ⟨rfl, hclosed⟩, fun _ _ => hclosed⟩
  · rw [if_neg hclose]
    refine ⟨_, _, rfl, hwinds.trans (Winds.of_eq rfl rfl id), Or.inl ⟨rfl, rfl⟩, ?_⟩
    intro hzero hor
    exact absurd ⟨hpending.trans hzero, hkeep hor⟩ hclose

end

/-! ## A request is taken -/

section

variable {τ : Type} (srv : HttpServer τ) {env : ReaderEnv (HttpConn τ)} {inp : Bytes}

/-- The header and the body of a request, as far as the header machine knows. -/
def HtsData.extent (D : HtsData) : ℕ := D.headerSize + D.dataSize.toNat

/-- The handler has answered: the request is dropped.  Bytes behind a body are left to the reader
to skip. -/
theorem htsReply_answered {res : ℤ} (hres : res = 0 ∨ res = httpSkipAllBytes)
    (hsize : env.data.hts.headerSize ≤ inp.length) :
    ∃ env' out, htsReply env inp res = some (env', inp.drop env.data.hts.extent, out) ∧
      Winds env env' ∧
      (env.data.hts.dataSize ≤ 0 ∨ inp.length ≤ env.data.hts.extent → Goes env' out) ∧
      (out = none → env'.data.hts.parseState = .start) := by
  have hpos : ¬ 0 < res := by
    unfold httpSkipAllBytes at hres
    omega
  have hor : res = httpSkipAllBytes ∨ res = 0 := hres.symm
  unfold htsReply HtsData.extent
  dsimp only
  rw [if_neg hpos, if_neg hsize.not_gt, if_pos hor, List.length_drop]
  by_cases hbody : 0 < env.data.hts.dataSize
  · rw [if_pos hbody, List.drop_drop]
    by_cases hmore : env.data.hts.dataSize < ((inp.length - env.data.hts.headerSize : ℕ) : ℤ)
    · rw [if_pos hmore, if_pos hmore]
      refine ⟨_, _, rfl, Winds.of_eq rfl rfl id, ?_, fun h => absurd h (by simp)⟩
      intro hend
      omega
    · rw [if_neg hmore, if_neg (lt_irrefl _)]
      obtain ⟨env', out, hnext, hwinds, hgoes, -⟩ := htsNext_spec env
        (inp.drop (env.data.hts.headerSize + env.data.hts.dataSize.toNat))
      have hdrop : inp.drop (env.data.hts.headerSize
            + ((inp.length - env.data.hts.headerSize : ℕ) : ℤ).toNat)
          = inp.drop (env.data.hts.headerSize + env.data.hts.dataSize.toNat) := by
        rw [List.drop_of_length_le (by omega), List.drop_of_length_le (by omega)]
      rw [hdrop, hnext]
      refine ⟨env', out, rfl, hwinds, fun _ => hgoes, ?_⟩
      rintro rfl
      exact hgoes.elim And.right (fun h => absurd h.1 (by simp))
  · have hzero : env.data.hts.dataSize.toNat = 0 := Int.toNat_eq_zero.mpr (not_lt.mp hbody)
    rw [if_neg hbody, hzero, Nat.add_zero]
    obtain ⟨env', out, hnext, hwinds, hgoes, -⟩ :=
      htsNext_spec env (inp.drop env.data.hts.headerSize)
    rw [hnext]
    refine ⟨env', out, rfl, hwinds, fun _ => hgoes, ?_⟩
    rintro rfl
    exact hgoes.elim And.right (fun h => absurd h.1 (by simp))

/-- The handler rejects the request: an error is written, and its header is dropped. -/
theorem htsReply_rejected {res : ℤ} (hneg : res < 0) (hres : res ≠ httpSkipAllBytes)
    (hsize : env.data.hts.headerSize ≤ inp.length) :
    ∃ env' out, htsReply env inp res = some (env', inp.drop env.data.hts.headerSize, out) ∧
      Winds env env' ∧ Goes env' out ∧
      (env.data.pendingQueries = 0 → res = -413 ∨ env.data.hts.queryFlags.keepalive = false →
        env'.status ≠ .working) := by
  have hor : ¬ (res = httpSkipAllBytes ∨ res = 0) := by omega
  generalize hE : observeHttp (withHts env
    (if res = -413 then env.data.hts.clearKeepalive else env.data.hts).clearError)
      (.refused (-res)) = E
  have hreply : htsReply env inp res
      = some (htsNext E (inp.drop env.data.hts.headerSize)) := by
    rw [← hE]
    exact (if_neg hneg.not_gt).trans ((if_neg hsize.not_gt).trans (if_neg hor))
  obtain ⟨env', out, hnext, hwinds, hgoes, hcloses⟩ :=
    htsNext_spec E (inp.drop env.data.hts.headerSize)
  have hrefused : Winds env E := by
    rw [← hE]
    exact winds_refused env _ _
  rw [hreply, hnext]
  refine ⟨env', out, rfl, hrefused.trans hwinds, hgoes, fun hpending hkeep => ?_⟩
  refine hcloses (by rw [← hE]; exact hpending) (Or.inr ?_)
  rw [← hE]
  show (if res = -413 then env.data.hts.clearKeepalive
    else env.data.hts).clearError.queryFlags.keepalive = false
  split_ifs with htoo
  · rfl
  · exact hkeep.resolve_left htoo

/-- The handler is called with the header and the body, as far as they are there. -/
theorem htsAnswer_executed (inp : Bytes)
    (hpost : ¬ (env.data.hts.queryType = .post ∧ env.data.hts.dataSize < 0))
    (hother : ¬ (env.data.hts.queryType ≠ .post ∧ 0 < env.data.hts.dataSize)) :
    ∃ env' raw answer, htsAnswer srv env inp = (env', answer.res) ∧
      answer = (srv.execute env raw).2 ∧
      raw = (if (if env.data.hts.queryType = .post
          then wrap32 (env.data.hts.headerSize + env.data.hts.dataSize)
          else env.data.hts.headerSize) < (inp.length : ℤ)
        then inp.take (if env.data.hts.queryType = .post
          then wrap32 (env.data.hts.headerSize + env.data.hts.dataSize)
          else env.data.hts.headerSize).toNat
        else inp) ∧
      env'.crypto = env.crypto ∧ env'.status = answer.status ∧ env'.data.hts = answer.hts ∧
      env'.data.pendingQueries = answer.pendingQueries ∧
      env'.data.log = env.data.log ++ [.executed env.data.hts inp raw answer] := by
  refine ⟨_, _, _, (if_neg hpost).trans (if_neg hother), rfl, rfl, rfl, rfl, rfl, rfl, rfl⟩

/-- A header with an error is dropped, and the connection is closed. -/
theorem htsDispatch_bad
    (hbad : env.data.hts.queryFlags.error = true ∨ maxHttpHeaderSize ≤ env.data.hts.headerSize)
    (hsize : env.data.hts.headerSize ≤ inp.length) :
    ∃ env' out, htsDispatch srv env inp = some (env', inp.drop env.data.hts.headerSize, out) ∧
      Winds env env' ∧ Goes env' out ∧ (env.data.pendingQueries = 0 → env'.status ≠ .working) := by
  generalize hD : (if maxHttpHeaderSize ≤ env.data.hts.headerSize then env.data.hts.setError
    else env.data.hts) = D
  have herror : D.queryFlags.error = true := by
    rw [← hD]
    split_ifs with hlong
    · rfl
    · exact hbad.resolve_right hlong
  have hsame : D.headerSize = env.data.hts.headerSize := by
    rw [← hD]
    split_ifs <;> rfl
  have hdispatch : htsDispatch srv env inp
      = some (htsNext (withHts env D) (inp.drop env.data.hts.headerSize)) := by
    unfold htsDispatch
    dsimp only
    rw [hD, if_pos herror, hsame, if_neg hsize.not_gt]
  obtain ⟨env', out, hnext, hwinds, hgoes, hcloses⟩ :=
    htsNext_spec (withHts env D) (inp.drop env.data.hts.headerSize)
  rw [hdispatch, hnext]
  exact ⟨env', out, rfl, (Winds.of_eq rfl rfl id : Winds env (withHts env D)).trans hwinds, hgoes,
    fun hpending => hcloses hpending (Or.inl herror)⟩

/-- A header without an error. -/
theorem htsDispatch_good (herror : env.data.hts.queryFlags.error = false)
    (hsize : env.data.hts.headerSize < maxHttpHeaderSize) :
    htsDispatch srv env inp
      = htsReply (htsAnswer srv env inp).1 inp (htsAnswer srv env inp).2 := by
  unfold htsDispatch
  dsimp only
  rw [if_neg hsize.not_ge, if_neg (by rw [herror]; exact Bool.false_ne_true)]

/-- A body that does not belong to the request: it is refused before the handler is called. -/
theorem htsDispatch_refused (herror : env.data.hts.queryFlags.error = false)
    (hlong : env.data.hts.headerSize < maxHttpHeaderSize)
    (hsize : env.data.hts.headerSize ≤ inp.length)
    (h : env.data.hts.queryType = .post ∧ env.data.hts.dataSize < 0 ∨
      env.data.hts.queryType ≠ .post ∧ 0 < env.data.hts.dataSize) :
    ∃ env' out, htsDispatch srv env inp = some (env', inp.drop env.data.hts.headerSize, out) ∧
      Winds env env' ∧ Goes env' out ∧
      (env.data.hts.queryType ≠ .post → env.data.pendingQueries = 0 → env'.status ≠ .working) := by
  rw [htsDispatch_good srv herror hlong]
  by_cases hpost : env.data.hts.queryType = .post ∧ env.data.hts.dataSize < 0
  · have hanswer : htsAnswer srv env inp = (env, -411) := if_pos hpost
    rw [hanswer]
    obtain ⟨env', out, hreply, hwinds, hgoes, -⟩ :=
      htsReply_rejected (by decide : (-411 : ℤ) < 0) (by unfold httpSkipAllBytes; decide) hsize
    exact ⟨env', out, hreply, hwinds, hgoes, fun hne => absurd hpost.1 hne⟩
  · have hanswer : htsAnswer srv env inp = (env, -413) :=
      (if_neg hpost).trans (if_pos (h.resolve_left hpost))
    rw [hanswer]
    obtain ⟨env', out, hreply, hwinds, hgoes, hcloses⟩ :=
      htsReply_rejected (by decide : (-413 : ℤ) < 0) (by unfold httpSkipAllBytes; decide) hsize
    exact ⟨env', out, hreply, hwinds, hgoes, fun _ hpending => hcloses hpending (Or.inl rfl)⟩

end

/-! ## No assertion fails -/

section

variable {τ : Type} {srv : HttpServer τ} {env : ReaderEnv (HttpConn τ)} {inp : Bytes}

theorem goto_start {D : HtsData} (h : D.parseState = .start) : D.goto .start = D := by
  unfold HtsData.goto
  rw [← h]

/-- The log only grows. -/
theorem Winds.log_le {env' : ReaderEnv (HttpConn τ)} (h : Winds env env') :
    env.data.log <+: env'.data.log := by
  obtain ⟨es, -, hlog⟩ := h.log
  exact ⟨es, hlog.symm⟩

theorem Goes.start {out : Option ℤ} (h : Goes env out) (hout : out = none) :
    env.data.hts.parseState = .start := by
  subst hout
  exact h.elim And.right (fun h => absurd h.1 (by simp))

/-- What a round of the loop does in any case: the next one has less to parse, or finds the
connection closed. -/
structure Advances (env : ReaderEnv (HttpConn τ)) (inp : Bytes) (env' : ReaderEnv (HttpConn τ))
    (inp' : Bytes) (out : Option ℤ) : Prop where
  crypto : env'.crypto = env.crypto
  log : env.data.log <+: env'.data.log
  again : out = none → env'.data.hts.parseState = .start ∧
    (inp'.length < inp.length ∨ env'.status ≠ .working)

/-- A header is parsed, and no assertion fails. -/
theorem htsDispatch_total (env : ReaderEnv (HttpConn τ)) (hsrv : srv.Handles)
    (hpending : env.data.pendingQueries = 0)
    (hne : inp ≠ []) (hsize : env.data.hts.headerSize ≤ inp.length)
    (hpos : env.data.hts.queryFlags.error = true ∨ 0 < env.data.hts.headerSize) :
    ∃ env' inp' out, htsDispatch srv env inp = some (env', inp', out) ∧
      Advances env inp env' inp' out := by
  have hlen : 0 < inp.length := List.length_pos_iff.mpr hne
  by_cases hbad : env.data.hts.queryFlags.error = true ∨
      maxHttpHeaderSize ≤ env.data.hts.headerSize
  · obtain ⟨env', out, hdispatch, hwinds, hgoes, hcloses⟩ := htsDispatch_bad srv hbad hsize
    exact ⟨env', _, out, hdispatch, hwinds.crypto, hwinds.log_le,
      fun hout => ⟨hgoes.start hout, Or.inr (hcloses hpending)⟩⟩
  push Not at hbad
  obtain ⟨herror, hlong⟩ := hbad
  rw [ne_eq, Bool.not_eq_true] at herror
  have hpos' : 0 < env.data.hts.headerSize :=
    hpos.resolve_left (by rw [herror]; exact Bool.false_ne_true)
  by_cases hrefused : env.data.hts.queryType = .post ∧ env.data.hts.dataSize < 0 ∨
      env.data.hts.queryType ≠ .post ∧ 0 < env.data.hts.dataSize
  · obtain ⟨env', out, hdispatch, hwinds, hgoes, -⟩ :=
      htsDispatch_refused srv herror hlong hsize hrefused
    refine ⟨env', _, out, hdispatch, hwinds.crypto, hwinds.log_le,
      fun hout => ⟨hgoes.start hout, Or.inl ?_⟩⟩
    rw [List.length_drop]
    omega
  push Not at hrefused
  obtain ⟨env₂, raw, answer, hanswer, hex, -, hcrypto, -, hhts, -, hlog⟩ :=
    htsAnswer_executed srv inp (fun h => absurd h.2 (hrefused.1 h.1).not_gt)
      (fun h => absurd h.2 (hrefused.2 h.1).not_gt)
  have hsame : env₂.data.hts.headerSize = env.data.hts.headerSize := by
    rw [hhts, hex, hsrv.size]
  have hsize₂ : env₂.data.hts.headerSize ≤ inp.length := hsame ▸ hsize
  have hprefix : env.data.log <+: env₂.data.log := ⟨_, hlog.symm⟩
  rw [htsDispatch_good srv herror hlong, hanswer]
  rcases lt_trichotomy answer.res 0 with hneg | hzero | hmore
  · by_cases hskip : answer.res = httpSkipAllBytes
    · obtain ⟨env', out, hreply, hwinds, -, hstart⟩ :=
        htsReply_answered (Or.inr hskip) hsize₂
      refine ⟨env', _, out, hreply, hwinds.crypto.trans hcrypto, hprefix.trans hwinds.log_le,
        fun hout => ⟨hstart hout, Or.inl ?_⟩⟩
      unfold HtsData.extent
      rw [List.length_drop, hsame]
      omega
    · obtain ⟨env', out, hreply, hwinds, hgoes, -⟩ :=
        htsReply_rejected hneg hskip hsize₂
      refine ⟨env', _, out, hreply, hwinds.crypto.trans hcrypto, hprefix.trans hwinds.log_le,
        fun hout => ⟨hgoes.start hout, Or.inl ?_⟩⟩
      rw [List.length_drop, hsame]
      omega
  · obtain ⟨env', out, hreply, hwinds, -, hstart⟩ :=
      htsReply_answered (Or.inl hzero) hsize₂
    refine ⟨env', _, out, hreply, hwinds.crypto.trans hcrypto, hprefix.trans hwinds.log_le,
      fun hout => ⟨hstart hout, Or.inl ?_⟩⟩
    unfold HtsData.extent
    rw [List.length_drop, hsame]
    omega
  · exact ⟨env₂, inp, some answer.res, if_pos hmore, hcrypto, hprefix, fun h => absurd h (by simp)⟩

/-- The header is parsed as far as it is there. -/
theorem htsRound_eq (hstart : env.data.hts.parseState = .start) {D : HtsData} {rest : Bytes}
    (hrun : parseBlocks (env.data.hts.goto .start) (srv.blocks env.data inp) = some (D, rest)) :
    htsRound srv env inp
      = if D.parseState ≠ .done
        then some (withHts (observeHttp env (.parsed inp)) D, inp, some needMoreBytes)
        else htsDispatch srv (withHts (observeHttp env (.parsed inp)) D) inp := by
  rw [goto_start hstart] at hrun
  unfold htsRound
  rw [hrun]
  rfl

theorem htsRound_total (hsrv : srv.Handles) (hpending : env.data.pendingQueries = 0)
    (hstart : env.data.hts.parseState = .start) (hne : inp ≠ []) :
    ∃ env' inp' out, htsRound srv env inp = some (env', inp', out) ∧
      Advances env inp env' inp' out := by
  obtain ⟨D, rest, hrun, hsize, -⟩ := parseBlocks_spec env.data.hts (srv.blocks env.data inp)
  rw [srv.blocks_flatten] at hsize
  have hlog : env.data.log <+: env.data.log ++ [.parsed inp] := List.prefix_append _ _
  rw [htsRound_eq hstart hrun]
  by_cases hdone : D.parseState = .done
  · rw [if_neg (not_not.mpr hdone)]
    obtain ⟨hle, hpos⟩ := hsize hdone
    obtain ⟨env', inp', out, hdispatch, hadv⟩ :=
      htsDispatch_total (withHts (observeHttp env (.parsed inp)) D) hsrv hpending hne hle hpos
    exact ⟨env', inp', out, hdispatch, hadv.crypto, hlog.trans hadv.log, hadv.again⟩
  · rw [if_pos hdone]
    exact ⟨_, inp, _, rfl, rfl, hlog, fun h => absurd h (by simp)⟩

theorem htsLoop_total (hsrv : srv.Handles) (n : ℕ) (hstart : env.data.hts.parseState = .start)
    (hn : inp.length < n ∨ 0 < n ∧ env.status ≠ .working) :
    ∃ env' inp' res, htsLoop srv n env inp = some (env', inp', res) ∧ env'.crypto = env.crypto ∧
      env.data.log <+: env'.data.log := by
  induction n generalizing env inp with
  | zero => exact absurd hn (by omega)
  | succ n ih =>
    rw [htsLoop]
    by_cases hstops : htsStops env inp
    · rw [if_pos hstops]
      exact ⟨env, inp, _, rfl, rfl, List.prefix_rfl⟩
    rw [if_neg hstops]
    unfold htsStops at hstops
    push Not at hstops
    obtain ⟨hopen, hpending, hne, -⟩ := hstops
    obtain ⟨env₁, inp₁, out, hround, hadv⟩ := htsRound_total hsrv hpending hstart hne
    rw [hround]
    cases out with
    | some res => exact ⟨env₁, inp₁, res, rfl, hadv.crypto, hadv.log⟩
    | none =>
      obtain ⟨hstart₁, hless⟩ := hadv.again rfl
      have hlen : 0 < inp.length := List.length_pos_iff.mpr hne
      have hfuel : inp.length < n + 1 := hn.resolve_right (fun h => h.2 hopen)
      have hfuel₁ : inp₁.length < n ∨ 0 < n ∧ env₁.status ≠ .working :=
        hless.imp (fun h => by omega) (fun h => ⟨by omega, h⟩)
      obtain ⟨env', inp', res, hloop, hcrypto, hlog⟩ := ih hstart₁ hfuel₁
      exact ⟨env', inp', res, hloop, hcrypto.trans hadv.crypto, hadv.log.trans hlog⟩

/-- **No assertion of `hts_parse_execute` fails**, on any input. -/
theorem htsParseExecute_total (hsrv : srv.Handles) (env : ReaderEnv (HttpConn τ)) (inp : Bytes) :
    ∃ env' inp' res, htsParseExecute srv env inp = some (env', inp', res) ∧
      env'.crypto = env.crypto ∧ env.data.log <+: env'.data.log := by
  have hstart : (withHts env (env.data.hts.goto .start)).data.hts.parseState = .start := rfl
  exact htsLoop_total hsrv _ hstart (Or.inl (Nat.lt_succ_self _))

end

/-! ## A round at the start of a request -/

namespace HttpRequest

variable {r : HttpRequest}

theorem text_length (r : HttpRequest) : r.text.length = r.head.length + r.body.length :=
  List.length_append

theorem head_ne_nil (r : HttpRequest) : r.head ≠ [] := by
  unfold head
  exact List.append_ne_nil_of_right_ne_nil _ (List.cons_ne_nil _ _)

theorem text_ne_nil (r : HttpRequest) : r.text ≠ [] :=
  List.append_ne_nil_of_left_ne_nil r.head_ne_nil _

theorem method_of_queryType (h : r.queryType = .post) : r.method = postText := by
  unfold queryType at h
  split_ifs at h with _ _ hpost
  exact hpost

/-- The length of the body is known, where there may be one. -/
theorem WellFormed.dataSize_toNat (hr : r.WellFormed) : r.dataSize.toNat = r.body.length := by
  unfold dataSize
  split_ifs with hnamed
  · exact Int.toNat_natCast _
  · have hbody : r.body = [] := by
      by_contra hne
      exact hnamed (hr.counted (Or.inr hne))
    rw [hbody]
    rfl

theorem WellFormed.dataSize_post (hr : r.WellFormed) (h : r.queryType = .post) :
    r.dataSize = r.body.length :=
  if_pos (hr.counted (Or.inl (method_of_queryType h)))

end HttpRequest

section

variable {τ : Type} {srv : HttpServer τ} {env : ReaderEnv (HttpConn τ)} {inp : Bytes}

/-- How a round ends that starts at the request `r`: the connection is closed; the request has not
come as a whole, and the round asks for no more than it; or the next round starts behind it. -/
inductive RoundEnd (r : HttpRequest) (env : ReaderEnv (HttpConn τ)) (inp : Bytes) :
    ReaderEnv (HttpConn τ) → Bytes → Option ℤ → Prop where
  | closed {env' : ReaderEnv (HttpConn τ)} {inp' : Bytes} {out : Option ℤ}
      (hclosed : env'.status ≠ .working) : RoundEnd r env inp env' inp' out
  | waits {env' : ReaderEnv (HttpConn τ)} {res : ℤ}
      (hcount : answeredCount env'.data.log = answeredCount env.data.log)
      (hpart : ¬ r.text <+: inp) (hres : res = needMoreBytes ∨ 0 < res ∧ res ≤ r.text.length) :
      RoundEnd r env inp env' inp (some res)
  | next {env' : ReaderEnv (HttpConn τ)} {inp' : Bytes}
      (hcount : answeredCount env'.data.log = answeredCount env.data.log + 1)
      (hinp : inp = r.text ++ inp') (hstart : env'.data.hts.parseState = .start) :
      RoundEnd r env inp env' inp' none

/-- The header machine knows the request `r`. -/
structure Knows (r : HttpRequest) (D : HtsData) : Prop where
  size : D.headerSize = r.head.length
  type : D.queryType = r.queryType
  data : D.dataSize = r.dataSize

/-- What the handler gets of the request. -/
theorem executed_suits {r : HttpRequest} {rest : List HttpRequest} {D : HtsData} (hD : Knows r D)
    {answer : HttpAnswer} (hhead : r.head <+: inp) (hinp : inp <+: r.text ++ requestStream rest)
    (hres : answer.res = 0 → (inp.take r.text.length).length = r.text.length) :
    (HttpLog.executed D inp (inp.take r.text.length) answer).Suits (r :: rest) := by
  have hraw : inp.take r.text.length <+: r.text := by
    have htake := hinp.take r.text.length
    rwa [List.take_left] at htake
  refine ⟨r, rest, rfl, hD.size, hD.type, hD.data, ?_, hraw,
    fun hzero => hraw.eq_of_length (hres hzero)⟩
  have hshort := hhead.take r.text.length
  rwa [List.take_of_length_le (by rw [r.text_length]; exact Nat.le_add_right _ _)] at hshort

/-- A request that has come as a whole starts the input. -/
theorem text_starts {r : HttpRequest} {tail : Bytes} (hinp : inp <+: r.text ++ tail)
    (h : r.text.length ≤ inp.length) : r.text <+: inp :=
  List.prefix_of_prefix_length_le (List.prefix_append _ _) hinp h

/-- The next round starts behind the request, or the connection is closed. -/
theorem Goes.roundEnd {r : HttpRequest} {env' : ReaderEnv (HttpConn τ)} {out : Option ℤ}
    (h : Goes env' out) (htext : r.text <+: inp)
    (hcount : answeredCount env'.data.log = answeredCount env.data.log + 1) :
    RoundEnd r env inp env' (inp.drop r.text.length) out := by
  rcases h with ⟨rfl, hstart⟩ | ⟨-, hclosed⟩
  · refine .next hcount ?_ hstart
    obtain ⟨tail, rfl⟩ := htext
    rw [List.drop_left]
  · exact .closed hclosed

/-- The answer of the handler to a request that suits it. -/
theorem reply_end {r : HttpRequest} (hr : r.WellFormed) {raw tail : Bytes} {answer : HttpAnswer}
    {D : HtsData} {env₂ : ReaderEnv (HttpConn τ)} (hD : Knows r D) (hhead : r.head <+: inp)
    (hinp : inp <+: r.text ++ tail) (hraw : raw = inp.take r.text.length)
    (hpost : r.body ≠ [] → r.method = postText)
    (hres : answer.res < 0 ∨ answer.res = r.text.length - raw.length)
    (hsize : answer.hts.headerSize = D.headerSize)
    (hdata : 0 < D.dataSize ∨ 0 < answer.hts.dataSize → answer.hts.dataSize = D.dataSize)
    (hstatus : env₂.status = answer.status) (hhts : env₂.data.hts = answer.hts)
    (hpending : env₂.data.pendingQueries = answer.pendingQueries)
    (hlog : env₂.data.log = env.data.log ++ [.executed D inp raw answer]) :
    ∃ env' inp' out, htsReply env₂ inp answer.res = some (env', inp', out) ∧ Winds env₂ env' ∧
      ((HttpLog.executed D inp raw answer).Framed → RoundEnd r env inp env' inp' out) := by
  have hlen := hhead.length_le
  have htext := r.text_length
  have hsize₂ : env₂.data.hts.headerSize = r.head.length := by
    rw [hhts, hsize, hD.size]
  have hle₂ : env₂.data.hts.headerSize ≤ inp.length := hsize₂.le.trans hlen
  have hbody₂ : env₂.data.hts.dataSize.toNat = r.body.length := by
    have hsame : answer.hts.dataSize.toNat = D.dataSize.toNat := by
      by_cases hpos : 0 < D.dataSize ∨ 0 < answer.hts.dataSize
      · rw [hdata hpos]
      · omega
    rw [hhts, hsame, hD.data, hr.dataSize_toNat]
  have hextent : env₂.data.hts.extent = r.text.length := by
    unfold HtsData.extent
    rw [hsize₂, hbody₂, htext]
  have hcount : ∀ {env'}, Winds env₂ env' → answer.res ≤ 0 →
      answeredCount env'.data.log = answeredCount env.data.log + 1 := by
    intro env' hwinds hle
    have hone : answeredCount [.executed D inp raw answer] = 1 := by
      simp [answeredCount, HttpLog.IsAnswer, hle]
    rw [hwinds.answeredCount, hlog, answeredCount_append, hone]
  rcases lt_or_ge 0 answer.res with hmore | hle
  · -- the body has not come as a whole
    have hmissing := hres.resolve_left hmore.not_gt
    rw [hraw, List.length_take] at hmissing
    refine ⟨env₂, inp, some answer.res, if_pos hmore, Winds.of_eq rfl rfl id,
      fun _ => .waits ?_ ?_ ?_⟩
    · have hnone : answeredCount [.executed D inp raw answer] = 0 := by
        simp [answeredCount, HttpLog.IsAnswer, hmore]
      rw [hlog, answeredCount_append, hnone, Nat.add_zero]
    · intro hwhole
      have := hwhole.length_le
      omega
    · exact Or.inr ⟨hmore, by omega⟩
  by_cases hdone : answer.res = 0 ∨ answer.res = httpSkipAllBytes
  · obtain ⟨env', out, hreply, hwinds, hgoes, -⟩ := htsReply_answered hdone hle₂
    rw [hextent] at hreply hgoes
    refine ⟨env', _, out, hreply, hwinds, fun hframed => ?_⟩
    by_cases hbody : r.body = []
    · have hnil : r.body.length = 0 := List.length_eq_zero_iff.mpr hbody
      exact (hgoes (Or.inl (by omega))).roundEnd (text_starts hinp (by omega)) (hcount hwinds hle)
    · rcases hframed r hr (hpost hbody) hbody hhead with hclosed | hexact
      · exact .closed (hwinds.closed (hstatus ▸ hclosed))
      · rw [if_pos hdone] at hexact
        exact (hgoes (Or.inr hexact.le)).roundEnd (text_starts hinp hexact.ge) (hcount hwinds hle)
  · have hneg : answer.res < 0 := lt_of_le_of_ne hle (fun h => hdone (Or.inl h))
    obtain ⟨env', out, hreply, hwinds, hgoes, hcloses⟩ :=
      htsReply_rejected hneg (fun h => hdone (Or.inr h)) hle₂
    refine ⟨env', _, out, hreply, hwinds, fun hframed => ?_⟩
    by_cases hbody : r.body = []
    · have hnil : r.body.length = 0 := List.length_eq_zero_iff.mpr hbody
      have hsame : env₂.data.hts.headerSize = r.text.length := by omega
      rw [hsame]
      exact hgoes.roundEnd (text_starts hinp (by omega)) (hcount hwinds hle)
    · rcases hframed r hr (hpost hbody) hbody hhead with hclosed | hcl
      · exact .closed (hwinds.closed (hstatus ▸ hclosed))
      · rw [if_neg hdone] at hcl
        obtain ⟨hzero, hkeep⟩ := hcl hneg
        exact .closed (hcloses (hpending.trans hzero) (hhts ▸ hkeep))

end

section

variable {τ : Type} {srv : HttpServer τ} {env env' : ReaderEnv (HttpConn τ)} {inp inp' : Bytes}
  {out : Option ℤ} {requests rest : List HttpRequest} {r : HttpRequest}

/-- What is handed to the handler. -/
theorem raw_eq (hr : r.WellFormed) (hlong : r.text.length < 2 ^ 31) {D : HtsData} (hD : Knows r D)
    (hother : D.queryType ≠ .post → D.dataSize ≤ 0) :
    (if D.queryType = .post then wrap32 (D.headerSize + D.dataSize) else D.headerSize)
      = (r.text.length : ℤ) := by
  have htext := r.text_length
  have hbody := hr.dataSize_toNat
  rw [← hD.data] at hbody
  split_ifs with hpost
  · have hdata : D.dataSize = r.body.length := by
      rw [hD.data]
      exact hr.dataSize_post (hD.type ▸ hpost)
    rw [hdata, hD.size, wrap32_of_isInt32 (by constructor <;> omega), htext]
    push_cast
    rfl
  · have := hother hpost
    rw [hD.size]
    omega

/-- The dispatch of a header that belongs to the request `r`. -/
theorem htsDispatch_framed (hsrv : srv.Handles) (hr : r.WellFormed)
    (hlong : r.text.length < 2 ^ 31)
    (hdispatch : htsDispatch srv env inp = some (env', inp', out))
    (hdrop : requests.drop (answeredCount env.data.log) = r :: rest)
    (hserves : Serves requests env.data.log) (hpending : env.data.pendingQueries = 0)
    (hhead : r.head <+: inp) (hinp : inp <+: r.text ++ requestStream rest)
    (hsize : env.data.hts.headerSize ≤ inp.length)
    (hD : env.data.hts.queryFlags.error = true ∨ Knows r env.data.hts)
    (hframed : ∀ e ∈ env'.data.log, e.Framed) :
    Serves requests env'.data.log ∧ RoundEnd r env inp env' inp' out := by
  by_cases hbad : env.data.hts.queryFlags.error = true ∨
      maxHttpHeaderSize ≤ env.data.hts.headerSize
  · obtain ⟨env₁, out₁, hbad', hwinds, -, hcloses⟩ := htsDispatch_bad srv hbad hsize
    obtain ⟨rfl, rfl, rfl⟩ : env₁ = env' ∧ _ = inp' ∧ out₁ = out := by
      simpa using hbad'.symm.trans hdispatch
    exact ⟨hwinds.serves hserves, .closed (hcloses hpending)⟩
  push Not at hbad
  obtain ⟨herror, hshort⟩ := hbad
  have hknows := hD.resolve_left herror
  rw [ne_eq, Bool.not_eq_true] at herror
  by_cases hrefused : env.data.hts.queryType = .post ∧ env.data.hts.dataSize < 0 ∨
      env.data.hts.queryType ≠ .post ∧ 0 < env.data.hts.dataSize
  · obtain ⟨env₁, out₁, hrefused', hwinds, -, hcloses⟩ :=
      htsDispatch_refused srv herror hshort hsize hrefused
    obtain ⟨rfl, rfl, rfl⟩ : env₁ = env' ∧ _ = inp' ∧ out₁ = out := by
      simpa using hrefused'.symm.trans hdispatch
    refine ⟨hwinds.serves hserves, .closed (hcloses ?_ hpending)⟩
    intro hpost
    -- a request with `POST` has its length
    have hdata := hr.dataSize_post (hknows.type ▸ hpost)
    rw [← hknows.data] at hdata
    rcases hrefused with ⟨-, hneg⟩ | ⟨hne, -⟩
    · omega
    · exact hne hpost
  push Not at hrefused
  obtain ⟨env₂, raw, answer, hanswer, hex, hraw, -, hstatus, hhts, hpending₂, hlog⟩ :=
    htsAnswer_executed srv inp (fun h => absurd h.2 (hrefused.1 h.1).not_gt)
      (fun h => absurd h.2 (hrefused.2 h.1).not_gt)
  rw [raw_eq hr hlong hknows hrefused.2, Int.toNat_natCast] at hraw
  have htake : raw = inp.take r.text.length := by
    rw [hraw]
    split_ifs with hmore
    · rfl
    · exact (List.take_of_length_le (by omega)).symm
  have hwhole : (env.data.hts.headerSize : ℤ) + max env.data.hts.dataSize 0 = r.text.length := by
    rw [← Int.toNat_eq_max, hknows.size, hknows.data, hr.dataSize_toNat, r.text_length]
    push_cast
    rfl
  have hres : answer.res < 0 ∨ answer.res = r.text.length - raw.length := by
    rw [hex, ← hwhole]
    apply hsrv.res env raw
    rw [hwhole, htake, List.length_take]
    omega
  have hpost : r.body ≠ [] → r.method = postText := by
    intro hbody
    have hpos : 0 < r.body.length := List.length_pos_iff.mpr hbody
    rw [← hr.dataSize_toNat, ← hknows.data] at hpos
    apply HttpRequest.method_of_queryType
    rw [← hknows.type]
    by_contra hne
    have := hrefused.2 hne
    omega
  rw [htsDispatch_good srv herror hshort, hanswer] at hdispatch
  have hsuits : (HttpLog.executed env.data.hts inp raw answer).Suits (r :: rest) := by
    rw [htake]
    refine executed_suits hknows hhead hinp (fun hzero => ?_)
    rw [← htake]
    omega
  obtain ⟨env₁, inp₁, out₁, hreply, hwinds, hend⟩ :=
    reply_end hr hknows hhead hinp htake hpost hres (by rw [hex, hsrv.size])
      (by rw [hex]; exact hsrv.data env raw) hstatus hhts hpending₂ hlog
  obtain ⟨rfl, rfl, rfl⟩ : env₁ = env' ∧ inp₁ = inp' ∧ out₁ = out := by
    simpa using hreply.symm.trans hdispatch
  refine ⟨hwinds.serves ?_, hend (hframed _ (hwinds.log_le.subset ?_))⟩
  · rw [hlog]
    exact hserves.snoc (by rwa [hdrop])
  · rw [hlog]
    exact List.mem_append_right _ List.mem_cons_self

end

section

variable {τ : Type} {srv : HttpServer τ} {env env' : ReaderEnv (HttpConn τ)} {inp inp' : Bytes}
  {out : Option ℤ} {requests rest : List HttpRequest} {r : HttpRequest}

theorem RoundEnd.of_count {env₀ : ReaderEnv (HttpConn τ)}
    (h : RoundEnd r env₀ inp env' inp' out)
    (hcount : answeredCount env₀.data.log = answeredCount env.data.log) :
    RoundEnd r env inp env' inp' out := by
  cases h with
  | closed hclosed => exact .closed hclosed
  | waits hsame hpart hres => exact .waits (hsame.trans hcount) hpart hres
  | next hone hinp hstart => exact .next (hcount ▸ hone) hinp hstart

/-- A round that starts at the request `r`. -/
theorem htsRound_framed (hsrv : srv.Handles) (hr : r.WellFormed)
    (hlong : r.text.length < 2 ^ 31)
    (hdrop : requests.drop (answeredCount env.data.log) = r :: rest)
    (hserves : Serves requests env.data.log) (hpending : env.data.pendingQueries = 0)
    (hstart : env.data.hts.parseState = .start)
    (hinp : inp <+: r.text ++ requestStream rest)
    (hround : htsRound srv env inp = some (env', inp', out))
    (hframed : ∀ e ∈ env'.data.log, e.Framed) :
    Serves requests env'.data.log ∧ RoundEnd r env inp env' inp' out := by
  have hcount : answeredCount (env.data.log ++ [.parsed inp]) = answeredCount env.data.log := by
    rw [answeredCount_append]
    rfl
  have hserves₁ : Serves requests (env.data.log ++ [.parsed inp]) := by
    apply hserves.snoc
    rw [hdrop]
    exact hinp
  by_cases hhead : r.head <+: inp
  · obtain ⟨tail, htail⟩ := hhead
    have hblocks : (srv.blocks env.data inp).flatten = r.head ++ tail := by
      rw [srv.blocks_flatten, htail]
    obtain ⟨D, left, hrun, hdone, hsize, hD⟩ := parseBlocks_head hr env.data.hts hblocks
    rw [srv.blocks_flatten] at hsize
    rw [htsRound_eq hstart hrun, if_neg (not_not.mpr hdone)] at hround
    obtain ⟨hserves', hend⟩ := htsDispatch_framed hsrv hr hlong hround (hcount.symm ▸ hdrop) hserves₁
      hpending ⟨tail, htail⟩ hinp hsize (hD.imp_right (fun h => ⟨h.2.1, h.2.2.1, h.2.2.2⟩)) hframed
    exact ⟨hserves', hend.of_count hcount⟩
  · have hstream : r.head <+: r.text ++ requestStream rest :=
      (List.prefix_append _ _).trans (List.prefix_append _ _)
    obtain ⟨b, hb⟩ := (List.prefix_or_prefix_of_prefix hinp hstream).resolve_right hhead
    have hne : b ≠ [] := by
      rintro rfl
      rw [List.append_nil] at hb
      exact hhead (hb ▸ List.prefix_rfl)
    obtain ⟨D, left, hrun, hpart⟩ := parseBlocks_part hr env.data.hts hne
      (by rw [srv.blocks_flatten]; exact hb : (srv.blocks env.data inp).flatten ++ b = r.head)
    rw [srv.blocks_flatten] at hpart
    rw [htsRound_eq hstart hrun] at hround
    by_cases hdone : D.parseState = .done
    · -- an error was found before
      rw [if_neg (not_not.mpr hdone)] at hround
      obtain ⟨hsize, herror⟩ := hpart hdone
      have herror₁ : (withHts (observeHttp env (.parsed inp)) D).data.hts.queryFlags.error = true :=
        herror
      obtain ⟨env₁, out₁, hbad, hwinds, -, hcloses⟩ :=
        htsDispatch_bad srv (Or.inl herror₁) hsize
      obtain ⟨rfl, rfl, rfl⟩ : env₁ = env' ∧ _ = inp' ∧ out₁ = out := by
        simpa using hbad.symm.trans hround
      exact ⟨hwinds.serves hserves₁, .closed (hcloses hpending)⟩
    · rw [if_pos hdone] at hround
      obtain ⟨rfl, rfl, rfl⟩ : withHts (observeHttp env (.parsed inp)) D = env' ∧ inp = inp' ∧
          some needMoreBytes = out := by
        simpa using hround
      refine ⟨hserves₁, .waits hcount ?_ (Or.inl rfl)⟩
      exact fun hwhole => hhead ((List.prefix_append _ _).trans hwhole)

end

/-! ## The loop goes from request to request -/

theorem requestStream_append (rs rs' : List HttpRequest) :
    requestStream (rs ++ rs') = requestStream rs ++ requestStream rs' := List.flatMap_append

section

variable {τ : Type} {srv : HttpServer τ} {env env' : ReaderEnv (HttpConn τ)} {inp inp' : Bytes}
  {requests : List HttpRequest} {got : Bytes} {log : List HttpLog}

/-- The input starts with the next request. -/
theorem Aligned.next (h : Aligned requests got log inp) (hgot : got <+: requestStream requests)
    (hne : inp ≠ []) :
    ∃ r rest, requests.drop (answeredCount log) = r :: rest ∧ r ∈ requests ∧
      inp <+: r.text ++ requestStream rest := by
  have hsplit : requestStream requests = requestStream (requests.take (answeredCount log))
      ++ requestStream (requests.drop (answeredCount log)) := by
    rw [← requestStream_append, List.take_append_drop]
  rw [hsplit, h.2, List.prefix_append_right_inj] at hgot
  cases hdrop : requests.drop (answeredCount log) with
  | nil =>
    rw [hdrop] at hgot
    exact absurd (List.prefix_nil.mp hgot) hne
  | cons r rest =>
    rw [hdrop] at hgot
    refine ⟨r, rest, rfl, List.mem_of_mem_drop (i := answeredCount log) ?_, hgot⟩
    rw [hdrop]
    exact List.mem_cons_self

/-- The next request is answered. -/
theorem Aligned.answer (h : Aligned requests got log inp) {log' : List HttpLog} {r : HttpRequest}
    {rest : List HttpRequest} (hdrop : requests.drop (answeredCount log) = r :: rest)
    (hcount : answeredCount log' = answeredCount log + 1) (hinp : inp = r.text ++ inp') :
    Aligned requests got log' inp' := by
  have hget : requests[answeredCount log]? = some r := by
    rw [← List.head?_drop, hdrop]
    rfl
  obtain ⟨hlt, -⟩ := List.getElem?_eq_some_iff.mp hget
  refine ⟨hcount ▸ hlt, ?_⟩
  rw [hcount, List.take_add_one, hget, requestStream_append, h.2, hinp, List.append_assoc]
  congr 1
  show r.text ++ inp' = [r].flatMap HttpRequest.text ++ inp'
  rw [List.flatMap_singleton]

/-- Nothing has come. -/
theorem allTaken_nil (requests : List HttpRequest) (env : ReaderEnv (HttpConn τ)) :
    AllTaken requests env [] := by
  intro _ r rest _ hwhole
  exact r.text_ne_nil (List.prefix_nil.mp hwhole)

theorem allTaken_of_not_ready (h : ¬ HttpReady env) : AllTaken requests env inp :=
  fun hready => absurd hready h

/-- What the loop asks for: anything, or no more than the next request. -/
def Asks (requests : List HttpRequest) (log : List HttpLog) (res : ℤ) : Prop :=
  res = needMoreBytes ∨ 0 < res ∧
    ∃ r rest, requests.drop (answeredCount log) = r :: rest ∧ res ≤ r.text.length

/-- **The loop goes from request to request.** -/
theorem htsLoop_framed (hsrv : srv.Handles)
    (hall : ∀ r ∈ requests, r.WellFormed ∧ r.text.length < 2 ^ 31)
    (hgot : got <+: requestStream requests) {res : ℤ} (n : ℕ)
    (hn : inp.length < n ∨ 0 < n ∧ env.status ≠ .working)
    (hstart : env.data.hts.parseState = .start) (hserves : Serves requests env.data.log)
    (haligned : env.status = .working → Aligned requests got env.data.log inp)
    (hloop : htsLoop srv n env inp = some (env', inp', res))
    (hframed : ∀ e ∈ env'.data.log, e.Framed) :
    Serves requests env'.data.log ∧
      (env'.status = .working →
        Aligned requests got env'.data.log inp' ∧ Asks requests env'.data.log res) ∧
      AllTaken requests env' inp' := by
  induction n generalizing env inp with
  | zero => exact absurd hn (by omega)
  | succ n ih =>
    rw [htsLoop] at hloop
    by_cases hstops : htsStops env inp
    · rw [if_pos hstops] at hloop
      obtain ⟨rfl, rfl, rfl⟩ : env = env' ∧ inp = inp' ∧ needMoreBytes = res := by
        simpa using hloop
      refine ⟨hserves, fun hopen => ⟨haligned hopen, Or.inl rfl⟩, ?_⟩
      rcases hstops with hclosed | hpending | rfl | hflag | hflag
      · exact allTaken_of_not_ready (fun h => hclosed h.1)
      · exact allTaken_of_not_ready (fun h => hpending h.2.1)
      · exact allTaken_nil requests env
      · exact allTaken_of_not_ready (fun h => by rw [h.2.2] at hflag; exact Bool.false_ne_true hflag)
      · exact allTaken_of_not_ready (fun h => by rw [h.2.2] at hflag; exact Bool.false_ne_true hflag)
    rw [if_neg hstops] at hloop
    unfold htsStops at hstops
    push Not at hstops
    obtain ⟨hopen, hpending, hne, -⟩ := hstops
    have hfuel : inp.length < n + 1 := hn.resolve_right (fun h => h.2 hopen)
    have hlen : 0 < inp.length := List.length_pos_iff.mpr hne
    obtain ⟨r, rest, hdrop, hr, hinp⟩ := (haligned hopen).next hgot hne
    obtain ⟨hwf, hlong⟩ := hall r hr
    obtain ⟨env₁, inp₁, out, hround, hadv⟩ := htsRound_total hsrv hpending hstart hne
    rw [hround] at hloop
    cases out with
    | some res₁ =>
      obtain ⟨rfl, rfl, rfl⟩ : env₁ = env' ∧ inp₁ = inp' ∧ res₁ = res := by
        simpa using hloop
      obtain ⟨hserves₁, hend⟩ := htsRound_framed hsrv hwf hlong hdrop hserves hpending hstart hinp
        hround hframed
      refine ⟨hserves₁, ?_⟩
      cases hend with
      | closed hclosed =>
        exact ⟨fun h => absurd h hclosed, allTaken_of_not_ready (fun h => hclosed h.1)⟩
      | waits hcount hpart hres =>
        have hdrop₁ : requests.drop (answeredCount env₁.data.log) = r :: rest := hcount ▸ hdrop
        refine ⟨fun _ => ⟨?_, hres.imp_right (fun h => ⟨h.1, r, rest, hdrop₁, h.2⟩)⟩, ?_⟩
        · unfold Aligned
          rw [hcount]
          exact haligned hopen
        · intro _ r' rest' hdrop'
          rw [hdrop₁] at hdrop'
          obtain ⟨rfl, -⟩ := List.cons.inj hdrop'
          exact hpart
    | none =>
      obtain ⟨hstart₁, hless⟩ := hadv.again rfl
      have hfuel₁ : inp₁.length < n ∨ 0 < n ∧ env₁.status ≠ .working :=
        hless.imp (fun h => by omega) (fun h => ⟨by omega, h⟩)
      obtain ⟨env₂, inp₂, res₂, hloop₂, -, hlog⟩ := htsLoop_total hsrv n hstart₁ hfuel₁
      have hsame : env₂ = env' := congrArg Prod.fst (Option.some.inj (hloop₂.symm.trans hloop))
      rw [hsame] at hlog
      obtain ⟨hserves₁, hend⟩ := htsRound_framed hsrv hwf hlong hdrop hserves hpending hstart hinp
        hround (fun e he => hframed e (hlog.subset he))
      refine ih hfuel₁ hstart₁ hserves₁ (fun hopen₁ => ?_) hloop
      cases hend with
      | closed hclosed => exact absurd hopen₁ hclosed
      | next hcount hinp₁ _ => exact (haligned hopen).answer hdrop hcount hinp₁

end

/-! ## The reader keeps the framing -/

/-- What holds of a connection that `got` has come on. -/
structure ReaderState.Frames {τ : Type} (s : ReaderState (HttpConn τ)) (requests : List HttpRequest)
    (got : Bytes) : Prop where
  crypto : s.conn.env.crypto = false
  inU : s.conn.inU = []
  idle : s.parsing = true → s.conn.skipBytes = 0
  serves : Serves requests s.conn.env.data.log
  aligned : s.conn.env.status = .working → Aligned requests got s.conn.env.data.log s.conn.inp
  waiting : s.conn.env.status = .working → 0 ≤ s.conn.skipBytes ∧
    (0 < s.conn.skipBytes → ∃ r rest,
      requests.drop (answeredCount s.conn.env.data.log) = r :: rest ∧
      s.conn.skipBytes ≤ r.text.length)

namespace ReaderConn

variable {σ : Type} {c c' : ReaderConn σ}

/-- Where bytes are waited for, none are dropped. -/
theorem skip_spec {goesOn : Bool} {k : ℕ} (h : c.skip = some (c', goesOn, k)) :
    c'.env = c.env ∧ c'.inU = c.inU ∧ (goesOn = true → c'.skipBytes = 0) ∧
      (0 ≤ c.skipBytes → c'.inp = c.inp ∧ (c'.skipBytes = 0 ∧ goesOn = true ∨
        c'.skipBytes = c.skipBytes ∧ goesOn = false ∧ (c.inp.length : ℤ) < c.skipBytes)) := by
  unfold skip at h
  dsimp only at h
  by_cases hneg : c.skipBytes < 0
  · rw [if_pos hneg] at h
    generalize (if wrap32 (-c.skipBytes) < (c.inp.length : ℤ) then wrap32 (-c.skipBytes)
      else (c.inp.length : ℤ)) = r₁ at h
    split_ifs at h
    obtain ⟨rfl, rfl, rfl⟩ : _ ∧ _ ∧ _ := by simpa using h
    exact ⟨rfl, rfl, of_decide_eq_true, fun hnn => absurd hneg hnn.not_gt⟩
  rw [if_neg hneg] at h
  split_ifs at h with hpos hle
  · obtain ⟨rfl, rfl, rfl⟩ : _ ∧ _ ∧ _ := by simpa using h
    exact ⟨rfl, rfl, fun _ => rfl, fun _ => ⟨rfl, Or.inl ⟨rfl, rfl⟩⟩⟩
  · obtain ⟨rfl, rfl, rfl⟩ : _ ∧ _ ∧ _ := by simpa using h
    exact ⟨rfl, rfl, fun hgo => absurd hgo Bool.false_ne_true,
      fun _ => ⟨rfl, Or.inr ⟨rfl, rfl, not_le.mp hle⟩⟩⟩
  · obtain ⟨rfl, rfl, rfl⟩ : _ ∧ _ ∧ _ := by simpa using h
    have hzero : c.skipBytes = 0 := le_antisymm (not_lt.mp hpos) (not_lt.mp hneg)
    exact ⟨rfl, rfl, fun _ => hzero, fun _ => ⟨rfl, Or.inl ⟨hzero, rfl⟩⟩⟩

end ReaderConn

namespace ReaderState

variable {τ : Type} {srv : HttpServer τ} {s s' : ReaderState (HttpConn τ)}
  {requests : List HttpRequest} {got : Bytes}

theorem Frames.start {env : ReaderEnv (HttpConn τ)} (hcrypto : env.crypto = false)
    (hlog : env.data.log = []) (requests : List HttpRequest) :
    (ReaderState.start env).Frames requests [] where
  crypto := hcrypto
  inU := rfl
  idle := fun _ => rfl
  serves := by
    show Serves requests env.data.log
    rw [hlog]
    exact Serves.nil requests
  aligned := by
    intro _
    show Aligned requests [] env.data.log []
    rw [hlog]
    exact ⟨Nat.zero_le _, rfl⟩
  waiting := fun _ => ⟨le_rfl, fun h => absurd h (lt_irrefl 0)⟩

/-- Bytes come from the client. -/
theorem Frames.read (h : s.Frames requests got) {pieces : Bytes}
    (hread : s.read (httpFunctions srv) pieces = some s') :
    s'.Frames requests (got ++ pieces) ∧
      (s'.parsing = false → AllTaken requests s'.conn.env s'.conn.inp) := by
  have hplain : s.conn.env.crypto ≠ true := by
    rw [h.crypto]
    exact Bool.false_ne_true
  unfold ReaderState.read ReaderConn.take at hread
  rw [if_neg hplain, some_bind] at hread
  dsimp only [httpFunctions] at hread
  have haligned : s.conn.env.status = .working →
      Aligned requests (got ++ pieces) s.conn.env.data.log (s.conn.inp ++ pieces) := by
    intro hopen
    obtain ⟨hle, heq⟩ := h.aligned hopen
    exact ⟨hle, by rw [heq, List.append_assoc]⟩
  split_ifs at hread with hflags
  · obtain rfl := Option.some.inj hread
    refine ⟨⟨h.crypto, h.inU, fun hgo => absurd hgo Bool.false_ne_true, h.serves, haligned,
      h.waiting⟩, fun _ => allTaken_of_not_ready (fun hready => ?_)⟩
    obtain ⟨-, -, hclear⟩ := hready
    dsimp only at hclear
    rw [hclear] at hflags
    simp at hflags
  · obtain ⟨⟨c, goesOn, k⟩, hskip, heq⟩ := Option.bind_eq_some_iff.mp hread
    obtain rfl := Option.some.inj heq
    obtain ⟨henv, hinU, hidle, hwait⟩ := ReaderConn.skip_spec hskip
    dsimp only at henv hinU hwait ⊢
    refine ⟨⟨by rw [henv, h.crypto], by rw [hinU, h.inU], hidle, by rw [henv]; exact h.serves,
      ?_, ?_⟩, ?_⟩
    · rw [henv]
      intro hopen
      obtain ⟨hinp, -⟩ := hwait (h.waiting hopen).1
      rw [hinp]
      exact haligned hopen
    · rw [henv]
      intro hopen
      obtain ⟨hnn, hnext⟩ := h.waiting hopen
      rcases (hwait hnn).2 with ⟨hzero, -⟩ | ⟨hsame, -⟩
      · rw [hzero]
        exact ⟨le_rfl, fun hpos => absurd hpos (lt_irrefl 0)⟩
      · rw [hsame]
        exact ⟨hnn, hnext⟩
    · intro hstop hready r rest hdrop hwhole
      rw [henv] at hready hdrop
      obtain ⟨hnn, hnext⟩ := h.waiting hready.1
      obtain ⟨hinp, hor⟩ := hwait hnn
      rcases hor with ⟨-, hgo⟩ | ⟨-, -, hshort⟩
      · rw [hgo] at hstop
        exact Bool.false_ne_true hstop.symm
      · obtain ⟨r', rest', hdrop', hle⟩ := hnext (by omega)
        rw [hdrop] at hdrop'
        obtain ⟨rfl, -⟩ := List.cons.inj hdrop'
        rw [hinp] at hwhole
        have := hwhole.length_le
        omega

/-- A call of `hts_parse_execute`. -/
theorem parseExecute_spec (hsrv : srv.Handles) (env : ReaderEnv (HttpConn τ)) (inU inp : Bytes) :
    ∃ env' inp' res, (httpFunctions srv).parseExecute env inU inp = (env', inU, inp', res) ∧
      env'.crypto = env.crypto ∧ env.data.log <+: env'.data.log ∧
      htsParseExecute srv env inp = some (env', inp', res) := by
  obtain ⟨env', inp', res, hparse, hcrypto, hlog⟩ := htsParseExecute_total hsrv env inp
  refine ⟨env', inp', res, ?_, hcrypto, hlog, hparse⟩
  unfold httpFunctions
  dsimp only
  rw [hparse]

/-- A round of the loop of the reader. -/
theorem Frames.pass (h : s.Frames requests got) (hsrv : srv.Handles)
    (hall : ∀ r ∈ requests, r.WellFormed ∧ r.text.length < 2 ^ 31)
    (hgot : got <+: requestStream requests) (hparsing : s.parsing = true)
    (hframed : ∀ e ∈ (s.pass (httpFunctions srv)).conn.env.data.log, e.Framed) :
    (s.pass (httpFunctions srv)).Frames requests got ∧
      ((s.pass (httpFunctions srv)).parsing = false → AllTaken requests
        (s.pass (httpFunctions srv)).conn.env (s.pass (httpFunctions srv)).conn.inp) := by
  have hzero := h.idle hparsing
  unfold ReaderState.pass at hframed ⊢
  by_cases hloops : s.conn.Loops
  swap
  · rw [if_neg hloops]
    refine ⟨⟨h.crypto, h.inU, fun hgo => absurd hgo Bool.false_ne_true, h.serves, h.aligned,
      h.waiting⟩, fun _ hready => ?_⟩
    have hnil : s.conn.inp = [] := by
      obtain ⟨hopen, -, hflags⟩ := hready
      dsimp only at hopen hflags
      by_contra hne
      refine hloops ⟨hzero, ?_, ?_, ?_, ?_, ?_, hne⟩
      · rw [hflags]
      · rw [hflags]
      · rw [hflags]
      · rw [hflags]
      · rw [hopen]
        decide
    dsimp only at hready ⊢
    rw [hnil]
    exact allTaken_nil requests s.conn.env hready
  obtain ⟨env, inp, res, hexec, hcrypto, hlog, hparse⟩ :=
    parseExecute_spec hsrv s.conn.env s.conn.inU s.conn.inp
  rw [if_pos hloops, hexec] at hframed ⊢
  dsimp only at hframed ⊢
  have hframed' : ∀ e ∈ env.data.log, e.Framed := by
    revert hframed
    split_ifs <;> exact id
  have hstart : (withHts s.conn.env (s.conn.env.data.hts.goto .start)).data.hts.parseState = .start :=
    rfl
  obtain ⟨hserves, hopen, htaken⟩ := htsLoop_framed hsrv hall hgot _ (Or.inl (Nat.lt_succ_self _))
    hstart h.serves h.aligned hparse hframed'
  have hplain : env.crypto ≠ true := by
    rw [hcrypto, h.crypto]
    exact Bool.false_ne_true
  have hcrypto' : env.crypto = false := hcrypto.trans h.crypto
  by_cases hres : res = 0
  · -- the connection is closed
    rw [if_pos hres]
    refine ⟨⟨hcrypto', h.inU, fun _ => hzero, hserves, fun hst => (hopen hst).1, fun hst => ?_⟩,
      fun hgo => absurd hgo.symm Bool.false_ne_true⟩
    rw [hzero]
    exact ⟨le_rfl, fun hpos => absurd hpos (lt_irrefl 0)⟩
  rw [if_neg hres]
  by_cases hmore : res = needMoreBytes
  · rw [if_pos hmore]
    refine ⟨⟨hcrypto', h.inU, fun _ => hzero, hserves, fun hst => (hopen hst).1, fun hst => ?_⟩,
      fun _ => htaken⟩
    rw [hzero]
    exact ⟨le_rfl, fun hpos => absurd hpos (lt_irrefl 0)⟩
  rw [if_neg hmore, if_neg hplain, h.inU]
  refine ⟨⟨hcrypto', rfl, fun hgo => absurd hgo Bool.false_ne_true, hserves,
    fun hst => (hopen hst).1, fun hst => ?_⟩, fun _ => htaken⟩
  obtain ⟨hpos, r, rest, hdrop, hle⟩ := (hopen hst).2.resolve_left hmore
  have hlong := (hall r (List.mem_of_mem_drop (i := answeredCount env.data.log)
    (by rw [hdrop]; exact List.mem_cons_self))).2
  have hskip : wrap32 (if res < 0 then res - (([] : Bytes).length : ℤ)
      else res + (([] : Bytes).length : ℤ)) = res := by
    rw [if_neg hpos.not_gt, List.length_nil, Nat.cast_zero, add_zero,
      wrap32_of_isInt32 (by constructor <;> omega)]
  dsimp only
  rw [hskip]
  exact ⟨hpos.le, fun _ => ⟨r, rest, hdrop, hle⟩⟩

/-- What is observed stays observed. -/
theorem http_log (hsrv : srv.Handles) {e : ReaderEvent (HttpConn τ)} (hothers : HttpOthers s e)
    (hstep : s.step (httpFunctions srv) e = some s') :
    s.conn.env.data.log <+: s'.conn.env.data.log := by
  cases e with
  | read pieces =>
    unfold step at hstep
    split_ifs at hstep
    unfold ReaderState.read at hstep
    obtain ⟨c, htake, hrest⟩ := Option.bind_eq_some_iff.mp hstep
    have henv : c.env = s.conn.env := by
      unfold ReaderConn.take at htake
      split_ifs at htake
      · exact absurd htake (by simp [httpFunctions])
      · rw [← Option.some.inj htake]
    dsimp only [httpFunctions] at hrest
    split_ifs at hrest
    · rw [← Option.some.inj hrest, henv]
    · obtain ⟨⟨c', goesOn, k⟩, hskip, heq⟩ := Option.bind_eq_some_iff.mp hrest
      rw [← Option.some.inj heq]
      obtain ⟨henv', -⟩ := ReaderConn.skip_spec hskip
      dsimp only at henv' ⊢
      rw [henv', henv]
  | pass =>
    unfold step at hstep
    split_ifs at hstep
    obtain rfl := Option.some.inj hstep
    unfold ReaderState.pass
    by_cases hloops : s.conn.Loops
    · obtain ⟨env, inp, res, hexec, -, hlog, -⟩ :=
        parseExecute_spec hsrv s.conn.env s.conn.inU s.conn.inp
      rw [if_pos hloops, hexec]
      dsimp only
      split_ifs <;> exact hlog
    · rw [if_neg hloops]
  | others env =>
    obtain rfl := Option.some.inj hstep
    exact hothers.2.1 ▸ List.prefix_rfl

/-- **A step of the reader or of other threads.** -/
theorem Frames.step (h : s.Frames requests got) (hsrv : srv.Handles)
    (hall : ∀ r ∈ requests, r.WellFormed ∧ r.text.length < 2 ^ 31)
    {e : ReaderEvent (HttpConn τ)} (hgot : got ++ received [e] <+: requestStream requests)
    (hothers : HttpOthers s e) (hstep : s.step (httpFunctions srv) e = some s')
    (hframed : ∀ e ∈ s'.conn.env.data.log, e.Framed) :
    s'.Frames requests (got ++ received [e]) ∧
      ((∀ env, e ≠ .others env) → s'.parsing = false → AllTaken requests s'.conn.env s'.conn.inp) := by
  cases e with
  | read pieces =>
    unfold ReaderState.step at hstep
    split_ifs at hstep
    have hreceived : received [ReaderEvent.read (σ := HttpConn τ) pieces] = pieces :=
      List.append_nil pieces
    rw [hreceived]
    obtain ⟨hframes, htaken⟩ := h.read hstep
    exact ⟨hframes, fun _ => htaken⟩
  | pass =>
    unfold ReaderState.step at hstep
    split_ifs at hstep with hparsing
    obtain rfl := Option.some.inj hstep
    have hreceived : got ++ received [ReaderEvent.pass (σ := HttpConn τ)] = got :=
      List.append_nil got
    rw [hreceived] at hgot ⊢
    obtain ⟨hframes, htaken⟩ := h.pass hsrv hall hgot hparsing hframed
    exact ⟨hframes, fun _ => htaken⟩
  | others env =>
    obtain rfl := Option.some.inj hstep
    have hreceived : got ++ received [ReaderEvent.others env] = got := List.append_nil got
    rw [hreceived]
    obtain ⟨hcrypto, hlog, hclosed⟩ := hothers
    have hopen : env.status = .working → s.conn.env.status = .working := by
      intro hst
      by_contra hne
      exact hclosed hne hst
    refine ⟨⟨hcrypto.trans h.crypto, h.inU, h.idle, ?_, fun hst => ?_, fun hst => ?_⟩,
      fun hne => absurd rfl (hne env)⟩
    · exact hlog ▸ h.serves
    · exact hlog ▸ h.aligned (hopen hst)
    · exact hlog ▸ h.waiting (hopen hst)

theorem received_cons {σ : Type} (e : ReaderEvent σ) (es : List (ReaderEvent σ)) :
    received (e :: es) = received [e] ++ received es := by
  unfold received
  rw [List.flatMap_cons, List.flatMap_singleton]

/-- What is observed along a run stays observed. -/
theorem http_run_log (hsrv : srv.Handles) {es : List (ReaderEvent (HttpConn τ))}
    (hothers : Runs.Along (ReaderState.step (httpFunctions srv)) HttpOthers s es)
    (hrun : Runs.run (ReaderState.step (httpFunctions srv)) s es = some s') :
    s.conn.env.data.log <+: s'.conn.env.data.log :=
  Runs.run_relation (P := fun _ => True)
    (R := fun s s' : ReaderState (HttpConn τ) => s.conn.env.data.log <+: s'.conn.env.data.log)
    (fun _ => List.prefix_rfl) List.IsPrefix.trans
    (fun _ _ _ _ hothers hstep => ⟨trivial, http_log hsrv hothers hstep⟩) trivial hothers hrun

/-- A run of such steps. -/
theorem Frames.run (hsrv : srv.Handles)
    (hall : ∀ r ∈ requests, r.WellFormed ∧ r.text.length < 2 ^ 31)
    {es : List (ReaderEvent (HttpConn τ))} (h : s.Frames requests got)
    (hgot : got ++ received es <+: requestStream requests)
    (hothers : Runs.Along (ReaderState.step (httpFunctions srv)) HttpOthers s es)
    (hrun : Runs.run (ReaderState.step (httpFunctions srv)) s es = some s')
    (hframed : ∀ e ∈ s'.conn.env.data.log, e.Framed) :
    s'.Frames requests (got ++ received es) := by
  induction es generalizing s got with
  | nil =>
    rw [← Option.some.inj hrun]
    rwa [show got ++ received [] = got from List.append_nil got]
  | cons e es ih =>
    obtain ⟨t, hstep, hrest⟩ := Runs.run_cons.mp hrun
    obtain ⟨hothers₁, hothers₂⟩ := hothers
    rw [hstep] at hothers₂
    rw [received_cons, ← List.append_assoc] at hgot ⊢
    obtain ⟨hframes, -⟩ := h.step hsrv hall ((List.prefix_append _ _).trans hgot) hothers₁ hstep
      (fun e he => hframed e ((http_run_log hsrv hothers₂ hrest).subset he))
    exact ih hframes hgot hothers₂ hrest

end ReaderState

/-- **Keep-alive requests are served in their order.**  Requests that are well formed come in any
pieces, in any blocks, with other threads in between, and the handler is any that keeps its
contract.  No assertion fails.  When the bytes behind the body of a request are never there together
with it, and a request with a body is not rejected without the connection being closed: every header
starts where a request starts, the handler gets each request with its own header and body, no byte
is lost as long as the connection is open, and no request that has come as a whole is left over. -/
theorem keepAlive_framing {τ : Type} (srv : HttpServer τ) (hsrv : srv.Handles)
    (requests : List HttpRequest)
    (hall : ∀ r ∈ requests, r.WellFormed ∧ r.text.length < 2 ^ 31) (env : ReaderEnv (HttpConn τ))
    (hcrypto : env.crypto = false) (hlog : env.data.log = [])
    (es : List (ReaderEvent (HttpConn τ))) (s : ReaderState (HttpConn τ))
    (hreceived : received es <+: requestStream requests)
    (hothers : Runs.Along (ReaderState.step (httpFunctions srv)) HttpOthers (.start env) es)
    (hrun : Runs.run (ReaderState.step (httpFunctions srv)) (.start env) es = some s)
    (hframed : ∀ e ∈ s.conn.env.data.log, e.Framed) :
    (∀ env inp, (htsParseExecute srv env inp).isSome) ∧ KeepsFraming requests es s := by
  refine ⟨fun env inp => ?_, ?_⟩
  · obtain ⟨env', inp', res, hparse, -⟩ := htsParseExecute_total hsrv env inp
    rw [hparse]
    rfl
  have hstart := ReaderState.Frames.start hcrypto hlog requests
  have hframes := hstart.run hsrv hall hreceived hothers hrun hframed
  refine ⟨hframes.serves, hframes.aligned, fun hlast hstop => ?_⟩
  rcases List.eq_nil_or_concat es with rfl | ⟨es', e, rfl⟩
  · rw [← Option.some.inj hrun]
    exact allTaken_nil requests env
  -- the last step decides
  rw [List.concat_eq_append] at *
  obtain ⟨t, hrun', hlast'⟩ := Runs.run_append.mp hrun
  obtain ⟨hothers', hothersLast⟩ := Runs.along_append.mp hothers
  obtain ⟨t', hstep, hend⟩ := Runs.run_cons.mp hlast'
  obtain rfl := Option.some.inj hend
  have hothersLast' := (hothersLast t hrun').1
  have hsplit : received (es' ++ [e]) = received es' ++ received [e] := List.flatMap_append
  rw [hsplit] at hreceived
  have ht := hstart.run hsrv hall ((List.prefix_append _ _).trans hreceived) hothers' hrun'
    (fun e he => hframed e ((ReaderState.http_log hsrv hothersLast' hstep).subset he))
  refine (ht.step hsrv hall hreceived hothersLast' hstep hframed).2 (fun env heq => ?_) hstop
  apply hlast env
  rw [List.getLast?_append, heq]
  rfl

/-! ## Runs -/

/-- What the header machine finds in the input of a call tells whether the call is as expected. -/
def HttpLog.Checked : HttpLog → Prop
  | .executed _ inp _ answer => (parseBlocks (newHtsData.goto .start) [inp]).any (fun out =>
      out.1.queryFlags.error = false ∧ (out.1.queryType = .post → 0 < out.1.dataSize →
        answer.status ≠ .working ∨
          if answer.res = 0 ∨ answer.res = httpSkipAllBytes then inp.length = out.1.extent
          else answer.res < 0 → answer.pendingQueries = 0 ∧
            (answer.res = -413 ∨ answer.hts.queryFlags.keepalive = false))) = true
  | _ => True

instance : ∀ e : HttpLog, Decidable e.Checked
  | .executed _ _ _ _ => inferInstanceAs (Decidable (_ = _))
  | .parsed _ => isTrue trivial
  | .refused _ => isTrue trivial

theorem HttpLog.Checked.framed {e : HttpLog} (h : e.Checked) : e.Framed := by
  cases e with
  | parsed content => trivial
  | refused code => trivial
  | executed D' inp raw answer =>
    intro r hr hpost hbody ⟨tail, htail⟩
    unfold HttpLog.Checked at h
    obtain ⟨⟨D, rest⟩, hrun, hD⟩ := (Option.any_eq_true _ _).mp h
    obtain ⟨herror, hanswer⟩ := of_decide_eq_true hD
    dsimp only at herror hanswer
    have hblocks : [inp].flatten = r.head ++ tail := by
      rw [List.flatten_singleton, htail]
    obtain ⟨D₁, rest₁, hrun₁, -, -, hheads⟩ := parseBlocks_head hr newHtsData hblocks
    obtain ⟨rfl, rfl⟩ := Prod.mk.inj (Option.some.inj (hrun.symm.trans hrun₁))
    obtain ⟨-, hsize, htype, hdata⟩ :=
      hheads.resolve_left (by rw [herror]; exact Bool.false_ne_true)
    have hqueryType : r.queryType = .post := by
      unfold HttpRequest.queryType
      rw [hpost]
      decide +kernel
    have hlength := hr.dataSize_post hqueryType
    have hextent : D.extent = r.text.length := by
      unfold HtsData.extent
      rw [hsize, hdata, hlength, Int.toNat_natCast, r.text_length]
    rw [← hextent]
    apply hanswer (htype.trans hqueryType)
    rw [hdata, hlength]
    exact_mod_cast List.length_pos_iff.mpr hbody

/-- `Connection: keep-alive`. -/
def keepAliveField : HttpField := ⟨"Connection".toUTF8.toList, "keep-alive".toUTF8.toList⟩

/-- `GET /`. -/
def sampleGet : HttpRequest := ⟨"GET".toUTF8.toList, [47], [keepAliveField], []⟩

/-- `POST /` with a body of one byte. -/
def samplePost : HttpRequest :=
  ⟨postText, [47], [keepAliveField, ⟨"Content-Length".toUTF8.toList, [49]⟩], [120]⟩

theorem keepAliveField_wellFormed : keepAliveField.WellFormed ∧
    ¬ keepAliveField.Named contentLengthText :=
  ⟨⟨by decide +kernel, by decide +kernel⟩, by decide +kernel⟩

theorem sampleGet_wellFormed : sampleGet.WellFormed ∧ sampleGet.text.length < 2 ^ 31 := by
  refine ⟨⟨by decide +kernel, by decide +kernel, ?_, ?_, ?_⟩, by decide +kernel⟩
  · intro f hf
    rw [List.mem_singleton.mp hf]
    exact keepAliveField_wellFormed.1
  · intro f hf hnamed
    rw [List.mem_singleton.mp hf] at hnamed
    exact absurd hnamed keepAliveField_wellFormed.2
  · rintro (h | h)
    · exact absurd h (by decide +kernel)
    · exact absurd rfl h

theorem samplePost_wellFormed : samplePost.WellFormed ∧ samplePost.text.length < 2 ^ 31 := by
  refine ⟨⟨by decide +kernel, by decide +kernel, ?_, ?_, ?_⟩, by decide +kernel⟩
  · intro f hf
    rcases List.mem_cons.mp hf with rfl | hf
    · exact keepAliveField_wellFormed.1
    · rw [List.mem_singleton.mp hf]
      exact ⟨by decide +kernel, by decide +kernel⟩
  · intro f hf hnamed
    rcases List.mem_cons.mp hf with rfl | hf
    · exact absurd hnamed keepAliveField_wellFormed.2
    · have hnone : ∀ c ∈ ([] : Bytes), HttpField.Blank c := fun c hc => absurd hc List.not_mem_nil
      rw [List.mem_singleton.mp hf]
      exact ⟨[], [49], [], rfl, hnone, by decide +kernel, List.cons_ne_nil _ _, hnone, by decide⟩
  · exact fun _ => ⟨_, List.mem_cons_of_mem _ (List.mem_singleton_self _), by decide +kernel⟩

/-- A server whose handler answers a request that is there. -/
def helpfulServer : HttpServer Unit where
  execute := fun env raw => ((),
    ⟨env.data.hts.headerSize + max env.data.hts.dataSize 0 - raw.length, env.data.hts,
      env.data.pendingQueries, env.flags, env.status⟩)
  blocks := fun _ inp => [inp]
  blocks_flatten := fun _ inp => List.append_nil inp

theorem helpfulServer_handles : helpfulServer.Handles where
  size := fun _ _ => rfl
  data := fun _ _ _ => rfl
  res := fun _ _ _ => Or.inr rfl

/-- A new connection without a cipher. -/
def httpEnv : ReaderEnv (HttpConn Unit) :=
  ⟨false, ⟨false, false, false, false, false⟩, .working, ⟨newHtsData, 0, (), []⟩⟩

/-- A server whose handler rejects every request with a body. -/
def rejectingServer : HttpServer Unit where
  execute := fun env raw => ((),
    ⟨if 0 < env.data.hts.dataSize then -414 else env.data.hts.headerSize - raw.length,
      env.data.hts, env.data.pendingQueries, env.flags, env.status⟩)
  blocks := fun _ inp => [inp]
  blocks_flatten := fun _ inp => List.append_nil inp

theorem rejectingServer_handles : rejectingServer.Handles where
  size := fun _ _ => rfl
  data := fun _ _ _ => rfl
  res := by
    intro env raw _
    show (if 0 < env.data.hts.dataSize then (-414 : ℤ) else env.data.hts.headerSize - raw.length) < 0
      ∨ (if 0 < env.data.hts.dataSize then (-414 : ℤ) else env.data.hts.headerSize - raw.length) = _
    split_ifs <;> omega

/-- Where only the reader acts. -/
theorem along_reader {es : List (ReaderEvent (HttpConn Unit))} {s : ReaderState (HttpConn Unit)}
    {srv : HttpServer Unit} (h : ∀ e ∈ es, ∀ env, e ≠ .others env) :
    Runs.Along (ReaderState.step (httpFunctions srv)) HttpOthers s es := by
  refine Runs.along_of_always (fun s e he => ?_)
  cases e with
  | others env => exact absurd rfl (h _ he env)
  | read pieces => trivial
  | pass => trivial

theorem samples_wellFormed : ∀ r ∈ [samplePost, sampleGet, sampleGet],
    r.WellFormed ∧ r.text.length < 2 ^ 31 := by
  intro r hr
  rcases List.mem_cons.mp hr with rfl | hr
  · exact samplePost_wellFormed
  · rw [List.eq_of_mem_replicate (n := 2) hr]
    exact sampleGet_wellFormed

/-- A request with a body in two pieces, and another one behind it. -/
def twoPieces : List (ReaderEvent (HttpConn Unit)) :=
  [.read samplePost.head, .pass, .read samplePost.body, .pass, .read sampleGet.text, .pass]

theorem keepAlive_framing_twoPieces : ∃ s,
    Runs.run (ReaderState.step (httpFunctions helpfulServer)) (.start httpEnv) twoPieces = some s ∧
      KeepsFraming [samplePost, sampleGet, sampleGet] twoPieces s := by
  have hcheck : (Runs.run (ReaderState.step (httpFunctions helpfulServer)) (.start httpEnv)
      twoPieces).any (fun s => ∀ e ∈ s.conn.env.data.log, e.Checked) = true := by decide +kernel
  obtain ⟨s, hrun, hchecked⟩ := (Option.any_eq_true _ _).mp hcheck
  refine ⟨s, hrun, (keepAlive_framing helpfulServer helpfulServer_handles _ samples_wellFormed
    httpEnv rfl rfl _ s ?_ (along_reader ?_) hrun
    (fun e he => (of_decide_eq_true hchecked e he).framed)).2⟩
  · exact ⟨sampleGet.text, by decide +kernel⟩
  · rintro e he env rfl
    simp [twoPieces] at he

/-- A request with a body and the next one in one piece, and another one behind them. -/
def onePiece : List (ReaderEvent (HttpConn Unit)) :=
  [.read (samplePost.text ++ sampleGet.text), .pass, .read sampleGet.text, .pass]

/-- A request with a body alone. -/
def alone : List (ReaderEvent (HttpConn Unit)) := [.read samplePost.text, .pass]

/-- **Requests are lost, and a body is parsed**: when a request with a body and the next one come
together, the reader skips as many bytes as there are behind the body, so that three requests come
and two are executed; and when the handler rejects a request with a body, a header is looked for in
the body.  The connection stays open. -/
theorem not_keepAlive_framing :
    (helpfulServer.Handles ∧ (∀ r ∈ [samplePost, sampleGet, sampleGet], r.WellFormed) ∧
      received onePiece = requestStream [samplePost, sampleGet, sampleGet] ∧
      ∃ s, Runs.run (ReaderState.step (httpFunctions helpfulServer)) (.start httpEnv) onePiece
          = some s ∧
        s.conn.env.status = .working ∧ s.conn.inp = [] ∧
        answeredCount s.conn.env.data.log = 2 ∧
        ¬ KeepsFraming [samplePost, sampleGet, sampleGet] onePiece s) ∧
    rejectingServer.Handles ∧ samplePost.WellFormed ∧ received alone = requestStream [samplePost] ∧
      ∃ s, Runs.run (ReaderState.step (httpFunctions rejectingServer)) (.start httpEnv) alone
          = some s ∧
        s.conn.env.status = .working ∧
        s.conn.env.data.log.getLast? = some (.parsed samplePost.body) ∧
        ¬ KeepsFraming [samplePost] alone s := by
  constructor
  · have hcheck : (Runs.run (ReaderState.step (httpFunctions helpfulServer)) (.start httpEnv)
        onePiece).any (fun s => s.conn.env.status = .working ∧ s.conn.inp = [] ∧
          answeredCount s.conn.env.data.log = 2) = true := by decide +kernel
    obtain ⟨s, hrun, hs⟩ := (Option.any_eq_true _ _).mp hcheck
    obtain ⟨hopen, hinp, hcount⟩ := of_decide_eq_true hs
    refine ⟨helpfulServer_handles, fun r hr => (samples_wellFormed r hr).1, by decide +kernel, s,
      hrun, hopen, hinp, hcount, fun hkeeps => ?_⟩
    obtain ⟨-, heq⟩ := hkeeps.aligned hopen
    rw [hcount, hinp] at heq
    exact absurd heq (by decide +kernel)
  · have hcheck : (Runs.run (ReaderState.step (httpFunctions rejectingServer)) (.start httpEnv)
        alone).any (fun s => s.conn.env.status = .working ∧
          s.conn.env.data.log.getLast? = some (.parsed samplePost.body) ∧
          answeredCount s.conn.env.data.log = 1) = true := by decide +kernel
    obtain ⟨s, hrun, hs⟩ := (Option.any_eq_true _ _).mp hcheck
    obtain ⟨hopen, hlast, hcount⟩ := of_decide_eq_true hs
    refine ⟨rejectingServer_handles, samplePost_wellFormed.1, by decide +kernel, s, hrun, hopen,
      hlast, fun hkeeps => ?_⟩
    obtain ⟨pre, hpre⟩ := List.getLast?_eq_some_iff.mp hlast
    have hsuits := hkeeps.serves pre (.parsed samplePost.body) [] hpre
    have hone : answeredCount pre = 1 := by
      rw [← hcount, hpre, answeredCount_append]
      rfl
    rw [hone] at hsuits
    have hnone : ¬ samplePost.body <+: requestStream ([samplePost].drop 1) := by decide
    exact hnone hsuits

end MtprotoProxy
