/-
# The header of an HTTP request

The state machine of `hts_parse_execute` in `net/net-http-server.c`, one `switch` at a time
(`hdrStep`): a case works on the rest `ptr..ptr_e` of the block and gives back what it leaves.
`none` is an assertion that fails.  A `char` is signed, so a byte above 0x7f is not greater than
a space to `htqp_readtocolon`, but it is to `htqp_readtospace`, which casts it.

* `parseBlocks_cut`: the blocks in which a header comes do not matter, `header_size` is the
  number of bytes that are used up but for those of a word that has not ended, and the URI is
  inside the header.

The bits of `query_flags` are fields; those that nothing sets are left out.
-/
import MtprotoProxy.BlockMachine
import MtprotoProxy.CScan

namespace MtprotoProxy

open CLib

/-- `enum http_query_parse_state`. -/
inductive HttpParseState where
  | start
  | readtospace
  | readtocolon
  | readint
  | skipspc
  | skiptoeoln
  | skipspctoeoln
  | eoln
  | wantlf
  | wantlastlf
  | linestart
  | fatal
  | done
  deriving DecidableEq

/-- `enum hts_query_type`. -/
inductive HttpQueryType where
  | none
  | head
  | get
  | post
  | options
  | error
  | empty
  deriving DecidableEq

/-- `query_flags`: `QF_ERROR`, `QF_HOST`, `QF_DATASIZE`, `QF_CONNECTION`, `QF_KEEPALIVE`. -/
structure HttpQueryFlags where
  error : Bool
  host : Bool
  datasize : Bool
  connection : Bool
  keepalive : Bool
  deriving DecidableEq

/-- `struct hts_data`, without what belongs to the handlers. -/
structure HtsData where
  queryType : HttpQueryType
  queryFlags : HttpQueryFlags
  queryWords : ℕ
  headerSize : ℕ
  firstLineSize : ℕ
  dataSize : ℤ
  hostOffset : ℕ
  hostSize : ℕ
  uriOffset : ℕ
  uriSize : ℕ
  httpVer : ℕ
  wlen : ℕ
  word : Bytes
  parseState : HttpParseState
  querySeqno : ℕ
  deriving DecidableEq

/-- The data of a new connection. -/
def newHtsData : HtsData where
  queryType := .none
  queryFlags := ⟨false, false, false, false, false⟩
  queryWords := 0
  headerSize := 0
  firstLineSize := 0
  dataSize := 0
  hostOffset := 0
  hostSize := 0
  uriOffset := 0
  uriSize := 0
  httpVer := 0
  wlen := 0
  word := List.replicate 16 0
  parseState := .start
  querySeqno := 0

/-- `MAX_HTTP_HEADER_SIZE`. -/
def maxHttpHeaderSize : ℕ := 16384

/-- `HTTP_V09`, `HTTP_V10`, `HTTP_V11`. -/
def httpV09 : ℕ := 9

def httpV10 : ℕ := 0x100

def httpV11 : ℕ := 0x101

namespace HtsData

variable (D : HtsData)

/-- A byte of the input is behind `ptr`. -/
def step1 : HtsData := { D with headerSize := D.headerSize + 1 }

def goto (s : HttpParseState) : HtsData := { D with parseState := s }

/-- `QF_ERROR` is set. -/
def setError : HtsData := { D with queryFlags := { D.queryFlags with error := true } }

/-- `D->word[D->wlen] = c`, as far as there is room, and `D->wlen++`. -/
def pushChar (c : UInt8) : HtsData :=
  { D with word := if D.wlen < 15 then D.word.set D.wlen c else D.word, wlen := D.wlen + 1 }

/-- The word is `text`. -/
def wordIs (text : Bytes) : Bool := D.wlen == text.length && D.word.take text.length == text

/-- The word is `text` but for the case of its letters. -/
def wordIsNocase (text : Bytes) : Bool := D.wlen == text.length && startsNoCase text D.word

end HtsData

/-- A loop that reads the word on. -/
def readWord (ok : UInt8 → Bool) : HtsData → Bytes → HtsData × Bytes
  | D, [] => (D, [])
  | D, c :: cs => if ok c then readWord ok (D.pushChar c) cs else (D, c :: cs)

/-- A loop that skips bytes, as long as the header may grow. -/
def skipBytes (ok : UInt8 → Bool) : HtsData → Bytes → HtsData × Bytes
  | D, [] => (D, [])
  | D, c :: cs =>
    if D.headerSize < maxHttpHeaderSize ∧ ok c then skipBytes ok D.step1 cs else (D, c :: cs)

/-! ## The cases -/

/-- `htqp_linestart`. -/
def htqpLinestart (D : HtsData) : Bytes → Option (HtsData × Bytes)
  | [] => some (D, [])
  | c :: cs =>
    let D := if D.firstLineSize = 0 then { D with firstLineSize := D.headerSize } else D
    if c = 13 then some (D.step1.goto .wantlastlf, cs)
    else if c = 10 then some (D.goto .wantlastlf, c :: cs)
    else if D.queryFlags.error then some (D.goto .skiptoeoln, c :: cs)
    else some ({ D with wlen := 0 }.goto .readtocolon, c :: cs)

/-- `htqp_wantlf`. -/
def htqpWantlf (D : HtsData) : Bytes → Option (HtsData × Bytes)
  | [] => some (D, [])
  | c :: cs =>
    let words := D.queryWords + 1
    if words < 8 ∧ D.queryFlags.error then
      some ({ D with queryWords := 8 }.goto .fatal, c :: cs)
    else
      let D := { D with queryWords := if words < 8 then 8 else words }
      if D.httpVer ≤ httpV09 then some (D.goto .wantlastlf, c :: cs)
      else if c ≠ 10 then some (D.setError.goto .skiptoeoln, c :: cs)
      else htqpLinestart (D.step1.goto .linestart) cs

/-- `htqp_eoln`. -/
def htqpEoln (D : HtsData) : Bytes → Option (HtsData × Bytes)
  | [] => some (D, [])
  | c :: cs =>
    if c = 13 then htqpWantlf (D.step1.goto .wantlf) cs else htqpWantlf (D.goto .wantlf) (c :: cs)

/-- `htqp_skiptoeoln`. -/
def htqpSkiptoeoln (D : HtsData) (bs : Bytes) : Option (HtsData × Bytes) :=
  let (D, rest) := skipBytes (fun c => c != 13 && c != 10) D bs
  if maxHttpHeaderSize ≤ D.headerSize then some (D.goto .fatal, rest)
  else if rest = [] then some (D, rest)
  else htqpEoln (D.goto .eoln) rest

/-- `htqp_wantlastlf`, with `htqp_done` behind it. -/
def htqpWantlastlf (D : HtsData) : Bytes → Option (HtsData × Bytes)
  | [] => some (D, [])
  | c :: cs =>
    if c ≠ 10 then some (D.goto .fatal, c :: cs)
    else
      let D := D.step1
      let D := if D.firstLineSize = 0 then { D with firstLineSize := D.headerSize } else D
      some (D.goto .done, cs)

/-- The loop of `htqp_readint`, with `tt`. -/
def readDigits : ℤ → HtsData → Bytes → ℤ × HtsData × Bytes
  | tt, D, [] => (tt, D, [])
  | tt, D, c :: cs =>
    if isDigit c then
      if 0x7fffffff / 10 ≤ tt then (tt, D.setError.goto .skiptoeoln, c :: cs)
      else
        readDigits (tt * 10 + (c.toNat - 48))
          { D.step1 with queryFlags := { D.queryFlags with datasize := false } } cs
    else (tt, D, c :: cs)

/-- `htqp_readint`. -/
def htqpReadint (D : HtsData) (bs : Bytes) : Option (HtsData × Bytes) :=
  let (tt, D, rest) := readDigits D.dataSize D bs
  let D := { D with dataSize := tt }
  if rest = [] then some (D, rest)
  else if D.queryFlags.datasize then some (D.setError.goto .skiptoeoln, rest)
  else some (D.goto .skipspctoeoln, rest)

/-- What comes behind the spaces. -/
def htqpSpaceEnd (D : HtsData) (rest : Bytes) : Option (HtsData × Bytes) :=
  let flags := D.queryFlags
  if D.parseState = .skipspctoeoln then some (D.goto .eoln, rest)
  else if D.queryWords < 3 then some ({ D with wlen := 0 }.goto .readtospace, rest)
  else if D.queryWords < 4 then none
  else if flags.datasize then
    if D.dataSize ≠ -1 then some (D.setError.goto .skiptoeoln, rest)
    else some ({ D with dataSize := 0 }.goto .readint, rest)
  else if flags.host ∨ flags.connection then
    some ({ D with wlen := 0 }.goto .readtospace, rest)
  else some (D.goto .skiptoeoln, rest)

/-- `htqp_skipspc` and `htqp_skipspctoeoln`. -/
def htqpSkipspc (D : HtsData) (bs : Bytes) : Option (HtsData × Bytes) :=
  let (D, rest) := skipBytes (fun c => c == 32 || (c == 9 && decide (8 ≤ D.queryWords))) D bs
  if maxHttpHeaderSize ≤ D.headerSize then some (D.goto .fatal, rest)
  else if rest = [] then some (D, rest)
  else htqpSpaceEnd D rest

/-- The flags behind the name of a field. -/
def fieldFlags (D : HtsData) : HttpQueryFlags :=
  let flags := D.queryFlags
  if D.wordIsNocase "host".toUTF8.toList then { flags with host := true }
  else if D.wordIsNocase "connection".toUTF8.toList then { flags with connection := true }
  else if D.wordIsNocase "content-length".toUTF8.toList then { flags with datasize := true }
  else { flags with host := false, datasize := false, connection := false }

/-- What comes behind the name of a field. -/
def htqpNameEnd (D : HtsData) : Bytes → Option (HtsData × Bytes)
  | [] => some (D, [])
  | c :: cs =>
    if c ≠ 58 then
      some (HtsData.goto { D.setError with headerSize := D.headerSize + D.wlen } .skiptoeoln,
        c :: cs)
    else
      let headerSize := D.headerSize + D.wlen + 1
      some (HtsData.goto { D with queryFlags := fieldFlags D, headerSize := headerSize } .skipspc,
        cs)

/-- `htqp_readtocolon`. -/
def htqpReadtocolon (D : HtsData) (bs : Bytes) : Option (HtsData × Bytes) :=
  let (D, rest) := readWord (fun c => c != 58 && decide (32 < c ∧ c < 128)) D bs
  if 4096 < D.wlen then some (D.goto .fatal, rest)
  else if rest = [] then some (D, rest)
  else htqpNameEnd D rest

/-- The type of a request by its first word. -/
def queryTypeOf (D : HtsData) : HttpQueryType :=
  if D.wordIs "GET".toUTF8.toList then .get
  else if D.wordIs "HEAD".toUTF8.toList then .head
  else if D.wordIs "POST".toUTF8.toList then .post
  else if D.wordIs "OPTIONS".toUTF8.toList then .options
  else .error

/-- The version by the third word. -/
def httpVerOf (D : HtsData) : Option ℕ :=
  if D.wlen = 0 then some httpV09
  else if D.wordIs "HTTP/1.0".toUTF8.toList then some httpV10
  else if D.wordIs "HTTP/1.1".toUTF8.toList then some httpV11
  else none

/-- What `htqp_readtospace` makes of a whole word. -/
def endWord (D : HtsData) : Option HtsData :=
  let D := { D with queryWords := D.queryWords + 1 }.goto .skipspc
  if D.queryWords = 1 then
    let D := { D with queryType := queryTypeOf D }
    if D.queryType = .error then some (D.setError.goto .skiptoeoln) else some D
  else if D.queryWords = 2 then
    let D := { D with uriOffset := D.headerSize, uriSize := D.wlen }
    if D.wlen = 0 then some (D.setError.goto .skiptoeoln) else some D
  else if D.queryWords = 3 then
    match httpVerOf D with
    | some ver => some ({ D with httpVer := ver }.goto .skipspctoeoln)
    | none => some (D.setError.goto .skiptoeoln)
  else
    let flags := D.queryFlags
    if ¬ flags.host ∧ ¬ flags.connection then none
    else
      let D :=
        if D.wlen = 0 then D
        else if flags.host then { D with hostOffset := D.headerSize, hostSize := D.wlen }
        else if D.wordIsNocase "keep-alive".toUTF8.toList then
          { D with queryFlags := { flags with keepalive := true } }
        else D
      let flags := { D.queryFlags with host := false, connection := false }
      some ({ D with queryFlags := flags }.goto .skipspctoeoln)

/-- What comes behind a word. -/
def htqpWordEnd (D : HtsData) (rest : Bytes) : Option (HtsData × Bytes) :=
  (endWord D).map (fun D => ({ D with headerSize := D.headerSize + D.wlen }, rest))

/-- `htqp_readtospace`. -/
def htqpReadtospace (D : HtsData) (bs : Bytes) : Option (HtsData × Bytes) :=
  let (D, rest) := readWord (fun c => decide (32 < c)) D bs
  if 4096 < D.wlen then some (D.goto .fatal, rest)
  else if rest = [] then some (D, rest)
  else htqpWordEnd D rest

/-- `memset` in `htqp_start`, with what is set behind it. -/
def htqpStart (D : HtsData) : HtsData :=
  { newHtsData with
    dataSize := -1
    parseState := .readtospace
    querySeqno := D.querySeqno + 1 }

/-- The `switch` of `hts_parse_execute`. -/
def hdrStep (D : HtsData) (bs : Bytes) : Option (HtsData × Bytes) :=
  match D.parseState with
  | .start => htqpReadtospace (htqpStart D) bs
  | .readtospace => htqpReadtospace D bs
  | .skipspc => htqpSkipspc D bs
  | .skipspctoeoln => htqpSkipspc D bs
  | .readtocolon => htqpReadtocolon D bs
  | .readint => htqpReadint D bs
  | .skiptoeoln => htqpSkiptoeoln D bs
  | .eoln => htqpEoln D bs
  | .wantlf => htqpWantlf D bs
  | .linestart => htqpLinestart D bs
  | .wantlastlf => htqpWantlastlf D bs
  | .done => some (D, bs)
  | .fatal => some (D.setError.goto .done, bs)

/-- The machine is done with a header. -/
def HtsData.halted (D : HtsData) : Bool := decide (D.parseState = .done)

/-- The header machine on the blocks of a message: the data, and the bytes that are left. -/
def parseBlocks (D : HtsData) (blocks : List Bytes) : Option (HtsData × Bytes) :=
  BlockMachine.runBlocks hdrStep HtsData.halted (fun b => 19 * (b.length + 1)) D blocks

/-! ## What a case leaves -/

/-- How far a state is from one that takes a byte or is done. -/
def HtsData.rank (D : HtsData) : ℕ :=
  match D.parseState with
  | .start => 18
  | .linestart => 17
  | .readtocolon => 16
  | .skipspc => 9 + 2 * (3 - D.queryWords)
  | .readtospace => 8 + 2 * (3 - D.queryWords)
  | .readint => 7
  | .skipspctoeoln => 6
  | .eoln => 5
  | .wantlf => 4
  | .skiptoeoln => 3
  | .wantlastlf => 2
  | .fatal => 1
  | .done => 0

theorem HtsData.rank_le (D : HtsData) : D.rank ≤ 18 := by
  unfold rank
  split <;> omega

/-- All bytes `pre` that are taken are counted, and the URI is among them. -/
def HeaderCounted (pre : Bytes) (D : HtsData) : Prop :=
  pre.length = D.headerSize ∧ D.uriOffset + D.uriSize ≤ D.headerSize

/-- A word is read; its bytes are taken and not yet counted. -/
def Reading (pre : Bytes) (D : HtsData) : Prop :=
  (∃ q w, pre = q ++ w ∧ w.length = D.wlen ∧ q.length = D.headerSize ∧ ∀ c ∈ w, 32 < c) ∧
    D.uriOffset + D.uriSize ≤ D.headerSize

theorem Reading.length {pre : Bytes} {D : HtsData} (h : Reading pre D) :
    pre.length = D.headerSize + D.wlen := by
  obtain ⟨⟨q, w, rfl, hlen, hq, -⟩, -⟩ := h
  rw [List.length_append, hq, hlen]

/-- No run of bytes above a space is longer than 4096 bytes. -/
def ShortRuns (content : Bytes) : Prop :=
  ∀ run, run <:+: content → (∀ c ∈ run, 32 < c) → run.length ≤ 4096

theorem ShortRuns.of_prefix {pre content : Bytes} (h : ShortRuns content)
    (hpre : pre <+: content) : ShortRuns pre :=
  fun run hrun hall => h run (hrun.trans hpre.isInfix) hall

/-- What is known of the data behind the bytes `pre`.  A word that is too long is not counted. -/
def HdrInv (pre : Bytes) (D : HtsData) : Prop :=
  match D.parseState with
  | .start => pre = []
  | .readtospace => Reading pre D ∧
      (D.queryWords < 3 ∨ D.queryFlags.host = true ∨ D.queryFlags.connection = true)
  | .readtocolon => Reading pre D ∧ 8 ≤ D.queryWords
  | .skipspc => HeaderCounted pre D ∧ (D.queryWords < 3 ∨ 8 ≤ D.queryWords)
  | .linestart => HeaderCounted pre D ∧ 8 ≤ D.queryWords
  | .fatal => HeaderCounted pre D ∨ D.headerSize ≤ pre.length ∧ ¬ ShortRuns pre
  | .done => HeaderCounted pre D ∧ (D.queryFlags.error = true ∨ 0 < D.headerSize) ∨
      D.queryFlags.error = true ∧ D.headerSize ≤ pre.length ∧ ¬ ShortRuns pre
  | _ => HeaderCounted pre D

/-- A case `f` on a block `a` with `b` behind it: it takes some of the block, and with the longer
block it does the same, or it uses up `a` and does what the next case does, or gives up a word
that is too long. -/
def StepsOk (pre a b : Bytes) (f : Bytes → Option (HtsData × Bytes)) (bound : ℕ) : Prop :=
  ∃ D' x r, a = x ++ r ∧ f a = some (D', r) ∧ HdrInv (pre ++ x) D' ∧
    (x = [] → a ≠ [] → D'.rank < bound) ∧
    (f (a ++ b) = some (D', r ++ b) ∨
      r = [] ∧ D'.halted = false ∧ (b ≠ [] → f (a ++ b) = hdrStep D' b) ∨
      D'.parseState = .fatal ∧ ¬ ShortRuns (pre ++ x))

namespace StepsOk

variable {pre a b : Bytes} {f g : Bytes → Option (HtsData × Bytes)} {bound : ℕ} {E : HtsData}

/-- Nothing is taken. -/
theorem stay (hf : ∀ rest, f (a ++ rest) = some (E, a ++ rest)) (hinv : HdrInv pre E)
    (hrank : a ≠ [] → E.rank < bound) : StepsOk pre a b f bound := by
  have ha := hf []
  rw [List.append_nil] at ha
  exact ⟨E, [], a, rfl, ha, by rwa [List.append_nil], fun _ => hrank, Or.inl (hf b)⟩

/-- The block is used up. -/
theorem used (ha : f a = some (E, [])) (hgo : E.halted = false)
    (hf : b ≠ [] → f (a ++ b) = hdrStep E b) (hinv : HdrInv (pre ++ a) E) :
    StepsOk pre a b f bound :=
  ⟨E, a, [], (List.append_nil a).symm, ha, hinv, fun h hne => absurd h hne,
    Or.inr (Or.inl ⟨rfl, hgo, hf⟩)⟩

/-- A word is too long. -/
theorem lost {x r : Bytes} (ha : f (x ++ r) = some (E, r)) (hfatal : E.parseState = .fatal)
    (hsize : E.headerSize ≤ (pre ++ x).length) (hlong : ¬ ShortRuns (pre ++ x))
    (hbound : 1 < bound) : StepsOk pre (x ++ r) b f bound := by
  refine ⟨E, x, r, rfl, ha, ?_, fun _ _ => ?_, Or.inr (Or.inr ⟨hfatal, hlong⟩)⟩
  · unfold HdrInv
    rw [hfatal]
    exact Or.inr ⟨hsize, hlong⟩
  · unfold HtsData.rank
    rw [hfatal]
    exact hbound

/-- Some bytes are taken, and another case goes on. -/
theorem through {x r : Bytes} (hf : ∀ rest, f (x ++ r ++ rest) = g (r ++ rest))
    (h : StepsOk (pre ++ x) r b g bound) : StepsOk pre (x ++ r) b f bound := by
  obtain ⟨E, y, r', rfl, hg, hinv, hrank, hcut⟩ := h
  have ha := hf []
  rw [List.append_nil, List.append_nil] at ha
  refine ⟨E, x ++ y, r', (List.append_assoc x y r').symm, ha.trans hg,
    by rwa [← List.append_assoc], ?_, ?_⟩
  · intro hnil hne
    obtain ⟨rfl, rfl⟩ := List.append_eq_nil_iff.mp hnil
    exact hrank rfl hne
  · rw [hf b, ← List.append_assoc]
    exact hcut

/-- A byte is taken. -/
theorem take {c : UInt8} {cs : Bytes} {k : ℕ} (hf : ∀ rest, f (c :: cs ++ rest) = g (cs ++ rest))
    (h : StepsOk (pre ++ [c]) cs b g k) : StepsOk pre (c :: cs) b f bound := by
  obtain ⟨E, y, r', rfl, hg, hinv, -, hcut⟩ := h
  have ha := hf []
  rw [List.append_nil, List.append_nil] at ha
  refine ⟨E, c :: y, r', rfl, ha.trans hg, by rwa [List.append_cons], ?_, ?_⟩
  · intro hnil
    exact absurd hnil (List.cons_ne_nil c y)
  · rw [hf b, List.append_cons]
    exact hcut

/-- A byte is taken, and that is all. -/
theorem last {c : UInt8} {cs : Bytes} (hf : ∀ rest, f (c :: cs ++ rest) = some (E, cs ++ rest))
    (hinv : HdrInv (pre ++ [c]) E) : StepsOk pre (c :: cs) b f bound :=
  take (g := fun rest => some (E, rest)) (k := E.rank + 1) hf
    (stay (fun _ => rfl) hinv (fun _ => Nat.lt_succ_self _))

end StepsOk

/-! ## The ends of lines -/

variable {pre a b : Bytes} {D : HtsData} {bound : ℕ}

/-- One more byte is taken and counted. -/
theorem HeaderCounted.step1 (h : HeaderCounted pre D) (c : UInt8) :
    HeaderCounted (pre ++ [c]) D.step1 := by
  refine ⟨?_, h.2.trans (Nat.le_succ _)⟩
  rw [List.length_append, h.1]
  rfl

theorem linestart_ok (hstate : D.parseState = .linestart) (hC : HeaderCounted pre D)
    (hwords : 8 ≤ D.queryWords) (hbound : 17 ≤ bound) :
    StepsOk pre a b (htqpLinestart D) bound := by
  cases a with
  | nil =>
    refine .used rfl (by simp [HtsData.halted, hstate]) (fun _ => by simp [hdrStep, hstate]) ?_
    rw [List.append_nil]
    unfold HdrInv
    rw [hstate]
    exact ⟨hC, hwords⟩
  | cons c cs =>
    generalize hD₁ : (if D.firstLineSize = 0 then { D with firstLineSize := D.headerSize } else D)
      = D₁
    have hC₁ : HeaderCounted pre D₁ := by
      rw [← hD₁]
      split_ifs
      · exact hC
      · exact hC
    have hwords₁ : 8 ≤ D₁.queryWords := by
      rw [← hD₁]
      split_ifs <;> exact hwords
    by_cases hcr : c = 13
    · refine .last (E := D₁.step1.goto .wantlastlf) ?_ (hC₁.step1 c)
      intro rest
      simp only [List.cons_append, htqpLinestart, hD₁, if_pos hcr]
    by_cases hlf : c = 10
    · refine .stay (E := D₁.goto .wantlastlf) ?_ hC₁ (fun _ => ?_)
      · intro rest
        simp only [List.cons_append, htqpLinestart, hD₁, if_neg hcr, if_pos hlf]
      · exact lt_of_lt_of_le (by decide : 2 < 17) hbound
    by_cases herror : D₁.queryFlags.error = true
    · refine .stay (E := D₁.goto .skiptoeoln) ?_ hC₁ (fun _ => ?_)
      · intro rest
        simp only [List.cons_append, htqpLinestart, hD₁, if_neg hcr, if_neg hlf, if_pos herror]
      · exact lt_of_lt_of_le (by decide : 3 < 17) hbound
    · refine .stay (E := { D₁ with wlen := 0 }.goto .readtocolon) ?_ ?_ (fun _ => ?_)
      · intro rest
        simp only [List.cons_append, htqpLinestart, hD₁, if_neg hcr, if_neg hlf, if_neg herror]
      · exact ⟨⟨⟨pre, [], (List.append_nil pre).symm, rfl, hC₁.1, by simp⟩, hC₁.2⟩, hwords₁⟩
      · exact lt_of_lt_of_le (by decide : 16 < 17) hbound

/-- `htqp_wantlf`; before a line feed it does not go back to the end of a line. -/
theorem wantlf_ok (hstate : D.parseState = .wantlf) (hC : HeaderCounted pre D)
    (hbound : 4 ≤ bound ∨ 3 ≤ bound ∧ ∀ c cs, a = c :: cs → c = 10) :
    StepsOk pre a b (htqpWantlf D) bound := by
  have hthree : 3 ≤ bound := by omega
  cases a with
  | nil =>
    refine .used rfl (by simp [HtsData.halted, hstate]) (fun _ => by simp [hdrStep, hstate]) ?_
    rw [List.append_nil]
    unfold HdrInv
    rw [hstate]
    exact hC
  | cons c cs =>
    by_cases hfatal : D.queryWords + 1 < 8 ∧ D.queryFlags.error = true
    · refine .stay (E := { D with queryWords := 8 }.goto .fatal) ?_ ?_
        (fun _ => lt_of_lt_of_le (by decide : 1 < 3) hthree)
      · intro rest
        simp only [List.cons_append, htqpWantlf, if_pos hfatal]
      · exact Or.inl hC
    generalize hwords : (if D.queryWords + 1 < 8 then 8 else D.queryWords + 1) = words
    have height : 8 ≤ words := by
      split_ifs at hwords <;> omega
    by_cases hver : D.httpVer ≤ httpV09
    · refine .stay (E := { D with queryWords := words }.goto .wantlastlf) ?_ ?_
        (fun _ => lt_of_lt_of_le (by decide : 2 < 3) hthree)
      · intro rest
        simp only [List.cons_append, htqpWantlf, if_neg hfatal, hwords, if_pos hver]
      · exact hC
    by_cases hlf : c = 10
    · refine .take (g := htqpLinestart ({ D with queryWords := words }.step1.goto .linestart))
        (k := 17) ?_ (linestart_ok rfl ?_ height le_rfl)
      · intro rest
        simp only [List.cons_append, htqpWantlf, if_neg hfatal, hwords, if_neg hver,
          if_neg (not_not.mpr hlf)]
      · exact hC.step1 c
    · refine .stay (E := { D with queryWords := words }.setError.goto .skiptoeoln) ?_ ?_
        (fun _ => ?_)
      · intro rest
        simp only [List.cons_append, htqpWantlf, if_neg hfatal, hwords, if_neg hver, ne_eq, hlf,
          not_false_eq_true, if_true]
      · exact hC
      · exact lt_of_lt_of_le (by decide : 3 < 4)
          (hbound.resolve_right (fun hb => hlf (hb.2 c cs rfl)))

theorem eoln_ok (hstate : D.parseState = .eoln) (hC : HeaderCounted pre D)
    (hbound : 4 ≤ bound ∨ 3 ≤ bound ∧ ∀ c cs, a = c :: cs → c = 13 ∨ c = 10) :
    StepsOk pre a b (htqpEoln D) bound := by
  cases a with
  | nil =>
    refine .used rfl (by simp [HtsData.halted, hstate]) (fun _ => by simp [hdrStep, hstate]) ?_
    rw [List.append_nil]
    unfold HdrInv
    rw [hstate]
    exact hC
  | cons c cs =>
    by_cases hcr : c = 13
    · refine .take (g := htqpWantlf (D.step1.goto .wantlf)) (k := 4) ?_
        (wantlf_ok rfl (hC.step1 c) (Or.inl le_rfl))
      intro rest
      simp only [List.cons_append, htqpEoln, if_pos hcr]
    · refine .through (x := []) (g := htqpWantlf (D.goto .wantlf)) ?_ ?_
      · intro rest
        simp only [List.nil_append, List.cons_append, htqpEoln, if_neg hcr]
      · rw [List.append_nil]
        refine wantlf_ok rfl hC (hbound.imp_right (And.imp_right ?_))
        rintro h d ds hd
        obtain ⟨rfl, rfl⟩ := List.cons.inj hd
        exact (h c cs rfl).resolve_left hcr

theorem wantlastlf_ok (hC : HeaderCounted pre D) (hbound : 2 ≤ bound) (hne : a ≠ []) :
    StepsOk pre a b (htqpWantlastlf D) bound := by
  cases a with
  | nil => exact absurd rfl hne
  | cons c cs =>
    by_cases hlf : c = 10
    · generalize hD₁ : (if D.step1.firstLineSize = 0
        then { D.step1 with firstLineSize := D.step1.headerSize } else D.step1) = D₁
      have hC₁ : HeaderCounted (pre ++ [c]) D₁ := by
        rw [← hD₁]
        split_ifs
        · exact hC.step1 c
        · exact hC.step1 c
      refine .last (E := D₁.goto .done) ?_ (Or.inl ⟨hC₁, Or.inr ?_⟩)
      swap
      · show 0 < D₁.headerSize
        rw [← hC₁.1, List.length_append]
        exact Nat.succ_pos _
      intro rest
      simp only [List.cons_append, htqpWantlastlf, if_neg (not_not.mpr hlf), hD₁]
    · refine .stay (E := D.goto .fatal) ?_ (Or.inl hC) (fun _ => ?_)
      · intro rest
        simp only [List.cons_append, htqpWantlastlf, ne_eq, hlf, not_false_eq_true, if_true]
      · exact lt_of_lt_of_le (by decide : 1 < 2) hbound

/-! ## The loops -/

/-- What a loop leaves, when more bytes come. -/
theorem readWord_append (ok : UInt8 → Bool) (D : HtsData) (a b : Bytes) :
    readWord ok D (a ++ b) = if (readWord ok D a).2 = [] then readWord ok (readWord ok D a).1 b
      else ((readWord ok D a).1, (readWord ok D a).2 ++ b) := by
  induction a generalizing D with
  | nil => rfl
  | cons c cs ih =>
    rw [List.cons_append, readWord, readWord]
    split_ifs with hok <;> simp_all

/-- A word is read: its bytes are the first ones, and the next one is not of its kind. -/
theorem readWord_spec (ok : UInt8 → Bool) (D : HtsData) (a : Bytes) :
    ∃ x r word, a = x ++ r ∧
      readWord ok D a = ({ D with word := word, wlen := D.wlen + x.length }, r) ∧
      (∀ c ∈ x, ok c = true) ∧ ∀ c cs, r = c :: cs → ok c = false := by
  induction a generalizing D with
  | nil => exact ⟨[], [], D.word, rfl, rfl, by simp, by simp⟩
  | cons c cs ih =>
    rw [readWord]
    by_cases hok : ok c = true
    · obtain ⟨x, r, word, rfl, hread, hall, hnext⟩ := ih (D.pushChar c)
      refine ⟨c :: x, r, word, rfl, ?_, ?_, hnext⟩
      · rw [if_pos hok, hread, List.length_cons, Nat.add_comm x.length, ← Nat.add_assoc]
        rfl
      · rw [List.forall_mem_cons]
        exact ⟨hok, hall⟩
    · rw [if_neg hok]
      refine ⟨[], c :: cs, D.word, rfl, rfl, by simp, ?_⟩
      intro d ds hd
      obtain ⟨rfl, rfl⟩ := List.cons.inj hd
      rwa [Bool.not_eq_true] at hok

theorem skipBytes_append (ok : UInt8 → Bool) (D : HtsData) (a b : Bytes) :
    skipBytes ok D (a ++ b) = if (skipBytes ok D a).2 = [] then skipBytes ok (skipBytes ok D a).1 b
      else ((skipBytes ok D a).1, (skipBytes ok D a).2 ++ b) := by
  induction a generalizing D with
  | nil => rfl
  | cons c cs ih =>
    rw [List.cons_append, skipBytes, skipBytes]
    split_ifs with hok <;> simp_all

/-- Bytes are skipped and counted; where the header is not too long the next one is of another
kind. -/
theorem skipBytes_spec (ok : UInt8 → Bool) (D : HtsData) (a : Bytes) :
    ∃ x r, a = x ++ r ∧ skipBytes ok D a = ({ D with headerSize := D.headerSize + x.length }, r) ∧
      ∀ c cs, r = c :: cs → D.headerSize + x.length < maxHttpHeaderSize → ok c = false := by
  induction a generalizing D with
  | nil => exact ⟨[], [], rfl, rfl, by simp⟩
  | cons c cs ih =>
    rw [skipBytes]
    by_cases hok : D.headerSize < maxHttpHeaderSize ∧ ok c = true
    · obtain ⟨x, r, rfl, hskip, hnext⟩ := ih D.step1
      have hsize : D.step1.headerSize + x.length = D.headerSize + (c :: x).length := by
        rw [List.length_cons, Nat.add_comm x.length, ← Nat.add_assoc]
        rfl
      refine ⟨c :: x, r, rfl, ?_, ?_⟩
      · rw [if_pos hok, hskip, hsize]
        rfl
      · rwa [← hsize]
    · rw [if_neg hok]
      refine ⟨[], c :: cs, rfl, rfl, ?_⟩
      intro d ds hd hlt
      obtain ⟨rfl, rfl⟩ := List.cons.inj hd
      rw [not_and, Bool.not_eq_true] at hok
      exact hok hlt

theorem readDigits_append (tt : ℤ) (D : HtsData) (a b : Bytes) :
    readDigits tt D (a ++ b) = if (readDigits tt D a).2.2 = []
      then readDigits (readDigits tt D a).1 (readDigits tt D a).2.1 b
      else ((readDigits tt D a).1, (readDigits tt D a).2.1, (readDigits tt D a).2.2 ++ b) := by
  induction a generalizing tt D with
  | nil => rfl
  | cons c cs ih =>
    rw [List.cons_append, readDigits, readDigits]
    split_ifs with hdigit hbig <;> simp_all

/-- Digits are counted.  Where all bytes are digits the state is the same. -/
theorem readDigits_spec (tt : ℤ) (D : HtsData) (a : Bytes) :
    ∃ x r tt' flags state, a = x ++ r ∧
      readDigits tt D a = (tt', { D with
        headerSize := D.headerSize + x.length
        queryFlags := flags
        parseState := state }, r) ∧ (r = [] → state = D.parseState) := by
  induction a generalizing tt D with
  | nil => exact ⟨[], [], tt, D.queryFlags, D.parseState, rfl, rfl, fun _ => rfl⟩
  | cons c cs ih =>
    rw [readDigits]
    split_ifs with hdigit hbig
    · exact ⟨[], c :: cs, tt, { D.queryFlags with error := true }, .skiptoeoln, rfl, rfl,
        fun h => absurd h (List.cons_ne_nil c cs)⟩
    · obtain ⟨x, r, tt', flags, state, rfl, hread, hstate⟩ := ih (tt * 10 + (c.toNat - 48))
        { D.step1 with queryFlags := { D.queryFlags with datasize := false } }
      refine ⟨c :: x, r, tt', flags, state, rfl, ?_, hstate⟩
      rw [hread, List.length_cons, Nat.add_comm x.length, ← Nat.add_assoc]
      rfl
    · exact ⟨[], c :: cs, tt, D.queryFlags, D.parseState, rfl, rfl,
        fun h => absurd h (List.cons_ne_nil c cs)⟩

/-! ## The cases with loops -/

/-- More bytes change nothing behind a loop that has stopped. -/
theorem skipBytes_more {ok : UInt8 → Bool} {D D₁ : HtsData} {a r : Bytes}
    (h : skipBytes ok D a = (D₁, r)) (hr : r ≠ []) (rest : Bytes) :
    skipBytes ok D (a ++ rest) = (D₁, r ++ rest) := by
  rw [skipBytes_append, h, if_neg hr]

theorem skipBytes_used {ok : UInt8 → Bool} {D D₁ : HtsData} {a : Bytes}
    (h : skipBytes ok D a = (D₁, [])) (rest : Bytes) :
    skipBytes ok D (a ++ rest) = skipBytes ok D₁ rest := by
  rw [skipBytes_append, h, if_pos rfl]

theorem skipBytes_full {ok : UInt8 → Bool} (h : maxHttpHeaderSize ≤ D.headerSize) (bs : Bytes) :
    skipBytes ok D bs = (D, bs) := by
  cases bs with
  | nil => rfl
  | cons c cs => exact if_neg (fun hb => absurd hb.1 (not_lt.mpr h))

theorem HeaderCounted.skip (h : HeaderCounted pre D) (x : Bytes) :
    HeaderCounted (pre ++ x) { D with headerSize := D.headerSize + x.length } := by
  refine ⟨?_, h.2.trans (Nat.le_add_right _ _)⟩
  rw [List.length_append, h.1]

/-- A case that skips bytes first: it gives up where the header is too long, stays where the
block ends, and otherwise goes on with `g`. -/
theorem skipCase_ok {p : UInt8 → Bool} {f : HtsData → Bytes → Option (HtsData × Bytes)}
    {g : HtsData → Bytes → Option (HtsData × Bytes)}
    (hf : ∀ k bs, f { D with headerSize := k } bs =
      let (D', rest) := skipBytes p { D with headerSize := k } bs
      if maxHttpHeaderSize ≤ D'.headerSize then some (D'.goto .fatal, rest)
      else if rest = [] then some (D', rest)
      else g D' rest)
    (hstep : ∀ k bs, hdrStep { D with headerSize := k } bs = f { D with headerSize := k } bs)
    (hstay : ∀ x : Bytes, HdrInv (pre ++ x) { D with headerSize := D.headerSize + x.length })
    (hgo : D.halted = false) (hbound : 1 < bound) (hC : HeaderCounted pre D)
    (hg : ∀ x c cs, a = x ++ c :: cs → p c = false → StepsOk (pre ++ x) (c :: cs) b
      (g { D with headerSize := D.headerSize + x.length }) bound) :
    StepsOk pre a b (f D) bound := by
  obtain ⟨x, r, rfl, hskip, hnext⟩ := skipBytes_spec p D a
  have hfD : ∀ bs, f D bs = _ := hf D.headerSize
  have hfD₁ := hf (D.headerSize + x.length)
  have hinv := hC.skip x
  have hstay' := hstay x
  have hstep' := hstep (D.headerSize + x.length)
  have hg' := hg x
  generalize hD₁ : { D with headerSize := D.headerSize + x.length } = D₁ at *
  have hsize : D₁.headerSize = D.headerSize + x.length := by
    rw [← hD₁]
  by_cases hfull : maxHttpHeaderSize ≤ D₁.headerSize
  · -- also with more bytes the header is too long here
    have hrest : ∀ rest, skipBytes p D (x ++ r ++ rest) = (D₁, r ++ rest) := by
      intro rest
      by_cases hr : r = []
      · subst hr
        rw [skipBytes_used hskip, skipBytes_full hfull]
        rfl
      · exact skipBytes_more hskip hr rest
    refine .through (g := fun rest => some (D₁.goto .fatal, rest)) ?_
      (.stay (fun _ => rfl) (Or.inl hinv) (fun _ => hbound))
    intro rest
    rw [hfD, hrest]
    exact if_pos hfull
  · by_cases hr : r = []
    · subst hr
      rw [List.append_nil] at hskip ⊢
      refine .used (E := D₁) ?_ ?_ ?_ hstay'
      · rw [hfD, hskip]
        exact (if_neg hfull).trans (if_pos rfl)
      · rw [← hD₁]
        exact hgo
      · intro _
        rw [hstep', hfD, hfD₁, skipBytes_used hskip]
    · obtain ⟨c, cs, rfl⟩ := List.exists_cons_of_ne_nil hr
      refine .through (g := g D₁) ?_ (hg' c cs rfl (hnext c cs rfl (by omega)))
      intro rest
      rw [hfD, skipBytes_more hskip hr rest]
      exact (if_neg hfull).trans (if_neg (List.cons_ne_nil c _))

theorem skiptoeoln_ok (hstate : D.parseState = .skiptoeoln) (hC : HeaderCounted pre D)
    (hbound : 3 ≤ bound) : StepsOk pre a b (htqpSkiptoeoln D) bound := by
  refine skipCase_ok (p := fun c => c != 13 && c != 10) (g := fun D => htqpEoln (D.goto .eoln))
    (fun _ _ => rfl) ?_ ?_ (by simp [HtsData.halted, hstate]) (by omega) hC ?_
  · intro k bs
    unfold hdrStep
    simp only [hstate]
  · intro x
    unfold HdrInv
    simp only [hstate]
    exact hC.skip x
  · intro x c cs _ hstop
    refine eoln_ok rfl (hC.skip x) (Or.inr ⟨hbound, ?_⟩)
    intro d ds hd
    obtain ⟨rfl, rfl⟩ := List.cons.inj hd
    rw [Bool.and_eq_false_iff, bne_eq_false_iff_eq, bne_eq_false_iff_eq] at hstop
    exact hstop

theorem spaceEnd_ok (hstate : D.parseState = .skipspc ∨ D.parseState = .skipspctoeoln)
    (hC : HeaderCounted pre D)
    (hwords : D.parseState = .skipspc → D.queryWords < 3 ∨ 8 ≤ D.queryWords)
    (hbound : D.rank ≤ bound) : StepsOk pre a b (htqpSpaceEnd D) bound := by
  by_cases htoeoln : D.parseState = .skipspctoeoln
  · have hrank : D.rank = 6 := by
      unfold HtsData.rank
      rw [htoeoln]
    refine .stay (E := D.goto .eoln) ?_ hC (fun _ => ?_)
    · intro rest
      exact if_pos htoeoln
    · show 5 < bound
      omega
  have hskipspc := hstate.resolve_right htoeoln
  have hrank : D.rank = 9 + 2 * (3 - D.queryWords) := by
    unfold HtsData.rank
    rw [hskipspc]
  have hword : Reading pre { D with wlen := 0 } :=
    ⟨⟨pre, [], (List.append_nil _).symm, rfl, hC.1, by simp⟩, hC.2⟩
  by_cases hfew : D.queryWords < 3
  · refine .stay (E := HtsData.goto { D with wlen := 0 } .readtospace) ?_ ⟨hword, Or.inl hfew⟩
      (fun _ => ?_)
    · intro rest
      exact (if_neg htoeoln).trans (if_pos hfew)
    · show 8 + 2 * (3 - D.queryWords) < bound
      omega
  have height : 8 ≤ D.queryWords := (hwords hskipspc).resolve_left hfew
  have hfour : ¬ D.queryWords < 4 := by omega
  by_cases hdata : D.queryFlags.datasize = true
  · by_cases hsecond : D.dataSize ≠ -1
    · refine .stay (E := D.setError.goto .skiptoeoln) ?_ hC (fun _ => ?_)
      · intro rest
        simp only [htqpSpaceEnd, if_neg htoeoln, if_neg hfew, if_neg hfour, if_pos hdata,
          if_pos hsecond]
      · show 3 < bound
        omega
    · refine .stay (E := HtsData.goto { D with dataSize := 0 } .readint) ?_ hC (fun _ => ?_)
      · intro rest
        simp only [htqpSpaceEnd, if_neg htoeoln, if_neg hfew, if_neg hfour, if_pos hdata,
          if_neg hsecond]
      · show 7 < bound
        omega
  by_cases hvalue : D.queryFlags.host = true ∨ D.queryFlags.connection = true
  · refine .stay (E := HtsData.goto { D with wlen := 0 } .readtospace) ?_
      ⟨hword, Or.inr hvalue⟩ (fun _ => ?_)
    · intro rest
      simp only [htqpSpaceEnd, if_neg htoeoln, if_neg hfew, if_neg hfour, if_neg hdata,
        if_pos hvalue]
    · show 8 + 2 * (3 - D.queryWords) < bound
      omega
  · refine .stay (E := D.goto .skiptoeoln) ?_ hC (fun _ => ?_)
    · intro rest
      simp only [htqpSpaceEnd, if_neg htoeoln, if_neg hfew, if_neg hfour, if_neg hdata,
        if_neg hvalue]
    · show 3 < bound
      omega

/-- `htqp_skipspc`, or `htqp_skipspctoeoln`. -/
theorem skipspc_ok (hstate : D.parseState = .skipspc ∨ D.parseState = .skipspctoeoln)
    (hinv : HdrInv pre D) (hbound : D.rank ≤ bound) : StepsOk pre a b (htqpSkipspc D) bound := by
  have hC : HeaderCounted pre D := by
    unfold HdrInv at hinv
    rcases hstate with hs | hs <;> simp only [hs] at hinv
    · exact hinv.1
    · exact hinv
  have hwords : D.parseState = .skipspc → D.queryWords < 3 ∨ 8 ≤ D.queryWords := by
    intro hs
    unfold HdrInv at hinv
    simp only [hs] at hinv
    exact hinv.2
  have hrank : 6 ≤ D.rank := by
    unfold HtsData.rank
    rcases hstate with hs | hs <;> simp only [hs]
    · omega
    · exact le_rfl
  refine skipCase_ok (p := fun c => c == 32 || (c == 9 && decide (8 ≤ D.queryWords)))
    (g := htqpSpaceEnd) (fun _ _ => rfl) ?_ ?_ ?_ (by omega) hC ?_
  · intro k bs
    unfold hdrStep
    rcases hstate with hs | hs <;> simp only [hs]
  · intro x
    unfold HdrInv at hinv ⊢
    rcases hstate with hs | hs <;> simp only [hs] at hinv ⊢
    · exact ⟨hC.skip x, hinv.2⟩
    · exact hC.skip x
  · rcases hstate with hs | hs <;> simp [HtsData.halted, hs]
  · intro x c cs _ _
    exact spaceEnd_ok hstate (hC.skip x) hwords hbound

theorem readDigits_dataSize (tt k : ℤ) (D : HtsData) (bs : Bytes) :
    readDigits tt { D with dataSize := k } bs = ((readDigits tt D bs).1,
      { (readDigits tt D bs).2.1 with dataSize := k }, (readDigits tt D bs).2.2) := by
  induction bs generalizing tt D with
  | nil => rfl
  | cons c cs ih =>
    rw [readDigits, readDigits]
    split_ifs with hdigit hbig
    · rfl
    · exact ih (tt * 10 + (c.toNat - 48))
        { D.step1 with queryFlags := { D.queryFlags with datasize := false } }
    · rfl

theorem readint_ok (hstate : D.parseState = .readint) (hC : HeaderCounted pre D) (hbound : 7 ≤ bound) :
    StepsOk pre a b (htqpReadint D) bound := by
  obtain ⟨x, r, tt, flags, state, rfl, hread, hsame⟩ := readDigits_spec D.dataSize D a
  have hC₁ : HeaderCounted (pre ++ x) { D with
      headerSize := D.headerSize + x.length
      queryFlags := flags
      parseState := state } := hC.skip x
  generalize hD₁ : { D with
    headerSize := D.headerSize + x.length
    queryFlags := flags
    parseState := state } = D₁ at hread hC₁
  by_cases hr : r = []
  · subst hr
    rw [List.append_nil] at hread ⊢
    have hstate₁ : D₁.parseState = .readint := by
      rw [← hD₁]
      exact (hsame rfl).trans hstate
    refine .used (E := { D₁ with dataSize := tt }) ?_ ?_ ?_ ?_
    · simp only [htqpReadint, hread, if_true]
    · simp [HtsData.halted, hstate₁]
    · -- the digits behind the cut go on with the number
      intro _
      have hmore : readDigits D.dataSize D (x ++ b) = readDigits tt D₁ b := by
        rw [readDigits_append, hread, if_pos rfl]
      have hnext : hdrStep { D₁ with dataSize := tt } b = htqpReadint { D₁ with dataSize := tt } b := by
        unfold hdrStep
        simp only [hstate₁]
      rw [hnext]
      simp only [htqpReadint, hmore, readDigits_dataSize]
    · unfold HdrInv
      simp only [hstate₁]
      exact hC₁
  · have hmore : ∀ rest, readDigits D.dataSize D (x ++ r ++ rest) = (tt, D₁, r ++ rest) := by
      intro rest
      rw [readDigits_append, hread, if_neg hr]
    have hr' : ∀ rest, r ++ rest ≠ [] := fun rest h => hr (List.append_eq_nil_iff.mp h).1
    by_cases hdata : D₁.queryFlags.datasize = true
    · refine .through (g := fun rest =>
        some (HtsData.goto (HtsData.setError { D₁ with dataSize := tt }) .skiptoeoln, rest)) ?_
        (.stay (fun _ => rfl) hC₁ (fun _ => lt_of_lt_of_le (by decide : 3 < 7) hbound))
      intro rest
      simp only [htqpReadint, hmore, if_neg (hr' rest), if_pos hdata]
    · refine .through (g := fun rest =>
        some (HtsData.goto { D₁ with dataSize := tt } .skipspctoeoln, rest)) ?_
        (.stay (fun _ => rfl) hC₁ (fun _ => lt_of_lt_of_le (by decide : 6 < 7) hbound))
      intro rest
      simp only [htqpReadint, hmore, if_neg (hr' rest), if_neg hdata]

/-- A case that reads a word first: it gives up a word that is too long, stays where the block
ends, and otherwise goes on with `g`. -/
theorem wordCase_ok {p : UInt8 → Bool} {f g : HtsData → Bytes → Option (HtsData × Bytes)}
    (hf : ∀ word k bs, f { D with word := word, wlen := k } bs =
      let (D', rest) := readWord p { D with word := word, wlen := k } bs
      if 4096 < D'.wlen then some (D'.goto .fatal, rest)
      else if rest = [] then some (D', rest)
      else g D' rest)
    (hstep : ∀ word k bs, hdrStep { D with word := word, wlen := k } bs
      = f { D with word := word, wlen := k } bs)
    (hok : ∀ c, p c = true → 32 < c) (hR : Reading pre D)
    (hstay : ∀ (x : Bytes) word, Reading (pre ++ x)
      { D with word := word, wlen := D.wlen + x.length } →
      HdrInv (pre ++ x) { D with word := word, wlen := D.wlen + x.length })
    (hgo : D.halted = false) (hbound : 1 < bound)
    (hg : ∀ x c cs word, a = x ++ c :: cs → Reading (pre ++ x)
      { D with word := word, wlen := D.wlen + x.length } → StepsOk (pre ++ x) (c :: cs) b
        (g { D with word := word, wlen := D.wlen + x.length }) bound) :
    StepsOk pre a b (f D) bound := by
  obtain ⟨x, r, word, rfl, hread, hall, -⟩ := readWord_spec p D a
  obtain ⟨⟨q, w, rfl, hlen, hq, hw⟩, huri⟩ := hR
  have hR₁ : Reading (q ++ w ++ x) { D with word := word, wlen := D.wlen + x.length } := by
    refine ⟨⟨q, w ++ x, List.append_assoc q w x, ?_, hq, ?_⟩, huri⟩
    · rw [List.length_append, hlen]
    · exact List.forall_mem_append.mpr ⟨hw, fun c hc => hok c (hall c hc)⟩
  have hshort : ShortRuns (q ++ w ++ x) → D.wlen + x.length ≤ 4096 := by
    intro hshort
    rw [← hlen, ← List.length_append]
    refine hshort (w ++ x) ⟨q, [], ?_⟩
      (List.forall_mem_append.mpr ⟨hw, fun c hc => hok c (hall c hc)⟩)
    rw [List.append_nil, List.append_assoc]
  have hsize₁ : HtsData.headerSize { D with word := word, wlen := D.wlen + x.length }
      ≤ (q ++ w ++ x).length := by
    rw [hR₁.length]
    exact Nat.le_add_right _ _
  have hfD : ∀ bs, f D bs = _ := hf D.word D.wlen
  have hfD₁ := hf word (D.wlen + x.length)
  have hstep₁ := hstep word (D.wlen + x.length)
  have hstay₁ := hstay x word hR₁
  have hg₁ := fun c cs h => hg x c cs word h hR₁
  have hshort₁ : ShortRuns (q ++ w ++ x) →
      HtsData.wlen { D with word := word, wlen := D.wlen + x.length } ≤ 4096 := hshort
  have hgo₁ : HtsData.halted { D with word := word, wlen := D.wlen + x.length } = false := hgo
  generalize { D with word := word, wlen := D.wlen + x.length } = D₁ at *
  by_cases hlong₁ : 4096 < D₁.wlen
  · refine .lost (E := D₁.goto .fatal) ?_ rfl hsize₁
      (fun h => absurd hlong₁ (not_lt.mpr (hshort₁ h))) hbound
    rw [hfD, hread]
    exact if_pos hlong₁
  by_cases hr : r = []
  · subst hr
    rw [List.append_nil] at hread ⊢
    refine .used (E := D₁) ?_ hgo₁ ?_ hstay₁
    · rw [hfD, hread]
      exact (if_neg hlong₁).trans (if_pos rfl)
    · intro _
      rw [hstep₁, hfD, hfD₁, readWord_append, hread, if_pos rfl]
  · obtain ⟨c, cs, rfl⟩ := List.exists_cons_of_ne_nil hr
    refine .through (g := g D₁) ?_ (hg₁ c cs rfl)
    intro rest
    rw [hfD, readWord_append, hread, if_neg (List.cons_ne_nil c cs)]
    exact (if_neg hlong₁).trans (if_neg (List.cons_ne_nil c _))

theorem nameEnd_ok {c : UInt8} {cs : Bytes} (hC : pre.length = D.headerSize + D.wlen)
    (huri : D.uriOffset + D.uriSize ≤ D.headerSize) (hwords : 8 ≤ D.queryWords)
    (hbound : 4 ≤ bound) : StepsOk pre (c :: cs) b (htqpNameEnd D) bound := by
  by_cases hcolon : c = 58
  · refine .last (E := HtsData.goto { D with
      queryFlags := fieldFlags D
      headerSize := D.headerSize + D.wlen + 1 } .skipspc) ?_ ⟨⟨?_, ?_⟩, Or.inr hwords⟩
    · intro rest
      simp only [List.cons_append, htqpNameEnd, if_neg (not_not.mpr hcolon)]
    · rw [List.length_append, hC]
      rfl
    · show D.uriOffset + D.uriSize ≤ D.headerSize + D.wlen + 1
      omega
  · refine .stay (E := HtsData.goto { D.setError with
      headerSize := D.headerSize + D.wlen } .skiptoeoln) ?_ ⟨hC, ?_⟩ (fun _ => ?_)
    · intro rest
      simp only [List.cons_append, htqpNameEnd, ne_eq, hcolon, not_false_eq_true, if_true]
    · show D.uriOffset + D.uriSize ≤ D.headerSize + D.wlen
      omega
    · show 3 < bound
      omega

theorem readtocolon_ok (hstate : D.parseState = .readtocolon) (hinv : HdrInv pre D)
    (hbound : 4 ≤ bound) : StepsOk pre a b (htqpReadtocolon D) bound := by
  obtain ⟨hR, hwords⟩ : Reading pre D ∧ 8 ≤ D.queryWords := by
    unfold HdrInv at hinv
    simpa only [hstate] using hinv
  refine wordCase_ok (p := fun c => c != 58 && decide (32 < c ∧ c < 128)) (g := htqpNameEnd)
    (fun _ _ _ => rfl) ?_ ?_ hR ?_ (by simp [HtsData.halted, hstate]) (by omega) ?_
  · intro word k bs
    unfold hdrStep
    simp only [hstate]
  · intro c hc
    rw [Bool.and_eq_true, decide_eq_true_eq] at hc
    exact hc.2.1
  · intro x word hR'
    unfold HdrInv
    simp only [hstate]
    exact ⟨hR', hwords⟩
  · intro x c cs word _ hR'
    exact nameEnd_ok hR'.length hR'.2 hwords hbound

/-- The end of a word keeps what is known, and the state gets closer to one that takes a byte. -/
theorem endWord_ok (hC : pre.length = D.headerSize + D.wlen)
    (huri : D.uriOffset + D.uriSize ≤ D.headerSize)
    (hwords : D.queryWords < 3 ∨ D.queryFlags.host = true ∨ D.queryFlags.connection = true) :
    ∃ D', endWord D = some D' ∧ HdrInv pre { D' with headerSize := D'.headerSize + D'.wlen } ∧
      HtsData.rank { D' with headerSize := D'.headerSize + D'.wlen }
        < 8 + 2 * (3 - D.queryWords) := by
  unfold endWord
  dsimp only [HtsData.goto]
  by_cases h₁ : D.queryWords + 1 = 1
  · rw [if_pos h₁]
    generalize queryTypeOf _ = type
    have hzero : D.queryWords = 0 := by omega
    by_cases herror : type = .error
    · rw [if_pos herror]
      refine ⟨_, rfl, ⟨hC, ?_⟩, ?_⟩
      · show D.uriOffset + D.uriSize ≤ D.headerSize + D.wlen
        omega
      · show 3 < _
        omega
    · rw [if_neg herror]
      refine ⟨_, rfl, ⟨⟨hC, ?_⟩, ?_⟩, ?_⟩
      · show D.uriOffset + D.uriSize ≤ D.headerSize + D.wlen
        omega
      · show D.queryWords + 1 < 3 ∨ _
        omega
      · show 9 + 2 * (3 - (D.queryWords + 1)) < _
        omega
  rw [if_neg h₁]
  by_cases h₂ : D.queryWords + 1 = 2
  · rw [if_pos h₂]
    by_cases hnone : D.wlen = 0
    · rw [if_pos hnone]
      refine ⟨_, rfl, ⟨hC, le_rfl⟩, ?_⟩
      show 3 < _
      omega
    · rw [if_neg hnone]
      refine ⟨_, rfl, ⟨⟨hC, le_rfl⟩, ?_⟩, ?_⟩
      · show D.queryWords + 1 < 3 ∨ _
        omega
      · show 9 + 2 * (3 - (D.queryWords + 1)) < _
        omega
  rw [if_neg h₂]
  have huri' : D.uriOffset + D.uriSize ≤ D.headerSize + D.wlen := by omega
  by_cases h₃ : D.queryWords + 1 = 3
  · rw [if_pos h₃]
    cases httpVerOf _ with
    | some ver =>
      refine ⟨_, rfl, ⟨hC, huri'⟩, ?_⟩
      show 6 < _
      omega
    | none =>
      refine ⟨_, rfl, ⟨hC, huri'⟩, ?_⟩
      show 3 < _
      omega
  rw [if_neg h₃]
  have hvalue : ¬ (¬ D.queryFlags.host = true ∧ ¬ D.queryFlags.connection = true) := by
    rcases hwords with hfew | hhost | hconnection
    · omega
    · exact fun hb => hb.1 hhost
    · exact fun hb => hb.2 hconnection
  rw [if_neg hvalue]
  refine ⟨_, rfl, ?_, ?_⟩
  · split_ifs <;> exact ⟨hC, huri'⟩
  · split_ifs <;> exact Nat.lt_of_lt_of_le (by decide : 6 < 8) (Nat.le_add_right _ _)

theorem readtospace_ok (hstate : D.parseState = .readtospace) (hinv : HdrInv pre D)
    (hbound : D.rank ≤ bound) : StepsOk pre a b (htqpReadtospace D) bound := by
  obtain ⟨hR, hwords⟩ : Reading pre D ∧
      (D.queryWords < 3 ∨ D.queryFlags.host = true ∨ D.queryFlags.connection = true) := by
    unfold HdrInv at hinv
    simpa only [hstate] using hinv
  have hrank : D.rank = 8 + 2 * (3 - D.queryWords) := by
    unfold HtsData.rank
    rw [hstate]
  refine wordCase_ok (p := fun c => decide (32 < c)) (g := htqpWordEnd)
    (fun _ _ _ => rfl) ?_ ?_ hR ?_ (by simp [HtsData.halted, hstate]) (by omega) ?_
  · intro word k bs
    unfold hdrStep
    simp only [hstate]
  · intro c hc
    exact of_decide_eq_true hc
  · intro x word hR'
    unfold HdrInv
    simp only [hstate]
    exact ⟨hR', hwords⟩
  · intro x c cs word _ hR'
    obtain ⟨D', hend, hinv', hrank'⟩ := endWord_ok hR'.length hR'.2 hwords
    refine .stay (fun rest => ?_) hinv' (fun _ => lt_of_lt_of_le hrank' (hrank ▸ hbound))
    unfold htqpWordEnd
    rw [hend]
    rfl

/-! ## The machine -/

/-- Every case takes its bytes like the next one would. -/
theorem hdrStep_ok (hinv : HdrInv pre D) (hne : a ≠ []) (hgo : D.halted = false) :
    StepsOk pre a b (fun bs => hdrStep D bs) D.rank := by
  have hinv₀ := hinv
  unfold HdrInv at hinv₀
  cases hstate : D.parseState <;> simp only [hdrStep, HtsData.rank, hstate] at hinv₀ ⊢
  case start =>
    subst hinv₀
    refine readtospace_ok rfl ?_ (by decide : 14 ≤ 18)
    exact ⟨⟨⟨[], [], rfl, rfl, rfl, by simp⟩, le_rfl⟩, Or.inl (Nat.zero_lt_succ 2)⟩
  case readtospace => exact readtospace_ok hstate hinv (by simp [HtsData.rank, hstate])
  case readtocolon => exact readtocolon_ok hstate hinv (by decide)
  case readint => exact readint_ok hstate hinv₀ le_rfl
  case skipspc => exact skipspc_ok (Or.inl hstate) hinv (by simp [HtsData.rank, hstate])
  case skiptoeoln => exact skiptoeoln_ok hstate hinv₀ le_rfl
  case skipspctoeoln => exact skipspc_ok (Or.inr hstate) hinv (by simp [HtsData.rank, hstate])
  case eoln => exact eoln_ok hstate hinv₀ (Or.inl (by decide))
  case wantlf => exact wantlf_ok hstate hinv₀ (Or.inl le_rfl)
  case wantlastlf => exact wantlastlf_ok hinv₀ le_rfl hne
  case linestart => exact linestart_ok hstate hinv₀.1 hinv₀.2 le_rfl
  case fatal =>
    refine .stay (E := D.setError.goto .done) (fun _ => rfl) ?_ (fun _ => Nat.zero_lt_one)
    exact hinv₀.imp (fun hC => ⟨hC, Or.inl rfl⟩) (fun hlong => ⟨rfl, hlong⟩)
  case done => exact absurd hgo (by simp [HtsData.halted, hstate])

/-- **The cases obey the law of cuts**, where a machine that gave up a word counts as lost. -/
theorem hdrStep_law {content : Bytes} {Lost : HtsData → Prop}
    (hlong : ∀ pre D, pre <+: content → ¬ ShortRuns pre → D.parseState = .fatal → Lost D)
    (hkeep : ∀ D bs D' r, Lost D → D.halted = false → hdrStep D bs = some (D', r) → Lost D') :
    BlockMachine.CutLaw hdrStep HtsData.halted HdrInv Lost content HtsData.rank where
  lost := fun _ D bs D' r _ hlost hgo hstep => hkeep D bs D' r hlost hgo hstep
  step := by
    intro pre D a b hinv hne hgo hpre
    obtain ⟨D', x, r, rfl, hrun, hinv', hrank, hcut⟩ := hdrStep_ok (b := b) hinv hne hgo
    refine ⟨D', x, r, rfl, hrun, hinv', fun h => hrank h hne, ?_⟩
    rcases hcut with hsame | hused | ⟨hfatal, hruns⟩
    · exact Or.inl hsame
    · exact Or.inr (Or.inl hused)
    · refine Or.inr (Or.inr (hlong _ D' ?_ hruns hfatal))
      rw [List.append_assoc, ← List.append_assoc] at hpre
      exact (List.prefix_append _ _).trans hpre

theorem parse_fuel (bs : Bytes) (D : HtsData) :
    BlockMachine.work HtsData.rank 18 D bs ≤ 19 * (bs.length + 1) := by
  have hrank := D.rank_le
  unfold BlockMachine.work
  omega

/-- The bytes of a word that has not ended; `header_size` does not count them yet. -/
def HtsData.unfinishedWord (D : HtsData) : ℕ :=
  if D.parseState = .readtospace ∨ D.parseState = .readtocolon then D.wlen else 0

/-- In contents without a long run every byte that is taken is counted, in the header or in the
word, and the URI is inside the header. -/
theorem HdrInv.counted {pre : Bytes} {D : HtsData} (hinv : HdrInv pre D) (hshort : ShortRuns pre)
    (hstart : D.parseState ≠ .start) :
    pre.length = D.headerSize + D.unfinishedWord ∧ D.uriOffset + D.uriSize ≤ D.headerSize := by
  unfold HdrInv at hinv
  unfold HtsData.unfinishedWord
  cases hstate : D.parseState <;> simp only [hstate] at hinv ⊢
  case start => exact absurd hstate hstart
  case readtospace => exact ⟨hinv.1.length, hinv.1.2⟩
  case readtocolon => exact ⟨hinv.1.length, hinv.1.2⟩
  case skipspc => exact hinv.1
  case linestart => exact hinv.1
  case fatal => exact hinv.resolve_right (fun h => h.2 hshort)
  case done => exact (hinv.resolve_right (fun h => h.2.2 hshort)).1
  all_goals exact hinv

/-- **The cuts of a header do not matter.**  On contents without a long run of bytes above a
space, in any blocks, the machine comes to an end, no assertion fails, and all its data are those
of the contents in one block; `header_size` is the number of bytes that are used up, but for the
bytes of a word that has not ended, and the URI is inside. -/
theorem parseBlocks_cut {content : Bytes} (hshort : ShortRuns content) (D : HtsData)
    (blocks : List Bytes) (hblocks : blocks.flatten = content) :
    ∃ D' rest, parseBlocks (D.goto .start) blocks = some (D', rest) ∧
      parseBlocks (D.goto .start) [content] = some (D', rest) ∧
      (rest = [] ∨ D'.parseState = .done) ∧
      (content ≠ [] → content.length = D'.headerSize + D'.unfinishedWord + rest.length ∧
        D'.uriOffset + D'.uriSize ≤ D'.headerSize) := by
  have hlaw : BlockMachine.CutLaw hdrStep HtsData.halted HdrInv (fun _ => False) content
      HtsData.rank :=
    hdrStep_law (fun pre _ hpre hruns _ => hruns (hshort.of_prefix hpre)) (fun _ _ _ _ h _ _ => h)
  have hstart : HdrInv [] (D.goto .start) := rfl
  have hpre : [] ++ blocks.flatten <+: content := by
    rw [List.nil_append, hblocks]
  obtain ⟨D', x, rest, hx, hrun, hinv, hend, -, -⟩ :=
    BlockMachine.runBlocks_spec hlaw HtsData.rank_le parse_fuel blocks hstart hpre
  have hone : blocks.flatten = [content].flatten := by
    rw [hblocks, List.flatten_cons, List.flatten_nil, List.append_nil]
  have hsame := BlockMachine.runBlocks_eq hlaw (fun _ => id) HtsData.rank_le parse_fuel hone hstart
    hpre
  have hend' : rest = [] ∨ D'.parseState = .done :=
    hend.imp_right (fun h => of_decide_eq_true h)
  rw [hblocks] at hx
  rw [List.nil_append] at hinv
  have hshort' : ShortRuns x := hshort.of_prefix ⟨rest, hx.symm⟩
  refine ⟨D', rest, hrun, hsame.symm.trans hrun, hend', fun hne => ?_⟩
  have hbegun : D'.parseState ≠ .start := by
    intro hs
    unfold HdrInv at hinv
    simp only [hs] at hinv
    have hrest := hend'.resolve_right (by rw [hs]; decide)
    exact hne (hx.trans (by rw [hinv, hrest]; rfl))
  obtain ⟨hcount, huri⟩ := hinv.counted hshort' hbegun
  exact ⟨by rw [hx, List.length_append, hcount], huri⟩

/-- A request, and what the machine says of it in three pieces. -/
def statsRequest : Bytes := "GET /stats HTTP/1.1\r\n\r\nGET".toUTF8.toList

theorem parseBlocks_cut_statsRequest :
    ∃ D', parseBlocks (HtsData.goto newHtsData .start)
        [statsRequest.take 7, (statsRequest.drop 7).take 13, statsRequest.drop 20]
        = some (D', "GET".toUTF8.toList) ∧
      D'.parseState = .done ∧ D'.queryType = .get ∧ D'.httpVer = httpV11 ∧
      statsRequest.length = D'.headerSize + 3 ∧
      (statsRequest.drop D'.uriOffset).take D'.uriSize = "/stats".toUTF8.toList ∧
      D'.uriOffset + D'.uriSize ≤ D'.headerSize := by
  have hshort : ShortRuns statsRequest :=
    fun run hrun _ => hrun.length_le.trans (by decide +kernel)
  obtain ⟨D', rest, hrun, hone, -, hcount⟩ :=
    parseBlocks_cut hshort newHtsData [statsRequest.take 7, (statsRequest.drop 7).take 13,
      statsRequest.drop 20] (by decide +kernel)
  have hdata : (parseBlocks (HtsData.goto newHtsData .start) [statsRequest]).map (fun r =>
      (r.1.parseState, r.1.queryType, r.1.httpVer, r.1.unfinishedWord))
      = some (.done, .get, httpV11, 0) := by decide +kernel
  have htexts : (parseBlocks (HtsData.goto newHtsData .start) [statsRequest]).map (fun r =>
      ((statsRequest.drop r.1.uriOffset).take r.1.uriSize, r.2))
      = some ("/stats".toUTF8.toList, "GET".toUTF8.toList) := by decide +kernel
  rw [hone, Option.map_some, Option.some.injEq] at hdata htexts
  simp only [Prod.mk.injEq] at hdata htexts
  obtain ⟨hdone, hget, hver, hword⟩ := hdata
  obtain ⟨huri, rfl⟩ := htexts
  obtain ⟨hlength, hinside⟩ := hcount (by decide +kernel)
  rw [hword, Nat.add_zero, show "GET".toUTF8.toList.length = 3 by decide +kernel] at hlength
  exact ⟨D', hrun, hdone, hget, hver, hlength, huri, hinside⟩

/-- The bytes of the word `GE` are used up and not counted. -/
theorem parseBlocks_unfinished :
    ShortRuns "GE".toUTF8.toList ∧
      ∃ D', parseBlocks (HtsData.goto newHtsData .start) ["GE".toUTF8.toList] = some (D', []) ∧
        D'.queryFlags.error = false ∧ D'.parseState = .readtospace ∧
        ¬ "GE".toUTF8.toList.length = D'.headerSize := by
  refine ⟨fun run hrun _ => hrun.length_le.trans (by decide +kernel), ?_⟩
  have hvalue : (parseBlocks (HtsData.goto newHtsData .start) ["GE".toUTF8.toList]).map (fun r =>
      (r.1.queryFlags.error, r.1.parseState, r.1.headerSize, r.2))
      = some (false, .readtospace, 0, []) := by decide +kernel
  obtain ⟨⟨D', rest⟩, hrun, hvalue⟩ := Option.map_eq_some_iff.mp hvalue
  simp only [Prod.mk.injEq] at hvalue
  obtain ⟨herror, hstate, hsize, rfl⟩ := hvalue
  refine ⟨D', hrun, herror, hstate, ?_⟩
  rw [hsize]
  decide +kernel

end MtprotoProxy
