/-
# Requests that are well formed

`HttpRequest` is a request of HTTP/1.1: its first line, its fields and its body, whose length a
`Content-Length` field gives.  `HttpRequest.text` is what a client sends.

* `headEnds`: on the head of a request, with anything behind it, the machine of `HttpHeader`
  either finds an error or stops right behind the head with the type of the request and the
  length of its body.

A proof goes back from the end: `HeadEnds` of a state follows from `HeadEnds` of the next one.
-/
import MtprotoProxy.HttpHeader

namespace MtprotoProxy

open CLib

/-! ## Requests -/

def http11Text : Bytes := "HTTP/1.1".toUTF8.toList

def postText : Bytes := "POST".toUTF8.toList

def contentLengthText : Bytes := "content-length".toUTF8.toList

/-- A header field. -/
structure HttpField where
  name : Bytes
  value : Bytes
  deriving DecidableEq

namespace HttpField

variable (f : HttpField)

/-- The line of a field. -/
def line : Bytes := f.name ++ 58 :: (f.value ++ [13, 10])

/-- The name is `text` but for the case of its letters. -/
def Named (text : Bytes) : Prop := f.name.map toLower = text

instance (text : Bytes) : Decidable (f.Named text) := inferInstanceAs (Decidable (_ = _))

/-- No control characters and no colon in the name, and no end of line in the value. -/
structure WellFormed : Prop where
  name : ∀ c ∈ f.name, 32 < c ∧ c < 128 ∧ c ≠ 58
  value : ∀ c ∈ f.value, c ≠ 13 ∧ c ≠ 10

/-- A space or a tab. -/
def Blank (c : UInt8) : Prop := c = 32 ∨ c = 9

/-- The value is a number, with blanks around it. -/
def Counts (n : ℕ) : Prop :=
  ∃ before ds after, f.value = before ++ (ds ++ after) ∧ (∀ c ∈ before, Blank c) ∧
    (∀ c ∈ ds, isDigit c = true) ∧ ds ≠ [] ∧ (∀ c ∈ after, Blank c) ∧ decValue ds = n

end HttpField

/-- A request of HTTP/1.1. -/
structure HttpRequest where
  method : Bytes
  uri : Bytes
  fields : List HttpField
  body : Bytes
  deriving DecidableEq

namespace HttpRequest

variable (r : HttpRequest)

/-- The first line, the fields and the empty line. -/
def head : Bytes :=
  r.method ++ 32 :: (r.uri ++ 32 :: (http11Text ++ 13 :: 10 ::
    (r.fields.flatMap HttpField.line ++ [13, 10])))

def text : Bytes := r.head ++ r.body

/-- Words without blanks, and a `Content-Length` that is the length of the body; it is there in a
`POST` request and with every body. -/
structure WellFormed : Prop where
  method : ∀ c ∈ r.method, 32 < c
  uri : r.uri ≠ [] ∧ ∀ c ∈ r.uri, 32 < c
  fields : ∀ f ∈ r.fields, f.WellFormed
  contentLength : ∀ f ∈ r.fields, f.Named contentLengthText → f.Counts r.body.length
  counted : r.method = postText ∨ r.body ≠ [] → ∃ f ∈ r.fields, f.Named contentLengthText

/-- The `op` for a request. -/
def queryType : HttpQueryType :=
  if r.method = "GET".toUTF8.toList then .get
  else if r.method = "HEAD".toUTF8.toList then .head
  else if r.method = postText then .post
  else if r.method = "OPTIONS".toUTF8.toList then .options
  else .error

/-- `Content-Length`, or `-1`. -/
def dataSize : ℤ := if ∃ f ∈ r.fields, f.Named contentLengthText then r.body.length else -1

end HttpRequest

/-- What a client sends. -/
def requestStream (rs : List HttpRequest) : Bytes := rs.flatMap HttpRequest.text

/-! ## Going back from the end -/

/-- The machine halts with an error, or where `Q` holds. -/
def HeadEnds (Q : HtsData → Bytes → Prop) (D : HtsData) (bs : Bytes) : Prop :=
  BlockMachine.Ends hdrStep HtsData.halted (fun D r => D.queryFlags.error = true ∨ Q D r) D bs

/-- The machine halts so behind a case. -/
def HeadEndsOf (Q : HtsData → Bytes → Prop) (out : Option (HtsData × Bytes)) : Prop :=
  BlockMachine.EndsOf hdrStep HtsData.halted (fun D r => D.queryFlags.error = true ∨ Q D r) out

variable {Q : HtsData → Bytes → Prop} {D : HtsData} {bs : Bytes}

theorem headEnds_iff (hne : bs ≠ []) (hgo : D.parseState ≠ .done) :
    HeadEnds Q D bs ↔ HeadEndsOf Q (hdrStep D bs) :=
  BlockMachine.ends_iff hne (decide_eq_false hgo)

theorem HeadEnds.of_case (h : HeadEnds Q D bs) : HeadEndsOf Q (some (D, bs)) := ⟨D, bs, rfl, h⟩

/-- A fatal error is an error. -/
theorem headEnds_fatal (hstate : D.parseState = .fatal) (hne : bs ≠ []) : HeadEnds Q D bs := by
  rw [headEnds_iff hne (by rw [hstate]; decide)]
  have hstep : hdrStep D bs = some (D.setError.goto .done, bs) := by
    unfold hdrStep
    simp only [hstate]
  rw [hstep]
  exact HeadEnds.of_case (BlockMachine.ends_of_halted (decide_eq_true rfl) (Or.inl rfl))

/-! ## Words -/

/-- A word that is read from its start. -/
theorem foldl_pushChar (w : Bytes) (D : HtsData) (hlen : D.word.length = 16) :
    ∃ word, w.foldl HtsData.pushChar D = { D with word := word, wlen := D.wlen + w.length } ∧
      word.length = 16 ∧
      (D.wlen + w.length ≤ 15 → word.take (D.wlen + w.length) = D.word.take D.wlen ++ w) := by
  induction w generalizing D with
  | nil => exact ⟨D.word, rfl, hlen, fun _ => (List.append_nil _).symm⟩
  | cons c w ih =>
    have hlen' : (D.pushChar c).word.length = 16 := by
      show (if D.wlen < 15 then D.word.set D.wlen c else D.word).length = 16
      split_ifs
      · rw [List.length_set, hlen]
      · exact hlen
    obtain ⟨word, hfold, hword, htake⟩ := ih (D.pushChar c) hlen'
    have hwlen : (D.pushChar c).wlen + w.length = D.wlen + (c :: w).length := by
      show D.wlen + 1 + w.length = D.wlen + (w.length + 1)
      omega
    rw [hwlen] at hfold htake
    refine ⟨word, hfold, hword, ?_⟩
    intro hle
    rw [htake hle]
    have hlt : D.wlen < 15 := by
      rw [List.length_cons] at hle
      omega
    have hpush : (D.pushChar c).word = D.word.set D.wlen c := if_pos hlt
    show (D.pushChar c).word.take (D.wlen + 1) ++ w = D.word.take D.wlen ++ c :: w
    rw [hpush, List.take_add_one, List.take_set_of_le le_rfl, List.getElem?_set_self (by omega),
      List.append_assoc]
    rfl

/-- The word is `w`, as far as it can be told. -/
def IsWord (w : Bytes) (D : HtsData) : Prop :=
  D.wlen = w.length ∧ D.word.length = 16 ∧ (w.length ≤ 15 → D.word.take w.length = w)

theorem IsWord.wordIs {w text : Bytes} (h : IsWord w D) (htext : text.length ≤ 15) :
    D.wordIs text = decide (w = text) := by
  obtain ⟨hwlen, -, hword⟩ := h
  unfold HtsData.wordIs
  rw [hwlen]
  by_cases hlen : w.length = text.length
  · have htake := hword (hlen ▸ htext)
    rw [hlen] at htake
    rw [hlen, htake, beq_self_eq_true, Bool.true_and, Bool.eq_iff_iff, beq_iff_eq,
      decide_eq_true_iff]
  · have hne : w ≠ text := fun heq => hlen (heq ▸ rfl)
    rw [beq_false_of_ne hlen, Bool.false_and, decide_eq_false hne]

theorem IsWord.wordIsNocase {w text : Bytes} (h : IsWord w D) (htext : text.length ≤ 15) :
    D.wordIsNocase text = decide (w.map toLower = text) := by
  obtain ⟨hwlen, -, hword⟩ := h
  unfold HtsData.wordIsNocase startsNoCase
  rw [hwlen]
  by_cases hlen : w.length = text.length
  · have htake := hword (hlen ▸ htext)
    rw [hlen] at htake
    rw [hlen, htake, beq_self_eq_true, Bool.true_and, Bool.eq_iff_iff, beq_iff_eq,
      decide_eq_true_iff]
  · have hne : w.map toLower ≠ text := fun heq => hlen (by rw [← heq, List.length_map])
    rw [beq_false_of_ne hlen, Bool.false_and, decide_eq_false hne]

/-- A loop that reads the word `w`. -/
theorem readWord_word {ok : UInt8 → Bool} {w : Bytes} (hw : ∀ c ∈ w, ok c = true) {c : UInt8}
    (hc : ok c = false) (rest : Bytes) (hlen : D.word.length = 16) (hzero : D.wlen = 0) :
    ∃ word, readWord ok D (w ++ c :: rest) = ({ D with word := word, wlen := w.length }, c :: rest) ∧
      IsWord w { D with word := word, wlen := w.length } := by
  have hfold : ∀ (w : Bytes) (D : HtsData), (∀ c ∈ w, ok c = true) →
      readWord ok D (w ++ c :: rest) = (w.foldl HtsData.pushChar D, c :: rest) := by
    intro w
    induction w with
    | nil =>
      intro D _
      exact if_neg (by rw [hc]; exact Bool.false_ne_true)
    | cons d w ih =>
      intro D hall
      obtain ⟨hd, hrest⟩ := List.forall_mem_cons.mp hall
      exact (if_pos hd).trans (ih (D.pushChar d) hrest)
  obtain ⟨word, heq, hword, htake⟩ := foldl_pushChar w D hlen
  rw [hzero, Nat.zero_add] at heq htake
  refine ⟨word, ?_, rfl, hword, ?_⟩
  · rw [hfold w D hw, heq]
  · intro hle
    rw [htake hle]
    rfl

/-- A loop that skips `v`, unless the header gets too long. -/
theorem skipBytes_run {ok : UInt8 → Bool} {v : Bytes} (hv : ∀ c ∈ v, ok c = true) {c : UInt8}
    (hc : ok c = false) (rest : Bytes) :
    skipBytes ok D (v ++ c :: rest)
        = ({ D with headerSize := D.headerSize + v.length }, c :: rest) ∨
      ∃ k r, skipBytes ok D (v ++ c :: rest) = ({ D with headerSize := k }, r) ∧
        maxHttpHeaderSize ≤ k ∧ r ≠ [] := by
  induction v generalizing D with
  | nil => exact Or.inl (if_neg (fun h => absurd h.2 (by rw [hc]; exact Bool.false_ne_true)))
  | cons d v ih =>
    obtain ⟨hd, hrest⟩ := List.forall_mem_cons.mp hv
    by_cases hroom : D.headerSize < maxHttpHeaderSize
    · have hskip : skipBytes ok D (d :: v ++ c :: rest) = skipBytes ok D.step1 (v ++ c :: rest) :=
        if_pos ⟨hroom, hd⟩
      have hsize : D.step1.headerSize + v.length = D.headerSize + (d :: v).length := by
        show D.headerSize + 1 + v.length = D.headerSize + (v.length + 1)
        omega
      rw [hskip]
      rcases ih (D := D.step1) hrest with hall | ⟨k, r, hsome, hk, hr⟩
      · left
        rw [hall, hsize]
        rfl
      · exact Or.inr ⟨k, r, hsome, hk, hr⟩
    · refine Or.inr ⟨D.headerSize, d :: v ++ c :: rest, ?_, not_lt.mp hroom, List.cons_ne_nil _ _⟩
      exact if_neg (fun h => hroom h.1)

/-! ## The ends of lines -/

/-- A case that skips `v` first. -/
theorem headEndsOf_skip {p : UInt8 → Bool} {g : HtsData → Bytes → Option (HtsData × Bytes)}
    {v : Bytes} (hv : ∀ c ∈ v, p c = true) {c : UInt8} (hc : p c = false) (rest : Bytes)
    (h : HeadEndsOf Q (g { D with headerSize := D.headerSize + v.length } (c :: rest))) :
    HeadEndsOf Q (let (D', r) := skipBytes p D (v ++ c :: rest)
      if maxHttpHeaderSize ≤ D'.headerSize then some (D'.goto .fatal, r)
      else if r = [] then some (D', r) else g D' r) := by
  have hfatal : ∀ (D' : HtsData) r, r ≠ [] → HeadEndsOf Q (some (D'.goto .fatal, r)) :=
    fun D' r hr => HeadEnds.of_case (headEnds_fatal rfl hr)
  rcases skipBytes_run (D := D) hv hc rest with hall | ⟨k, r, hsome, hk, hr⟩
  · rw [hall]
    dsimp only
    by_cases hfull : maxHttpHeaderSize ≤ D.headerSize + v.length
    · rw [if_pos hfull]
      exact hfatal _ _ (List.cons_ne_nil c rest)
    · rw [if_neg hfull, if_neg (List.cons_ne_nil c rest)]
      exact h
  · rw [hsome]
    dsimp only
    rw [if_pos hk]
    exact hfatal _ _ hr

/-- The end of a line; behind a first line with an error the machine gives up. -/
theorem headEndsOf_eoln
    (hver : D.httpVer = httpV11 ∨ D.queryFlags.error = true ∧ D.queryWords + 1 < 8) (rest : Bytes)
    (h : ∀ words, 8 ≤ words → D.httpVer = httpV11 → HeadEndsOf Q (htqpLinestart
      (HtsData.goto { D with headerSize := D.headerSize + 2, queryWords := words } .linestart)
      rest)) :
    HeadEndsOf Q (htqpEoln D (13 :: 10 :: rest)) := by
  by_cases hfatal : D.queryWords + 1 < 8 ∧ D.queryFlags.error = true
  · have hcase : htqpEoln D (13 :: 10 :: rest)
        = some (HtsData.goto { D.step1.goto .wantlf with queryWords := 8 } .fatal, 10 :: rest) :=
      if_pos hfatal
    rw [hcase]
    exact HeadEnds.of_case (headEnds_fatal rfl (List.cons_ne_nil 10 rest))
  · have hver' : D.httpVer = httpV11 := hver.resolve_right (fun h => hfatal h.symm)
    have hnew : ¬ D.httpVer ≤ httpV09 := by
      rw [hver']
      decide
    have hcase : htqpEoln D (13 :: 10 :: rest) = htqpLinestart (HtsData.goto { D with
        headerSize := D.headerSize + 2
        queryWords := if D.queryWords + 1 < 8 then 8 else D.queryWords + 1 } .linestart) rest :=
      (if_neg hfatal).trans ((if_neg hnew).trans (if_neg (not_not.mpr rfl)))
    rw [hcase]
    refine h _ ?_ hver'
    split_ifs <;> omega

/-- The rest of a line that is skipped. -/
theorem headEndsOf_skiptoeoln
    (hver : D.httpVer = httpV11 ∨ D.queryFlags.error = true ∧ D.queryWords + 1 < 8) {v : Bytes}
    (hv : ∀ c ∈ v, c ≠ 13 ∧ c ≠ 10) (rest : Bytes)
    (h : ∀ words, 8 ≤ words → D.httpVer = httpV11 → HeadEndsOf Q (htqpLinestart
      (HtsData.goto { D with headerSize := D.headerSize + v.length + 2, queryWords := words }
        .linestart) rest)) :
    HeadEndsOf Q (htqpSkiptoeoln D (v ++ 13 :: 10 :: rest)) := by
  refine headEndsOf_skip (g := fun D => htqpEoln (D.goto .eoln)) ?_ (by decide) (10 :: rest) ?_
  · intro c hc
    simp [hv c hc]
  · exact headEndsOf_eoln (D := HtsData.goto { D with headerSize := D.headerSize + v.length } .eoln)
      hver rest h

/-! ## The lines of the fields -/

/-- What a loop takes of a value. -/
theorem exists_split (p : UInt8 → Bool) (v : Bytes) :
    ∃ b v', v = b ++ v' ∧ (∀ c ∈ b, p c = true) ∧ ∀ c ∈ v'.head?, p c = false := by
  induction v with
  | nil => exact ⟨[], [], rfl, by simp, by simp⟩
  | cons d v ih =>
    by_cases hd : p d = true
    · obtain ⟨b, v', rfl, hb, hv'⟩ := ih
      exact ⟨d :: b, v', rfl, List.forall_mem_cons.mpr ⟨hd, hb⟩, hv'⟩
    · refine ⟨[], d :: v, rfl, by simp, ?_⟩
      rintro c ⟨⟩
      exact Bool.eq_false_iff.mpr hd

/-- With `k` bytes behind the machine: an error was found, or the data are these, and no value is
waited for. -/
def Found (k : ℕ) (type : HttpQueryType) (size : ℤ) (D : HtsData) : Prop :=
  D.queryFlags.error = true ∨ D.headerSize = k ∧ D.queryType = type ∧ D.dataSize = size ∧
    D.queryFlags.host = false ∧ D.queryFlags.datasize = false ∧ D.queryFlags.connection = false

/-- The data at the start of a line. -/
structure AtLine (k : ℕ) (type : HttpQueryType) (size : ℤ) (D : HtsData) : Prop where
  state : D.parseState = .linestart
  ver : D.httpVer = httpV11
  words : 8 ≤ D.queryWords
  word : D.word.length = 16
  found : Found k type size D

variable {k : ℕ} {type : HttpQueryType} {size : ℤ}

/-- The next case goes on. -/
theorem headEndsOf_goto {state : HttpParseState} (hstate : state ≠ .done) (hne : bs ≠ [])
    (h : HeadEndsOf Q (hdrStep (D.goto state) bs)) : HeadEndsOf Q (some (D.goto state, bs)) :=
  HeadEnds.of_case ((headEnds_iff hne hstate).mpr h)

/-- The spaces are skipped next. -/
theorem headEndsOf_skipspc (hstate : D.parseState = .skipspc ∨ D.parseState = .skipspctoeoln)
    (hne : bs ≠ []) (h : HeadEndsOf Q (htqpSkipspc D bs)) : HeadEndsOf Q (some (D, bs)) := by
  have hdone : D.parseState ≠ .done := by
    rcases hstate with hs | hs <;> rw [hs] <;> decide
  have hstep : hdrStep D bs = htqpSkipspc D bs := by
    unfold hdrStep
    rcases hstate with hs | hs <;> simp only [hs]
  exact HeadEnds.of_case ((headEnds_iff hne hdone).mpr (hstep ▸ h))

/-- The rest of the line of a field. -/
theorem headEndsOf_skipLine (hver : D.httpVer = httpV11) (hword : D.word.length = 16)
    (hfound : Found k type size D) {v : Bytes} (hv : ∀ c ∈ v, c ≠ 13 ∧ c ≠ 10) (rest : Bytes)
    (h : ∀ D', AtLine (k + v.length + 2) type size D' → HeadEndsOf Q (htqpLinestart D' rest)) :
    HeadEndsOf Q (htqpSkiptoeoln D (v ++ 13 :: 10 :: rest)) := by
  refine headEndsOf_skiptoeoln (Or.inl hver) hv rest (fun words hwords _ => h _ ?_)
  refine ⟨rfl, hver, hwords, hword, hfound.imp_right ?_⟩
  rintro ⟨rfl, hdata⟩
  exact ⟨rfl, hdata⟩

/-- What stands behind a value: the end of the line, or the machine finds an error. -/
theorem headEndsOf_valueEnd (hstate : D.parseState = .skipspctoeoln) (hver : D.httpVer = httpV11)
    (hword : D.word.length = 16) (hfound : Found k type size D) {v : Bytes}
    (hv : ∀ c ∈ v, c ≠ 13 ∧ c ≠ 10) (rest : Bytes)
    (h : ∀ D', AtLine (k + v.length + 2) type size D' → HeadEndsOf Q (htqpLinestart D' rest)) :
    HeadEndsOf Q (htqpSkipspc D (v ++ 13 :: 10 :: rest)) := by
  obtain ⟨b, v', rfl, hb, hnext⟩ :=
    exists_split (fun c => c == 32 || (c == 9 && decide (8 ≤ D.queryWords))) v
  have hlen : k + (b ++ v').length + 2 = k + b.length + v'.length + 2 := by
    rw [List.length_append, ← Nat.add_assoc k]
  rw [hlen] at h
  rw [List.append_assoc]
  generalize hE : { D with headerSize := D.headerSize + b.length } = E
  have hE' : E.parseState = .skipspctoeoln ∧ E.httpVer = httpV11 ∧ E.word.length = 16 ∧
      Found (k + b.length) type size E := by
    rw [← hE]
    refine ⟨hstate, hver, hword, hfound.imp_right ?_⟩
    rintro ⟨rfl, hdata⟩
    exact ⟨rfl, hdata⟩
  obtain ⟨hstateE, hverE, hwordE, hfoundE⟩ := hE'
  have hend : ∀ cs, htqpSpaceEnd E cs = some (E.goto .eoln, cs) := fun cs => if_pos hstateE
  cases v' with
  | nil =>
    apply headEndsOf_skip (g := htqpSpaceEnd) hb (by simp) (10 :: rest)
    rw [hE, hend]
    apply headEndsOf_goto (by decide) (List.cons_ne_nil _ _)
    refine headEndsOf_eoln (D := E.goto .eoln) (Or.inl hverE) rest (fun words hwords _ => h _ ?_)
    refine ⟨rfl, hverE, hwords, hwordE, hfoundE.imp_right ?_⟩
    rintro ⟨hk, hdata⟩
    exact ⟨by rw [← hk]; rfl, hdata⟩
  | cons c cs =>
    apply headEndsOf_skip (g := htqpSpaceEnd) hb (hnext c rfl) (cs ++ 13 :: 10 :: rest)
    rw [hE, hend]
    apply headEndsOf_goto (by decide) (List.cons_ne_nil _ _)
    obtain ⟨hcr, hlf⟩ := hv c (List.mem_append_right b List.mem_cons_self)
    -- no end of a line: an error
    have hcase : htqpEoln (E.goto .eoln) (c :: (cs ++ 13 :: 10 :: rest))
        = htqpWantlf (E.goto .wantlf) (c :: (cs ++ 13 :: 10 :: rest)) := if_neg hcr
    have hnew : ¬ E.httpVer ≤ httpV09 := by
      rw [hverE]
      decide
    show HeadEndsOf Q (htqpEoln (E.goto .eoln) (c :: (cs ++ 13 :: 10 :: rest)))
    rw [hcase]
    by_cases hfatal : E.queryWords + 1 < 8 ∧ E.queryFlags.error = true
    · have hwantlf : htqpWantlf (E.goto .wantlf) (c :: (cs ++ 13 :: 10 :: rest))
          = some (HtsData.goto { E.goto .wantlf with queryWords := 8 } .fatal,
            c :: (cs ++ 13 :: 10 :: rest)) := if_pos hfatal
      rw [hwantlf]
      exact HeadEnds.of_case (headEnds_fatal rfl (List.cons_ne_nil _ _))
    · have hwantlf : htqpWantlf (E.goto .wantlf) (c :: (cs ++ 13 :: 10 :: rest))
          = some (HtsData.goto (HtsData.setError { E.goto .wantlf with
            queryWords := if E.queryWords + 1 < 8 then 8 else E.queryWords + 1 }) .skiptoeoln,
            c :: (cs ++ 13 :: 10 :: rest)) :=
        (if_neg hfatal).trans ((if_neg hnew).trans (if_pos hlf))
      rw [hwantlf]
      apply headEndsOf_goto (by decide) (List.cons_ne_nil _ _)
      refine headEndsOf_skipLine (v := c :: cs) ?_ ?_ ?_ ?_ rest h
      · exact hverE
      · exact hwordE
      · exact Or.inl rfl
      · exact fun d hd => hv d (List.mem_append_right b hd)

/-- A case that reads the word `w` first. -/
theorem headEndsOf_word {p : UInt8 → Bool} {g : HtsData → Bytes → Option (HtsData × Bytes)}
    {w : Bytes} (hw : ∀ c ∈ w, p c = true) {c : UInt8} (hc : p c = false) (rest : Bytes)
    (hword : D.word.length = 16) (hwlen : D.wlen = 0)
    (h : ∀ word, IsWord w { D with word := word, wlen := w.length } →
      HeadEndsOf Q (g { D with word := word, wlen := w.length } (c :: rest))) :
    HeadEndsOf Q (let (D', r) := readWord p D (w ++ c :: rest)
      if 4096 < D'.wlen then some (D'.goto .fatal, r)
      else if r = [] then some (D', r) else g D' r) := by
  obtain ⟨word, hread, hisWord⟩ := readWord_word hw hc rest hword hwlen
  rw [hread]
  dsimp only
  by_cases hlong : 4096 < w.length
  · rw [if_pos hlong]
    exact HeadEnds.of_case (headEnds_fatal rfl (List.cons_ne_nil c rest))
  · rw [if_neg hlong, if_neg (List.cons_ne_nil c rest)]
    exact h word hisWord

/-- The end of a word that is a value. -/
theorem endWord_value (hwords : 8 ≤ D.queryWords)
    (hvalue : D.queryFlags.host = true ∨ D.queryFlags.connection = true) :
    ∃ D' : HtsData, endWord D = some D' ∧ D'.parseState = .skipspctoeoln ∧
      D'.headerSize = D.headerSize ∧
      D'.wlen = D.wlen ∧ D'.httpVer = D.httpVer ∧ D'.word = D.word ∧
      D'.queryType = D.queryType ∧ D'.dataSize = D.dataSize ∧
      D'.queryFlags.error = D.queryFlags.error ∧ D'.queryFlags.datasize = D.queryFlags.datasize ∧
      D'.queryFlags.host = false ∧ D'.queryFlags.connection = false := by
  have hsome : ¬ (¬ D.queryFlags.host = true ∧ ¬ D.queryFlags.connection = true) := by
    tauto
  unfold endWord
  dsimp only [HtsData.goto]
  rw [if_neg (by omega), if_neg (by omega), if_neg (by omega), if_neg hsome]
  refine ⟨_, rfl, rfl, ?_⟩
  split_ifs <;> exact ⟨rfl, rfl, rfl, rfl, rfl, rfl, rfl, rfl, rfl, rfl⟩

/-- A value that is a word: a host, or what the connection is to be. -/
theorem headEndsOf_wordValue (hver : D.httpVer = httpV11) (hwords : 8 ≤ D.queryWords)
    (hword : D.word.length = 16) (hwlen : D.wlen = 0)
    (hvalue : D.queryFlags.host = true ∨ D.queryFlags.connection = true)
    (hfound : D.queryFlags.error = true ∨ D.headerSize = k ∧ D.queryType = type ∧
      D.dataSize = size ∧ D.queryFlags.datasize = false) {v : Bytes}
    (hv : ∀ c ∈ v, c ≠ 13 ∧ c ≠ 10) (rest : Bytes)
    (h : ∀ D', AtLine (k + v.length + 2) type size D' → HeadEndsOf Q (htqpLinestart D' rest)) :
    HeadEndsOf Q (htqpReadtospace D (v ++ 13 :: 10 :: rest)) := by
  obtain ⟨w, v', rfl, hw, hnext⟩ := exists_split (fun c => decide (32 < c)) v
  have hlen : k + (w ++ v').length + 2 = k + w.length + v'.length + 2 := by
    rw [List.length_append, ← Nat.add_assoc k]
  rw [hlen] at h
  obtain ⟨c, cs, hcs, hc⟩ : ∃ c cs, v' ++ 13 :: 10 :: rest = c :: cs ∧ decide (32 < c) = false := by
    cases v' with
    | nil => exact ⟨13, 10 :: rest, rfl, by decide⟩
    | cons c cs => exact ⟨c, cs ++ 13 :: 10 :: rest, rfl, hnext c rfl⟩
  rw [List.append_assoc, hcs]
  refine headEndsOf_word (g := htqpWordEnd) hw hc cs hword hwlen (fun word hisWord => ?_)
  obtain ⟨E, hend, hstateE, hsize, hwlenE, hverE, hwordE, htypeE, hdataE, herrorE, hdatasizeE, hhost, hconn⟩ :=
    endWord_value (D := { D with word := word, wlen := w.length }) hwords hvalue
  unfold htqpWordEnd
  rw [hend]
  refine headEndsOf_skipspc (D := { E with headerSize := E.headerSize + E.wlen }) (Or.inr hstateE)
    (List.cons_ne_nil c cs) ?_
  rw [← hcs]
  refine headEndsOf_valueEnd (D := { E with headerSize := E.headerSize + E.wlen }) hstateE
    (hverE.trans hver) ?_ ?_
    (fun d hd => hv d (List.mem_append_right w hd)) rest h
  · show E.word.length = 16
    rw [hwordE]
    exact hisWord.2.1
  · show E.queryFlags.error = true ∨ _
    rw [herrorE]
    apply hfound.imp_right
    rintro ⟨rfl, rfl, rfl, hdatasize⟩
    refine ⟨?_, htypeE, hdataE, hhost, hdatasizeE.trans hdatasize, hconn⟩
    show E.headerSize + E.wlen = D.headerSize + w.length
    rw [hsize, hwlenE]

/-- The digits of a number, unless they are too many. -/
theorem readDigits_run {ds : Bytes} (hds : ∀ c ∈ ds, isDigit c = true) {c : UInt8}
    (hc : isDigit c = false) (rest : Bytes) (tt : ℕ) {D : HtsData}
    (hD : D.queryFlags.datasize = false ∨ ds ≠ []) :
    readDigits tt D (ds ++ c :: rest)
        = (((ds.foldl (fun acc d => acc * 10 + (d.toNat - 48)) tt : ℕ) : ℤ), { D with
          headerSize := D.headerSize + ds.length
          queryFlags := { D.queryFlags with datasize := false } }, c :: rest) ∨
      ∃ tt' E ds', readDigits tt D (ds ++ c :: rest) = (tt', E, ds' ++ c :: rest) ∧
        E.queryFlags.error = true ∧ E.httpVer = D.httpVer ∧ E.word = D.word ∧
        (∀ d ∈ ds', isDigit d = true) ∧ ds'.length ≤ ds.length := by
  induction ds generalizing D tt with
  | nil =>
    left
    have hflag := hD.resolve_right (fun h => h rfl)
    have hstop : readDigits tt D (c :: rest) = ((tt : ℤ), D, c :: rest) :=
      if_neg (Bool.eq_false_iff.mp hc)
    apply hstop.trans
    show ((tt : ℤ), D, c :: rest) = ((tt : ℤ), { D with
      queryFlags := { D.queryFlags with datasize := false } }, c :: rest)
    rw [← hflag]
  | cons d ds ih =>
    obtain ⟨hd, hrest⟩ := List.forall_mem_cons.mp hds
    by_cases hbig : (0x7fffffff : ℤ) / 10 ≤ tt
    · right
      refine ⟨tt, D.setError.goto .skiptoeoln, d :: ds, ?_, rfl, rfl, rfl, hds, le_rfl⟩
      exact (if_pos hd).trans (if_pos hbig)
    · have h48 : 48 ≤ d.toNat := by
        have hall : ∀ d : UInt8, isDigit d = true → 48 ≤ d.toNat := by decide +kernel
        exact hall d hd
      have hread : readDigits tt D (d :: ds ++ c :: rest)
          = readDigits ((tt * 10 + (d.toNat - 48) : ℕ) : ℤ)
            { D.step1 with queryFlags := { D.queryFlags with datasize := false } }
            (ds ++ c :: rest) := by
        refine (if_pos hd).trans ((if_neg hbig).trans ?_)
        congr 1
        push_cast [h48]
        ring
      rw [hread]
      have hflag : HtsData.queryFlags { D.step1 with
          queryFlags := { D.queryFlags with datasize := false } } =
          { D.queryFlags with datasize := false } := rfl
      rcases ih hrest (tt * 10 + (d.toNat - 48)) (Or.inl (by rw [hflag])) with hall |
        ⟨tt', E, ds', hE, herror, hver, hword, hds', hle⟩
      · left
        rw [hall, List.length_cons, Nat.add_comm ds.length, ← Nat.add_assoc]
        rfl
      · exact Or.inr ⟨tt', E, ds', hE, herror, hver, hword, hds', hle.trans (Nat.le_succ _)⟩

/-- A number. -/
theorem headEndsOf_readint (hver : D.httpVer = httpV11)
    (hword : D.word.length = 16) (hzero : D.dataSize = 0)
    (hfound : D.headerSize = k ∧ D.queryType = type ∧ D.queryFlags.host = false ∧
      D.queryFlags.connection = false) {ds after : Bytes}
    (hds : ∀ c ∈ ds, isDigit c = true) (hne : ds ≠ [])
    (hafter : ∀ c ∈ after, HttpField.Blank c) (rest : Bytes)
    (h : ∀ D', AtLine (k + (ds ++ after).length + 2) type (decValue ds) D' →
      HeadEndsOf Q (htqpLinestart D' rest)) :
    HeadEndsOf Q (htqpReadint D (ds ++ (after ++ 13 :: 10 :: rest))) := by
  have hlen : k + (ds ++ after).length + 2 = k + ds.length + after.length + 2 := by
    rw [List.length_append, ← Nat.add_assoc k]
  rw [hlen] at h
  have hafter' : ∀ c ∈ after, c ≠ 13 ∧ c ≠ 10 := by
    intro c hc
    rcases hafter c hc with rfl | rfl <;> decide
  obtain ⟨c, cs, hcs, hc⟩ : ∃ c cs, after ++ 13 :: 10 :: rest = c :: cs ∧ isDigit c = false := by
    cases after with
    | nil => exact ⟨13, 10 :: rest, rfl, by decide⟩
    | cons c cs =>
      refine ⟨c, cs ++ 13 :: 10 :: rest, rfl, ?_⟩
      rcases hafter c List.mem_cons_self with rfl | rfl <;> decide
  rw [hcs]
  unfold htqpReadint
  rw [hzero]
  rcases readDigits_run hds hc cs 0 (D := D) (Or.inr hne) with hall |
    ⟨tt', E, ds', hE, herror, hverE, hwordE, hds', hle⟩
  · rw [Nat.cast_zero] at hall
    rw [hall]
    dsimp only
    rw [if_neg (List.cons_ne_nil c cs), if_neg Bool.false_ne_true]
    apply headEndsOf_goto (by decide) (List.cons_ne_nil _ _)
    rw [← hcs]
    refine headEndsOf_valueEnd ?_ ?_ ?_ ?_ hafter' rest h
    · rfl
    · exact hver
    · exact hword
    · obtain ⟨rfl, rfl, hhost, hconn⟩ := hfound
      exact Or.inr ⟨rfl, rfl, rfl, hhost, rfl, hconn⟩
  · -- the rest of the line is skipped, with an error
    rw [Nat.cast_zero] at hE
    have hline : ds' ++ c :: cs = (ds' ++ after) ++ 13 :: 10 :: rest := by
      rw [List.append_assoc, hcs]
    have hends : ∀ d ∈ ds' ++ after, d ≠ 13 ∧ d ≠ 10 := by
      have hall : ∀ d : UInt8, isDigit d = true → d ≠ 13 ∧ d ≠ 10 := by decide +kernel
      exact List.forall_mem_append.mpr ⟨fun d hd => hall d (hds' d hd), hafter'⟩
    have hk : k + ds.length + after.length + 2
        = k + (ds.length - ds'.length) + (ds' ++ after).length + 2 := by
      rw [List.length_append]
      omega
    rw [hk] at h
    rw [hE]
    dsimp only
    rw [if_neg (List.append_ne_nil_of_right_ne_nil ds' (List.cons_ne_nil c cs)), hline]
    have hne' : (ds' ++ after) ++ 13 :: 10 :: rest ≠ [] :=
      List.append_ne_nil_of_right_ne_nil _ (List.cons_ne_nil _ _)
    split_ifs
    · apply headEndsOf_goto (by decide) hne'
      refine headEndsOf_skipLine ?_ ?_ (Or.inl ?_) hends rest h
      · exact hverE.trans hver
      · exact (congrArg List.length hwordE).trans hword
      · rfl
    · apply headEndsOf_goto (by decide) hne'
      refine headEndsOf_valueEnd ?_ ?_ ?_ (Or.inl ?_) hends rest h
      · rfl
      · exact hverE.trans hver
      · exact (congrArg List.length hwordE).trans hword
      · exact herror

/-- What stands behind the name of a field. -/
theorem headEndsOf_value (hstate : D.parseState = .skipspc) (hver : D.httpVer = httpV11)
    (hwords : 8 ≤ D.queryWords) (hword : D.word.length = 16)
    {n : ℕ} {f : HttpField} (hf : ∀ c ∈ f.value, c ≠ 13 ∧ c ≠ 10)
    (hflags : D.queryFlags.datasize = true →
      D.queryFlags.host = false ∧ D.queryFlags.connection = false ∧ f.Counts n) (rest : Bytes)
    (h : ∀ D', AtLine (D.headerSize + f.value.length + 2) D.queryType
      (if D.queryFlags.datasize then n else D.dataSize) D' →
      HeadEndsOf Q (htqpLinestart D' rest)) :
    HeadEndsOf Q (htqpSkipspc D (f.value ++ 13 :: 10 :: rest)) := by
  have hspc : D.parseState ≠ .skipspctoeoln := by
    rw [hstate]
    decide
  have hthree : ¬ D.queryWords < 3 := by omega
  have hfour : ¬ D.queryWords < 4 := by omega
  by_cases hdata : D.queryFlags.datasize = true
  · obtain ⟨hhost, hconn, before, ds, after, hvalue, hbefore, hds, hne, hafter, rfl⟩ := hflags hdata
    obtain ⟨d, ds', hd⟩ := List.exists_cons_of_ne_nil hne
    have hblank : (d == 32 || (d == 9 && decide (8 ≤ D.queryWords))) = false := by
      have hall : ∀ d : UInt8, isDigit d = true → d ≠ 32 ∧ d ≠ 9 := by decide +kernel
      have hdigit := hall d (hds d (hd ▸ List.mem_cons_self))
      simp [hdigit]
    have hbefore' : ∀ c ∈ before, (c == 32 || (c == 9 && decide (8 ≤ D.queryWords))) = true := by
      intro c hc
      rcases hbefore c hc with rfl | rfl
      · rfl
      · simp [hwords]
    have hline : f.value ++ 13 :: 10 :: rest
        = before ++ (ds ++ (after ++ 13 :: 10 :: rest)) := by
      rw [hvalue, List.append_assoc, List.append_assoc]
    have hlen : D.headerSize + f.value.length + 2
        = D.headerSize + before.length + (ds ++ after).length + 2 := by
      rw [hvalue, List.length_append, ← Nat.add_assoc]
    rw [hlen, if_pos hdata] at h
    have hcons : ds ++ (after ++ 13 :: 10 :: rest)
        = d :: (ds' ++ (after ++ 13 :: 10 :: rest)) := by
      rw [hd]
      rfl
    rw [hline, hcons]
    apply headEndsOf_skip (g := htqpSpaceEnd) hbefore' hblank _
    unfold htqpSpaceEnd
    dsimp only
    rw [if_neg hspc, if_neg hthree, if_neg hfour, if_pos hdata]
    split_ifs with hsecond
    · apply headEndsOf_goto (by decide) (List.cons_ne_nil _ _)
      rw [← hcons, ← List.append_assoc]
      refine headEndsOf_skipLine ?_ ?_ (Or.inl ?_) ?_ rest h
      · exact hver
      · exact hword
      · rfl
      · exact fun c hc => hf c (hvalue ▸ List.mem_append_right before hc)
    · apply headEndsOf_goto (by decide) (List.cons_ne_nil _ _)
      rw [← hcons]
      refine headEndsOf_readint ?_ ?_ ?_ ?_ hds hne hafter rest h
      · exact hver
      · exact hword
      · rfl
      · exact ⟨rfl, rfl, hhost, hconn⟩
  · obtain ⟨b, v', hvalue, hb, hnext⟩ :=
      exists_split (fun c => c == 32 || (c == 9 && decide (8 ≤ D.queryWords))) f.value
    have hv' : ∀ c ∈ v', c ≠ 13 ∧ c ≠ 10 :=
      fun c hc => hf c (hvalue ▸ List.mem_append_right b hc)
    have hlen : D.headerSize + f.value.length + 2 = D.headerSize + b.length + v'.length + 2 := by
      rw [hvalue, List.length_append, ← Nat.add_assoc]
    obtain ⟨c, cs, hcs, hc⟩ : ∃ c cs, v' ++ 13 :: 10 :: rest = c :: cs ∧
        (c == 32 || (c == 9 && decide (8 ≤ D.queryWords))) = false := by
      cases v' with
      | nil => exact ⟨13, 10 :: rest, rfl, by simp⟩
      | cons c cs => exact ⟨c, cs ++ 13 :: 10 :: rest, rfl, hnext c rfl⟩
    rw [hlen, if_neg hdata] at h
    rw [Bool.not_eq_true] at hdata
    rw [hvalue, List.append_assoc, hcs]
    apply headEndsOf_skip (g := htqpSpaceEnd) hb hc cs
    unfold htqpSpaceEnd
    dsimp only
    rw [if_neg hspc, if_neg hthree, if_neg hfour, hdata, if_neg Bool.false_ne_true]
    split_ifs with hvalued
    · apply headEndsOf_goto (by decide) (List.cons_ne_nil _ _)
      rw [← hcs]
      refine headEndsOf_wordValue ?_ ?_ ?_ ?_ ?_ (Or.inr ?_) hv' rest h
      · exact hver
      · exact hwords
      · exact hword
      · rfl
      · exact hvalued
      · exact ⟨rfl, rfl, rfl, hdata⟩
    · apply headEndsOf_goto (by decide) (List.cons_ne_nil _ _)
      rw [← hcs]
      rw [not_or, Bool.not_eq_true, Bool.not_eq_true] at hvalued
      refine headEndsOf_skipLine ?_ ?_ (Or.inr ?_) hv' rest h
      · exact hver
      · exact hword
      · exact ⟨rfl, rfl, rfl, hvalued.1, hdata, hvalued.2⟩

/-- What the name of a field says. -/
theorem fieldFlags_isWord {w : Bytes} (h : IsWord w D) (hflags : D.queryFlags.host = false ∧
      D.queryFlags.datasize = false ∧ D.queryFlags.connection = false) :
    (fieldFlags D).error = D.queryFlags.error ∧
      ((fieldFlags D).datasize = true ↔ w.map toLower = contentLengthText) ∧
      ((fieldFlags D).datasize = true →
        (fieldFlags D).host = false ∧ (fieldFlags D).connection = false) := by
  obtain ⟨hhost, hdatasize, hconn⟩ := hflags
  have hne : "host".toUTF8.toList ≠ contentLengthText ∧
      "connection".toUTF8.toList ≠ contentLengthText := by
    decide +kernel
  have hno : ¬ D.queryFlags.datasize = true := Bool.eq_false_iff.mp hdatasize
  unfold fieldFlags
  rw [h.wordIsNocase (by decide +kernel), h.wordIsNocase (by decide +kernel),
    h.wordIsNocase (by decide +kernel)]
  simp only [decide_eq_true_eq]
  by_cases h₁ : w.map toLower = "host".toUTF8.toList
  · rw [if_pos h₁, h₁]
    exact ⟨rfl, iff_of_false hno hne.1, fun hd => absurd hd hno⟩
  by_cases h₂ : w.map toLower = "connection".toUTF8.toList
  · rw [if_neg h₁, if_pos h₂, h₂]
    exact ⟨rfl, iff_of_false hno hne.2, fun hd => absurd hd hno⟩
  by_cases h₃ : w.map toLower = "content-length".toUTF8.toList
  · rw [if_neg h₁, if_neg h₂, if_pos h₃]
    exact ⟨rfl, iff_of_true rfl h₃, fun _ => ⟨hhost, hconn⟩⟩
  · rw [if_neg h₁, if_neg h₂, if_neg h₃]
    exact ⟨rfl, iff_of_false Bool.false_ne_true h₃, fun hd => absurd hd Bool.false_ne_true⟩

/-- **The line of a field.** -/
theorem headEndsOf_line {n : ℕ} {f : HttpField} (hf : f.WellFormed)
    (hcounts : f.Named contentLengthText → f.Counts n) (hD : AtLine k type size D) (rest : Bytes)
    (h : ∀ D', AtLine (k + f.line.length) type (if f.Named contentLengthText then n else size) D' →
      HeadEndsOf Q (htqpLinestart D' rest)) :
    HeadEndsOf Q (htqpLinestart D (f.line ++ rest)) := by
  obtain ⟨hstate, hver, hwords, hword, hfound⟩ := hD
  have hlen : k + f.line.length = k + (f.name ++ 58 :: f.value).length + 2 := by
    unfold HttpField.line
    simp only [List.length_append, List.length_cons, List.length_nil]
    omega
  have htext : f.line ++ rest = (f.name ++ 58 :: f.value) ++ 13 :: 10 :: rest := by
    unfold HttpField.line
    simp only [List.append_assoc, List.cons_append, List.nil_append]
  have hnoend : ∀ c ∈ f.name ++ 58 :: f.value, c ≠ 13 ∧ c ≠ 10 := by
    intro c hc
    rw [List.mem_append, List.mem_cons] at hc
    rcases hc with hname | rfl | hvalue
    · have hc := (hf.name c hname).1
      constructor <;> rintro rfl <;> exact absurd hc (by decide)
    · decide
    · exact hf.value c hvalue
  obtain ⟨c, cs, hcs⟩ : ∃ c cs, f.name ++ 58 :: f.value = c :: cs :=
    List.exists_cons_of_ne_nil (List.append_ne_nil_of_right_ne_nil _ (List.cons_ne_nil _ _))
  have hends := hnoend c (hcs ▸ List.mem_cons_self)
  rw [hlen] at h
  generalize hE : (if D.firstLineSize = 0 then { D with firstLineSize := D.headerSize } else D) = E
  have hE' : E.httpVer = httpV11 ∧ 8 ≤ E.queryWords ∧ E.word.length = 16 ∧
      Found k type size E := by
    rw [← hE]
    split_ifs <;> exact ⟨hver, hwords, hword, hfound⟩
  obtain ⟨hverE, hwordsE, hwordE, hfoundE⟩ := hE'
  by_cases herror : E.queryFlags.error = true
  · have hcase : htqpLinestart D (c :: (cs ++ 13 :: 10 :: rest))
        = some (E.goto .skiptoeoln, c :: (cs ++ 13 :: 10 :: rest)) := by
      simp only [htqpLinestart, hE, if_neg hends.1, if_neg hends.2, if_pos herror]
    rw [htext, hcs, List.cons_append, hcase]
    apply headEndsOf_goto (by decide) (List.cons_ne_nil _ _)
    rw [← List.cons_append, ← hcs]
    refine headEndsOf_skipLine ?_ ?_ (Or.inl ?_) hnoend rest h
    · exact hverE
    · exact hwordE
    · exact herror
  · have hcase : htqpLinestart D (c :: (cs ++ 13 :: 10 :: rest))
        = some (HtsData.goto { E with wlen := 0 } .readtocolon,
          c :: (cs ++ 13 :: 10 :: rest)) := by
      simp only [htqpLinestart, hE, if_neg hends.1, if_neg hends.2, if_neg herror]
    obtain ⟨rfl, rfl, rfl, hflags⟩ := hfoundE.resolve_left herror
    rw [htext, hcs, List.cons_append, hcase]
    apply headEndsOf_goto (by decide) (List.cons_ne_nil _ _)
    rw [← List.cons_append, ← hcs, List.append_assoc, List.cons_append]
    have hname : ∀ c ∈ f.name, (c != 58 && decide (32 < c ∧ c < 128)) = true := by
      intro c hc
      obtain ⟨hlow, hhigh, hcolon⟩ := hf.name c hc
      simp [hlow, hhigh, hcolon]
    refine headEndsOf_word (g := htqpNameEnd) hname (by decide) _ hwordE rfl
      (fun word hisWord => ?_)
    obtain ⟨-, hnamed, halone⟩ := fieldFlags_isWord hisWord hflags
    refine headEndsOf_goto (D := { E with
        word := word
        wlen := f.name.length
        queryFlags := fieldFlags { E with word := word, wlen := f.name.length }
        headerSize := E.headerSize + f.name.length + 1 })
      (by decide : HttpParseState.skipspc ≠ .done)
      (List.append_ne_nil_of_right_ne_nil _ (List.cons_ne_nil _ _)) ?_
    have hk' : E.headerSize + f.name.length + 1 + f.value.length + 2
        = E.headerSize + (f.name ++ 58 :: f.value).length + 2 := by
      rw [List.length_append, List.length_cons]
      omega
    rw [← hk'] at h
    refine headEndsOf_value (n := n) ?_ ?_ ?_ ?_ hf.value ?_ rest ?_
    · rfl
    · exact hverE
    · exact hwordsE
    · exact hisWord.2.1
    · exact fun hdata => ⟨(halone hdata).1, (halone hdata).2, hcounts (hnamed.mp hdata)⟩
    · intro D' hD'
      have hnamed' : f.Named contentLengthText ↔ _ := hnamed.symm
      apply h D'
      rw [if_congr hnamed' rfl rfl]
      exact hD'

/-- The fields and the empty line. -/
theorem headEndsOf_fields {n : ℕ} {fields : List HttpField} (hf : ∀ f ∈ fields, f.WellFormed)
    (hcounts : ∀ f ∈ fields, f.Named contentLengthText → f.Counts n) (hD : AtLine k type size D)
    (rest : Bytes)
    (hQ : ∀ D', D'.headerSize = k + (fields.flatMap HttpField.line).length + 2 →
      D'.queryType = type →
      D'.dataSize = (if ∃ f ∈ fields, f.Named contentLengthText then (n : ℤ) else size) → Q D' rest) :
    HeadEndsOf Q (htqpLinestart D (fields.flatMap HttpField.line ++ 13 :: 10 :: rest)) := by
  induction fields generalizing D k size with
  | nil =>
    obtain ⟨-, -, -, -, hfound⟩ := hD
    generalize hE : (if D.firstLineSize = 0 then { D with firstLineSize := D.headerSize } else D)
      = E
    have hfoundE : Found k type size E := by
      rw [← hE]
      split_ifs <;> exact hfound
    have hcase : htqpLinestart D (13 :: 10 :: rest) = some (E.step1.goto .wantlastlf, 10 :: rest) := by
      simp only [htqpLinestart, hE, if_true]
    have hlast : htqpWantlastlf (E.step1.goto .wantlastlf) (10 :: rest)
        = some (HtsData.goto (if E.firstLineSize = 0
            then { E.step1.step1.goto .wantlastlf with firstLineSize := E.headerSize + 2 }
            else E.step1.step1.goto .wantlastlf) .done, rest) := rfl
    rw [List.flatMap_nil, List.nil_append, hcase]
    apply headEndsOf_goto (by decide) (List.cons_ne_nil _ _)
    show HeadEndsOf Q (htqpWantlastlf (E.step1.goto .wantlastlf) (10 :: rest))
    rw [hlast]
    refine HeadEnds.of_case (BlockMachine.ends_of_halted (decide_eq_true rfl) ?_)
    rcases hfoundE with herror | ⟨rfl, rfl, rfl, -⟩
    · left
      split_ifs <;> exact herror
    · right
      refine hQ _ ?_ ?_ ?_
      · split_ifs <;> rfl
      · split_ifs <;> rfl
      · have hnone : ¬ ∃ f ∈ ([] : List HttpField), f.Named contentLengthText := by simp
        rw [if_neg hnone]
        split_ifs <;> rfl
  | cons f fields ih =>
    obtain ⟨hwf, hwfs⟩ := List.forall_mem_cons.mp hf
    obtain ⟨hc, hcs⟩ := List.forall_mem_cons.mp hcounts
    rw [List.flatMap_cons, List.append_assoc]
    refine headEndsOf_line hwf hc hD _ (fun D₁ hD₁ => ih hwfs hcs hD₁ ?_)
    intro D' hsize htype hdata
    refine hQ D' ?_ htype ?_
    · rw [hsize, List.flatMap_cons, List.length_append, Nat.add_assoc k]
    · rw [hdata]
      by_cases hnamed : f.Named contentLengthText
      · have hsome : ∃ g ∈ f :: fields, g.Named contentLengthText :=
          ⟨f, List.mem_cons_self, hnamed⟩
        rw [if_pos hsome, if_pos hnamed, ite_self]
      · have hsame : (∃ g ∈ f :: fields, g.Named contentLengthText) ↔
            ∃ g ∈ fields, g.Named contentLengthText := by
          simp [hnamed]
        rw [if_neg hnamed, if_congr hsame rfl rfl]

/-! ## The first line -/

/-- The data in the first line, behind some words of it. -/
structure FirstLine (words k : ℕ) (type : HttpQueryType) (D : HtsData) : Prop where
  state : D.parseState = .skipspc
  words : D.queryWords = words
  word : D.word.length = 16
  size : D.headerSize = k
  type : D.queryType = type
  data : D.dataSize = -1
  flags : D.queryFlags = ⟨false, false, false, false, false⟩

/-- A space and the next word. -/
theorem headEndsOf_nextWord {words : ℕ} (hD : FirstLine words k type D) (hfew : words < 3)
    {w : Bytes} (hne : w ≠ []) (hw : ∀ c ∈ w, 32 < c) {c : UInt8} (hc : decide (32 < c) = false)
    (rest : Bytes)
    (h : ∀ word, IsWord w { D with word := word, wlen := w.length } → HeadEndsOf Q
      (htqpWordEnd { D with
        headerSize := k + 1
        parseState := .readtospace
        word := word
        wlen := w.length } (c :: rest))) :
    HeadEndsOf Q (htqpSkipspc D (32 :: (w ++ c :: rest))) := by
  obtain ⟨hstate, hwords, hword, rfl, -⟩ := hD
  subst hwords
  obtain ⟨d, ds, rfl⟩ := List.exists_cons_of_ne_nil hne
  have hd : (d == 32 || (d == 9 && decide (8 ≤ D.queryWords))) = false := by
    have hd := hw d List.mem_cons_self
    have hne₁ : d ≠ 32 := fun heq => absurd hd (by rw [heq]; decide)
    have hne₂ : d ≠ 9 := fun heq => absurd hd (by rw [heq]; decide)
    simp [hne₁, hne₂]
  refine headEndsOf_skip (p := fun c => c == 32 || (c == 9 && decide (8 ≤ D.queryWords)))
    (g := htqpSpaceEnd) (v := [32]) (by simp) hd (ds ++ c :: rest) ?_
  have hspc : D.parseState ≠ .skipspctoeoln := by
    rw [hstate]
    decide
  have hcase : htqpSpaceEnd { D with headerSize := D.headerSize + [(32 : UInt8)].length }
      (d :: (ds ++ c :: rest)) = some (HtsData.goto { D with
        headerSize := D.headerSize + 1
        wlen := 0 } .readtospace, d :: (ds ++ c :: rest)) :=
    (if_neg hspc).trans (if_pos hfew)
  rw [hcase]
  apply headEndsOf_goto (by decide) (List.cons_ne_nil _ _)
  refine headEndsOf_word (p := fun c => decide (32 < c)) (g := htqpWordEnd) (w := d :: ds) ?_ hc
    rest ?_ ?_ ?_
  · exact fun e he => decide_eq_true (hw e he)
  · exact hword
  · rfl
  · exact h

/-- The type of the request is that of its first word. -/
theorem queryTypeOf_isWord {r : HttpRequest} (h : IsWord r.method D) :
    queryTypeOf D = r.queryType := by
  unfold queryTypeOf HttpRequest.queryType
  rw [h.wordIs (by decide +kernel), h.wordIs (by decide +kernel), h.wordIs (by decide +kernel),
    h.wordIs (by decide +kernel)]
  simp only [decide_eq_true_eq]
  rfl

/-- The first word. -/
theorem headEndsOf_method {r : HttpRequest} (hmethod : ∀ c ∈ r.method, 32 < c) {v : Bytes}
    (hv : ∀ c ∈ v, c ≠ 13 ∧ c ≠ 10) (rest : Bytes)
    (h : ∀ D', FirstLine 1 r.method.length r.queryType D' →
      HeadEndsOf Q (htqpSkipspc D' (32 :: (v ++ 13 :: 10 :: rest)))) :
    HeadEndsOf Q (htqpReadtospace (htqpStart D) (r.method ++ 32 :: (v ++ 13 :: 10 :: rest))) := by
  refine headEndsOf_word (D := htqpStart D) (g := htqpWordEnd)
    (fun c hc => decide_eq_true (hmethod c hc)) (by decide) _ rfl rfl (fun word hisWord => ?_)
  generalize hE : HtsData.goto { htqpStart D with
    word := word
    wlen := r.method.length
    queryWords := 1 } .skipspc = E
  have hisWord' : IsWord r.method E := by
    rw [← hE]
    exact hisWord
  have hend : endWord { htqpStart D with word := word, wlen := r.method.length }
      = if queryTypeOf E = .error
        then some (HtsData.goto (HtsData.setError { E with queryType := queryTypeOf E }) .skiptoeoln)
        else some { E with queryType := queryTypeOf E } := by
    rw [← hE]
    rfl
  have hsize : E.headerSize + E.wlen = r.method.length := by
    rw [← hE]
    exact Nat.zero_add _
  unfold htqpWordEnd
  rw [hend, queryTypeOf_isWord hisWord']
  by_cases herror : r.queryType = .error
  · rw [if_pos herror]
    refine headEndsOf_goto (D := { HtsData.setError { E with queryType := r.queryType } with
        headerSize := E.headerSize + E.wlen }) (by decide : HttpParseState.skiptoeoln ≠ .done)
      (List.cons_ne_nil _ _) ?_
    have hline : ∀ c ∈ 32 :: v, c ≠ 13 ∧ c ≠ 10 := List.forall_mem_cons.mpr ⟨by decide, hv⟩
    refine headEndsOf_skiptoeoln (v := 32 :: v) (Or.inr ⟨rfl, ?_⟩) hline rest ?_
    · rw [← hE]
      exact (by decide : 1 + 1 < 8)
    · -- the machine has given up before
      intro _ _ hver
      rw [← hE] at hver
      exact absurd hver (by decide : (0 : ℕ) ≠ httpV11)
  · rw [if_neg herror]
    have hspc : E.parseState = .skipspc := by
      rw [← hE]
      rfl
    refine headEndsOf_skipspc (D := { E with
        queryType := r.queryType
        headerSize := E.headerSize + E.wlen }) (Or.inl hspc) (List.cons_ne_nil _ _) (h _ ?_)
    refine ⟨hspc, ?_, hisWord'.2.1, hsize, rfl, ?_, ?_⟩ <;> rw [← hE] <;> rfl

theorem endWord_uri (hwords : D.queryWords = 1) (hlen : D.wlen ≠ 0) :
    endWord D = some (HtsData.goto { D with
      queryWords := 2
      uriOffset := D.headerSize
      uriSize := D.wlen } .skipspc) := by
  unfold endWord
  dsimp only [HtsData.goto]
  rw [hwords, if_neg (by decide), if_pos rfl, if_neg hlen]

theorem endWord_version (hwords : D.queryWords = 2) (hword : IsWord http11Text D) :
    endWord D = some (HtsData.goto { D with
      queryWords := 3
      httpVer := httpV11 } .skipspctoeoln) := by
  have hlen : D.wlen ≠ 0 := by
    rw [hword.1]
    decide +kernel
  have hver : httpVerOf { D with queryWords := 3, parseState := .skipspc } = some httpV11 := by
    have hword' : IsWord http11Text { D with queryWords := 3, parseState := .skipspc } := hword
    have hold : http11Text ≠ "HTTP/1.0".toUTF8.toList := by decide +kernel
    unfold httpVerOf
    rw [hword'.wordIs (by decide +kernel), hword'.wordIs (by decide +kernel), decide_eq_false hold]
    exact (if_neg hlen).trans ((if_neg Bool.false_ne_true).trans (if_pos (decide_eq_true rfl)))
  unfold endWord
  dsimp only [HtsData.goto]
  rw [hwords, if_neg (by decide), if_neg (by decide), if_pos rfl, hver]

/-- **The first line.** -/
theorem headEndsOf_firstLine {r : HttpRequest} (hr : r.WellFormed) (rest : Bytes)
    (h : ∀ D', AtLine (r.method ++ 32 :: (r.uri ++ 32 :: (http11Text ++ [13, 10]))).length
      r.queryType (-1) D' → HeadEndsOf Q (htqpLinestart D' rest)) :
    HeadEndsOf Q (htqpReadtospace (htqpStart D)
      (r.method ++ 32 :: (r.uri ++ 32 :: (http11Text ++ 13 :: 10 :: rest)))) := by
  have hversion : http11Text ≠ [] ∧ ∀ c ∈ http11Text, 32 < c := by decide +kernel
  have habove : ∀ c : UInt8, 32 < c → c ≠ 13 ∧ c ≠ 10 := by decide +kernel
  have hline : r.uri ++ 32 :: (http11Text ++ 13 :: 10 :: rest)
      = (r.uri ++ 32 :: http11Text) ++ 13 :: 10 :: rest := by
    simp only [List.append_assoc, List.cons_append]
  have hends : ∀ c ∈ r.uri ++ 32 :: http11Text, c ≠ 13 ∧ c ≠ 10 := by
    intro c hc
    rw [List.mem_append, List.mem_cons] at hc
    rcases hc with hc | rfl | hc
    · exact habove c (hr.uri.2 c hc)
    · decide
    · exact habove c (hversion.2 c hc)
  rw [hline]
  refine headEndsOf_method hr.method hends rest (fun D₁ hD₁ => ?_)
  rw [← hline]
  have hwords₁ := hD₁.words
  have htype₁ := hD₁.type
  have hdata₁ := hD₁.data
  have hflags₁ := hD₁.flags
  refine headEndsOf_nextWord hD₁ (by decide) hr.uri.1 hr.uri.2 (by decide) _ (fun word hword => ?_)
  unfold htqpWordEnd
  rw [endWord_uri]
  rotate_left
  · exact hwords₁
  · exact fun hlen => hr.uri.1 (List.length_eq_zero_iff.mp hlen)
  apply headEndsOf_skipspc (Or.inl rfl) (List.cons_ne_nil _ _)
  refine headEndsOf_nextWord
    (?_ : FirstLine 2 (r.method.length + 1 + r.uri.length) r.queryType _) (by decide)
    hversion.1 hversion.2 (by decide : decide ((32 : UInt8) < 13) = false) _
    (fun word' hword' => ?_)
  · exact ⟨rfl, rfl, hword.2.1, rfl, htype₁, hdata₁, hflags₁⟩
  unfold htqpWordEnd
  rw [endWord_version]
  rotate_left
  · rfl
  · exact hword'
  refine headEndsOf_skipspc (Or.inr rfl) (List.cons_ne_nil _ _) ?_
  have hlen : (r.method ++ 32 :: (r.uri ++ 32 :: (http11Text ++ [13, 10]))).length
      = r.method.length + 1 + r.uri.length + 1 + http11Text.length + ([] : Bytes).length + 2 := by
    simp only [List.length_append, List.length_cons, List.length_nil]
    omega
  rw [hlen] at h
  have hhost := congrArg HttpQueryFlags.host hflags₁
  have hdatasize := congrArg HttpQueryFlags.datasize hflags₁
  have hconn := congrArg HttpQueryFlags.connection hflags₁
  refine headEndsOf_valueEnd (v := []) ?_ ?_ ?_ (Or.inr ?_) (by simp) rest h
  · rfl
  · rfl
  · exact hword'.2.1
  · exact ⟨rfl, htype₁, hdata₁, hhost, hdatasize, hconn⟩

/-! ## The head -/

/-- The machine stops right behind the head of the request, and knows its type and the length of
its body. -/
def Heads (r : HttpRequest) (tail : Bytes) (D : HtsData) (rest : Bytes) : Prop :=
  rest = tail ∧ D.headerSize = r.head.length ∧ D.queryType = r.queryType ∧
    D.dataSize = r.dataSize

/-- **The head of a request**: the machine finds an error in it or stops right behind it. -/
theorem headEnds {r : HttpRequest} (hr : r.WellFormed) (D : HtsData) (tail : Bytes) :
    HeadEnds (Heads r tail) (D.goto .start) (r.head ++ tail) := by
  have hhead : r.head ++ tail = r.method ++ 32 :: (r.uri ++ 32 :: (http11Text ++ 13 :: 10 ::
      (r.fields.flatMap HttpField.line ++ 13 :: 10 :: tail))) := by
    unfold HttpRequest.head
    simp only [List.append_assoc, List.cons_append, List.nil_append]
  have hne : r.head ++ tail ≠ [] := by
    rw [hhead]
    exact List.append_ne_nil_of_right_ne_nil _ (List.cons_ne_nil _ _)
  rw [headEnds_iff hne (by decide : HttpParseState.start ≠ .done), hhead]
  refine headEndsOf_firstLine hr _ (fun D₁ hD₁ => ?_)
  refine headEndsOf_fields hr.fields hr.contentLength hD₁ tail (fun D' hsize htype hdata => ?_)
  refine ⟨rfl, ?_, htype, hdata⟩
  rw [hsize]
  unfold HttpRequest.head
  simp only [List.length_append, List.length_cons, List.length_nil]
  omega

/-! ## The head in blocks -/

/-- The machine has given up. -/
def GaveUp (D : HtsData) : Prop :=
  D.parseState = .fatal ∨ D.parseState = .done ∧ D.queryFlags.error = true

theorem hdrStep_fatal (h : D.parseState = .fatal) (bs : Bytes) :
    hdrStep D bs = some (D.setError.goto .done, bs) := by
  unfold hdrStep
  simp only [h]

theorem GaveUp.fatal (h : GaveUp D) (hgo : D.halted = false) : D.parseState = .fatal :=
  h.resolve_right (fun hdone => of_decide_eq_false hgo hdone.1)

theorem GaveUp.error (h : GaveUp D) (hdone : D.parseState = .done) : D.queryFlags.error = true := by
  rcases h with hfatal | ⟨-, herror⟩
  · rw [hdone] at hfatal
    exact absurd hfatal (by decide)
  · exact herror

/-- The law of cuts for a machine that may give up. -/
theorem hdrStep_law_gaveUp (content : Bytes) :
    BlockMachine.CutLaw hdrStep HtsData.halted HdrInv GaveUp content HtsData.rank := by
  refine hdrStep_law (fun _ _ _ _ hfatal => Or.inl hfatal) ?_
  intro D bs D' r hup hgo hstep
  rw [hdrStep_fatal (hup.fatal hgo)] at hstep
  rw [← (Prod.mk.inj (Option.some.inj hstep)).1]
  exact Or.inr ⟨rfl, rfl⟩

/-- The machine on any blocks. -/
theorem parseBlocks_spec (D : HtsData) (blocks : List Bytes) :
    ∃ D' rest, parseBlocks (D.goto .start) blocks = some (D', rest) ∧
      (D'.parseState = .done → D'.headerSize ≤ blocks.flatten.length ∧
        (D'.queryFlags.error = true ∨ 0 < D'.headerSize)) ∧
      (GaveUp D' ∨ ∃ m, BlockMachine.runBlock hdrStep HtsData.halted m (D.goto .start)
        blocks.flatten = some (D', rest)) := by
  have hstart : HdrInv [] (D.goto .start) := rfl
  have hpre : [] ++ blocks.flatten <+: blocks.flatten := List.prefix_rfl
  obtain ⟨D', x, rest, hx, hrun, hinv, -, -, hone⟩ :=
    BlockMachine.runBlocks_spec (hdrStep_law_gaveUp blocks.flatten) HtsData.rank_le parse_fuel
      blocks hstart hpre
  refine ⟨D', rest, hrun, ?_, hone⟩
  intro hdone
  unfold HdrInv at hinv
  simp only [hdone, List.nil_append] at hinv
  rw [hx, List.length_append]
  rcases hinv with ⟨⟨hsize, -⟩, hpos⟩ | ⟨herror, hsize, -⟩
  · exact ⟨by omega, hpos⟩
  · exact ⟨by omega, Or.inl herror⟩

/-- **The head of a request in blocks**, with anything behind it. -/
theorem parseBlocks_head {r : HttpRequest} (hr : r.WellFormed) (D : HtsData) {blocks : List Bytes}
    {tail : Bytes} (h : blocks.flatten = r.head ++ tail) :
    ∃ D' rest, parseBlocks (D.goto .start) blocks = some (D', rest) ∧ D'.parseState = .done ∧
      D'.headerSize ≤ blocks.flatten.length ∧
      (D'.queryFlags.error = true ∨ Heads r tail D' rest) := by
  have hends := headEnds hr D tail
  obtain ⟨D', rest, hrun, hsize, hone⟩ := parseBlocks_spec D blocks
  have hdead : ∀ s a, GaveUp s → s.halted = false → a ≠ [] →
      ∃ s' r, hdrStep s a = some (s', r) ∧ s'.halted = true := by
    intro s a hup hgo _
    exact ⟨_, _, hdrStep_fatal (hup.fatal hgo) a, decide_eq_true rfl⟩
  obtain ⟨n, D₁, r₁, hrun₁, hhalt₁, hends₁⟩ := hends
  rw [← h] at hrun₁
  have hstart : HdrInv [] (D.goto .start) := rfl
  have hpre : [] ++ blocks.flatten <+: blocks.flatten := List.prefix_rfl
  obtain ⟨D₂, r₂, hrun₂, hhalt₂⟩ :=
    BlockMachine.runBlocks_halts (hdrStep_law_gaveUp blocks.flatten) HtsData.rank_le parse_fuel
      (fun b => by omega) hdead blocks hstart hpre ⟨n, D₁, r₁, hrun₁, hhalt₁, trivial⟩
  obtain ⟨rfl, rfl⟩ := Prod.mk.inj (Option.some.inj (hrun.symm.trans hrun₂))
  have hdone : D'.parseState = .done := of_decide_eq_true hhalt₂
  refine ⟨D', rest, hrun, hdone, (hsize hdone).1, ?_⟩
  rcases hone with hup | ⟨m, hm⟩
  · exact Or.inl (hup.error hdone)
  · obtain ⟨rfl, rfl⟩ := Prod.mk.inj (BlockMachine.runBlock_unique hm hrun₁)
    exact hends₁

/-- A head that has not come as a whole is not taken for one. -/
theorem parseBlocks_part {r : HttpRequest} (hr : r.WellFormed) (D : HtsData) {blocks : List Bytes}
    {b : Bytes} (hb : b ≠ []) (h : blocks.flatten ++ b = r.head) :
    ∃ D' rest, parseBlocks (D.goto .start) blocks = some (D', rest) ∧
      (D'.parseState = .done →
        D'.headerSize ≤ blocks.flatten.length ∧ D'.queryFlags.error = true) := by
  obtain ⟨D', rest, hrun, hsize, hone⟩ := parseBlocks_spec D blocks
  refine ⟨D', rest, hrun, fun hdone => ⟨(hsize hdone).1, ?_⟩⟩
  rcases hone with hup | ⟨m, hm⟩
  · exact hup.error hdone
  · have hstart : HdrInv [] (D.goto .start) := rfl
    have hpre : [] ++ (blocks.flatten ++ b) <+: blocks.flatten ++ b := List.prefix_rfl
    rcases BlockMachine.runBlock_append (hdrStep_law_gaveUp (blocks.flatten ++ b)) hstart hpre
      HtsData.rank_le hm with hup | ⟨hmore, -⟩
    · exact hup.error hdone
    · obtain ⟨m', hm'⟩ := hmore (decide_eq_true hdone)
      obtain ⟨n, D₁, r₁, hrun₁, -, hends₁⟩ := headEnds hr D []
      rw [List.append_nil, ← h] at hrun₁
      obtain ⟨rfl, rfl⟩ := Prod.mk.inj (BlockMachine.runBlock_unique hm' hrun₁)
      refine hends₁.resolve_right (fun hheads => hb ?_)
      exact (List.append_eq_nil_iff.mp hheads.1).2

end MtprotoProxy
