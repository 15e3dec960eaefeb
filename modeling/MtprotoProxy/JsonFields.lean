/-
# Fields of a flat JSON object

What the getters of `AdminJson` are for: reading the members of a flat JSON object, whose
values are strings, integers and booleans.  `JsonObject` is such an object together with
the spelling of its text: any white space, any order, any escapes.

The getters find a member by the first occurrence of its quoted name in the text, and
resolve an escape to the character behind the backslash.  So they read the right value
when that occurrence is the member's own name, the string has no `\u` escape and the
integer fits `long long` (`readsField_of_ownNameFirst`).  `readsField_iff` is the exact
condition: a key that is not there has to have no colon behind the first occurrence of
the quoted key, and for one that is there the only other way to the right value is that
what passes for its name is followed by something that passes for its value.
-/
import MtprotoProxy.AdminJson
import MtprotoProxy.SecretText

namespace MtprotoProxy

open CLib

/-! ## Strings -/

/-- The escapes with a letter. -/
inductive JsonEscape : Type where
  | quote | backslash | slash | backspace | formfeed | newline | carriage | tab
  deriving DecidableEq

namespace JsonEscape

/-- The letter behind the backslash. -/
def letter : JsonEscape → UInt8
  | quote => 34
  | backslash => 92
  | slash => 47
  | backspace => 98
  | formfeed => 102
  | newline => 110
  | carriage => 114
  | tab => 116

/-- The character an escape stands for. -/
def char : JsonEscape → UInt8
  | quote => 34
  | backslash => 92
  | slash => 47
  | backspace => 8
  | formfeed => 12
  | newline => 10
  | carriage => 13
  | tab => 9

end JsonEscape

/-- An element of a string literal: a character as it is, an escape with a letter, or a
`\u` escape with its four hex digits. -/
inductive JsonChar : Type where
  | plain (c : { c : UInt8 // 32 ≤ c ∧ c ≠ 34 ∧ c ≠ 92 }) : JsonChar
  | escape (e : JsonEscape) : JsonChar
  | unicode (ds : { ds : Bytes // ds.length = 4 ∧ ds.all isXdigit = true }) : JsonChar
  deriving DecidableEq

/-- How an element is spelled. -/
def JsonChar.spell : JsonChar → Bytes
  | plain c => [c.val]
  | escape e => [92, e.letter]
  | unicode ds => 92 :: 117 :: ds.val

/-- The characters between the quotes of a literal. -/
def jsonSpell (s : List JsonChar) : Bytes := s.flatMap JsonChar.spell

/-- A string literal. -/
def jsonQuoted (s : List JsonChar) : Bytes := 34 :: jsonSpell s ++ [34]

/-- The UTF-8 bytes of a code point. -/
def utf8Encode (n : ℕ) : Bytes :=
  if n < 0x80 then [UInt8.ofNat n]
  else if n < 0x800 then [UInt8.ofNat (0xc0 + n / 64), UInt8.ofNat (0x80 + n % 64)]
  else if n < 0x10000 then
    [UInt8.ofNat (0xe0 + n / 4096), UInt8.ofNat (0x80 + n / 64 % 64), UInt8.ofNat (0x80 + n % 64)]
  else
    [UInt8.ofNat (0xf0 + n / 262144), UInt8.ofNat (0x80 + n / 4096 % 64),
      UInt8.ofNat (0x80 + n / 64 % 64), UInt8.ofNat (0x80 + n % 64)]

/-- The number four hex digits spell. -/
def hexNumber (ds : Bytes) : ℕ := ds.foldl (fun n d => n * 16 + (hexVal d).toNat) 0

/-- A high surrogate and a low one. -/
def isSurrogatePair (hi lo : ℕ) : Bool :=
  0xd800 ≤ hi && hi < 0xdc00 && 0xdc00 ≤ lo && lo < 0xe000

/-- The bytes a string literal stands for; two `\u` escapes that are a surrogate pair are
one code point. -/
def jsonText : List JsonChar → Bytes
  | [] => []
  | .plain c :: s => c.val :: jsonText s
  | .escape e :: s => e.char :: jsonText s
  | .unicode ds :: .unicode es :: s =>
    if isSurrogatePair (hexNumber ds.val) (hexNumber es.val) then
      utf8Encode (0x10000 + (hexNumber ds.val - 0xd800) * 1024 + (hexNumber es.val - 0xdc00)) ++
        jsonText s
    else utf8Encode (hexNumber ds.val) ++ jsonText (.unicode es :: s)
  | .unicode ds :: s => utf8Encode (hexNumber ds.val) ++ jsonText s

/-- A string value free of control characters. -/
abbrev JsonString : Type := { s : List JsonChar // ∀ c ∈ jsonText s, 32 ≤ c }

/-! ## Objects -/

/-- White space between tokens. -/
abbrev JsonWs : Type := { ws : Bytes // ∀ c ∈ ws, c = 32 ∨ c = 9 ∨ c = 10 ∨ c = 13 }

/-- A value of a flat object; an integer is a sign and a magnitude (`-0` is spelled
apart from `0`). -/
inductive JsonValue : Type where
  | str (s : JsonString) : JsonValue
  | int (neg : Bool) (n : ℕ) : JsonValue
  | bool (b : Bool) : JsonValue

/-- The text of a value. -/
def JsonValue.text : JsonValue → Bytes
  | str s => jsonQuoted s.val
  | int neg n => fmtSigned neg n
  | bool b => if b then trueText else falseText

/-- A member with the white space around its tokens. -/
structure JsonMember where
  before : JsonWs
  name : List JsonChar
  after : JsonWs
  gap : JsonWs
  value : JsonValue
  trail : JsonWs

/-- A member's text behind its name. -/
def JsonMember.afterName (m : JsonMember) : Bytes :=
  m.after.val ++ 58 :: (m.gap.val ++ (m.value.text ++ m.trail.val))

/-- The text of a member. -/
def JsonMember.text (m : JsonMember) : Bytes :=
  m.before.val ++ (jsonQuoted m.name ++ m.afterName)

/-- A flat object with the spelling of its text. -/
structure JsonObject where
  lead : JsonWs
  inner : JsonWs
  members : List JsonMember
  trail : JsonWs

/-- The text of members, commas between them. -/
def membersText : List JsonMember → Bytes
  | [] => []
  | m :: ms => m.text ++ ms.flatMap (fun m => 44 :: m.text)

namespace JsonObject

/-- The text behind a member that has `post` after it. -/
def tail (o : JsonObject) (post : List JsonMember) : Bytes :=
  post.flatMap (fun m => 44 :: m.text) ++ 125 :: o.trail.val

/-- The text of an object; `inner` is the white space between its braces when it is
empty. -/
def text (o : JsonObject) : Bytes :=
  o.lead.val ++ 123 :: ((if o.members = [] then o.inner.val else membersText o.members) ++
    125 :: o.trail.val)

end JsonObject

/-- The first member with a name, and the members after it. -/
def findMember (key : Bytes) : List JsonMember → Option (JsonMember × List JsonMember)
  | [] => none
  | m :: ms => if jsonText m.name = key then some (m, ms) else findMember key ms

/-! ## The promise -/

/-- The three getters report the key absent. -/
def ReportsAbsent (body key : Bytes) : Prop :=
  (∀ out, extHttpJsonGetString body key out = (false, out)) ∧
    extHttpJsonGetInt64 body key = some none ∧ extHttpJsonGetBool body key = some none

/-- The getter for the value's type returns the value; a string, in every buffer it fits
with its terminating zero. -/
def ReadsValue (body key : Bytes) : JsonValue → Prop
  | .str s => ∀ out : Bytes, (jsonText s.val).length < out.length →
      ∃ rest, extHttpJsonGetString body key out = (true, jsonText s.val ++ 0 :: rest)
  | .int neg n => ∃ v : Int64, extHttpJsonGetInt64 body key = some (some v) ∧
      v.toInt = signed neg n
  | .bool b => extHttpJsonGetBool body key = some (some (if b then 1 else 0))

/-- The getters return the value bound to the key, and report the key absent when there
is none. -/
def ReadsField (o : JsonObject) (key : Bytes) : Prop :=
  match findMember (cstr key) o.members with
  | none => ReportsAbsent o.text key
  | some (m, _) => ReadsValue o.text key m.value

/-! ## The conditions -/

/-- The key is short enough for the pattern, and behind the first occurrence of the quoted
key stand blanks, a colon, blanks and `t`. -/
def ColonAfterKey (body key t : Bytes) : Prop :=
  (jsonPattern key).length < 128 ∧ ∃ u w, strstr (jsonPattern key) (cstr body) = some u ∧
    (u.drop (jsonPattern key).length).dropWhile isSpace = 58 :: w ∧ w.dropWhile isSpace = t

/-- A value the getters can represent: a string without `\u` escapes, an integer in the
range of `long long`. -/
def JsonValue.Representable : JsonValue → Prop
  | str s => ∀ ds, .unicode ds ∉ s.val
  | int neg n => -2 ^ 63 ≤ signed neg n ∧ signed neg n < 2 ^ 63
  | bool _ => True

/-- The first occurrence of the quoted key in the text is the name of the member bound to
the key, spelled without escapes. -/
def OwnNameAt (o : JsonObject) (key : Bytes) (m : JsonMember) (post : List JsonMember) : Prop :=
  jsonQuoted m.name = jsonPattern key ∧
    strstr (jsonPattern key) o.text = some (jsonQuoted m.name ++ (m.afterName ++ o.tail post))

/-- A short key is bound to a representable value, and its quoted name occurs first as the
name of the member. -/
def OwnNameFirst (o : JsonObject) (key : Bytes) : Prop :=
  ∃ m post, findMember (cstr key) o.members = some (m, post) ∧
    (jsonPattern key).length < 128 ∧ OwnNameAt o key m post ∧ m.value.Representable

/-- A text that starts with something the getter for the value's type takes for the
value. -/
def PassesFor (t : Bytes) : JsonValue → Prop
  | .str s => ∃ p, t = 34 :: p ∧ literalRest p ≠ [] ∧ literalChars p = jsonText s.val
  | .int neg n => ∃ v ∈ strtollChecked t, v.toInt = signed neg n
  | .bool true => startsNoCase trueText t = true ∨ t.head? = some 49
  | .bool false => startsNoCase falseText t = true ∨ t.head? = some 48

/-- The first occurrence of the quoted key is something else than the plainly spelled name
of the bound member, a colon follows it, and what stands behind that colon happens to pass
for the bound value. -/
def ForeignNameFirst (o : JsonObject) (key : Bytes) : Prop :=
  ∃ m post t, findMember (cstr key) o.members = some (m, post) ∧ ¬ OwnNameAt o key m post ∧
    ColonAfterKey o.text key t ∧ PassesFor t m.value

/-- When a field is read as it should: no colon follows the first quoted occurrence of an
absent key; that occurrence is the own name of a bound one, or passes for it. -/
def FieldReadable (o : JsonObject) (key : Bytes) : Prop :=
  if findMember (cstr key) o.members = none then ∀ t, ¬ ColonAfterKey o.text key t
  else OwnNameFirst o key ∨ ForeignNameFirst o key

/-! ## String literals -/

/-- What the getter makes of an element of a literal. -/
def JsonChar.copied : JsonChar → Bytes
  | plain c => [c.val]
  | escape e => [e.letter]
  | unicode ds => 117 :: ds.val

/-- What the getter makes of a literal. -/
def jsonCopied (s : List JsonChar) : Bytes := s.flatMap JsonChar.copied

theorem isXdigit_ne {c : UInt8} (h : isXdigit c = true) : c ≠ 0 ∧ c ≠ 34 ∧ c ≠ 92 := by
  refine ⟨?_, ?_, ?_⟩ <;> rintro rfl <;> exact absurd h (by decide)

/-- A character that is neither a quote nor a backslash stands for itself. -/
theorem literal_cons {c : UInt8} (h34 : c ≠ 34) (h92 : c ≠ 92) (p : Bytes) :
    literalChars (c :: p) = c :: literalChars p ∧ literalRest (c :: p) = literalRest p := by
  constructor
  · rw [literalChars.eq_3 c p (fun d q h => absurd h h92), if_neg h34]
  · rw [literalRest.eq_3 c p (fun d q h => absurd h h92), if_neg h34]

theorem literal_append {ds : Bytes} (h : ∀ c ∈ ds, c ≠ 34 ∧ c ≠ 92) (p : Bytes) :
    literalChars (ds ++ p) = ds ++ literalChars p ∧ literalRest (ds ++ p) = literalRest p := by
  induction ds with
  | nil => exact ⟨rfl, rfl⟩
  | cons c ds ih =>
    obtain ⟨h34, h92⟩ := h c List.mem_cons_self
    obtain ⟨ih1, ih2⟩ := ih (fun d hd => h d (List.mem_cons_of_mem c hd))
    rw [List.cons_append, (literal_cons h34 h92 _).1, (literal_cons h34 h92 _).2, ih1, ih2]
    exact ⟨rfl, rfl⟩

/-- **What the getter sees of a literal**: its copied characters, and its closing quote. -/
theorem literal_jsonSpell (s : List JsonChar) (rest : Bytes) :
    literalChars (jsonSpell s ++ 34 :: rest) = jsonCopied s ∧
      literalRest (jsonSpell s ++ 34 :: rest) = 34 :: rest := by
  induction s with
  | nil => exact ⟨rfl, rfl⟩
  | cons c s ih =>
    obtain ⟨ih1, ih2⟩ := ih
    have hspell : jsonSpell (c :: s) ++ 34 :: rest = c.spell ++ (jsonSpell s ++ 34 :: rest) := by
      rw [jsonSpell, List.flatMap_cons, List.append_assoc]
      rfl
    have hcopied : jsonCopied (c :: s) = c.copied ++ jsonCopied s := List.flatMap_cons
    rw [hspell, hcopied]
    cases c with
    | plain c =>
      obtain ⟨-, h34, h92⟩ := c.property
      obtain ⟨h1, h2⟩ := literal_cons h34 h92 (jsonSpell s ++ 34 :: rest)
      exact ⟨h1.trans (congrArg (c.val :: ·) ih1), h2.trans ih2⟩
    -- the getter copies the letter of an escape: right only for letters that mean themselves
    | escape e => exact ⟨congrArg (e.letter :: ·) ih1, ih2⟩
    | unicode ds =>
      have hds : ∀ c ∈ ds.val, c ≠ 34 ∧ c ≠ 92 :=
        fun c hc => (isXdigit_ne (List.all_eq_true.mp ds.property.2 c hc)).2
      obtain ⟨h1, h2⟩ := literal_append hds (jsonSpell s ++ 34 :: rest)
      rw [ih1] at h1
      exact ⟨congrArg (117 :: ·) h1, h2.trans ih2⟩

/-- Without `\u` escapes and control characters, a literal is copied as it is meant. -/
theorem jsonCopied_eq_jsonText {s : List JsonChar} (hu : ∀ ds, .unicode ds ∉ s)
    (hc : ∀ c ∈ jsonText s, 32 ≤ c) : jsonCopied s = jsonText s := by
  induction s with
  | nil => rfl
  | cons x s ih =>
    have hu' : ∀ ds, JsonChar.unicode ds ∉ s := fun ds h => hu ds (List.mem_cons_of_mem x h)
    have hcopied : jsonCopied (x :: s) = x.copied ++ jsonCopied s := List.flatMap_cons
    rw [hcopied]
    cases x with
    | plain c =>
      rw [jsonText] at hc ⊢
      rw [ih hu' (fun d hd => hc d (List.mem_cons_of_mem _ hd))]
      rfl
    | escape e =>
      rw [jsonText] at hc ⊢
      have hchar : e.letter = e.char := by
        have he := hc e.char List.mem_cons_self
        cases e <;> first | rfl | exact absurd he (by decide)
      rw [ih hu' (fun d hd => hc d (List.mem_cons_of_mem _ hd)), ← hchar]
      rfl
    | unicode ds => exact absurd List.mem_cons_self (hu ds)

theorem length_utf8Encode_le (n : ℕ) : (utf8Encode n).length ≤ 4 := by
  unfold utf8Encode
  split
  · simp
  · split
    · simp
    · split <;> simp

/-- Every `\u` escape makes the copy longer than the text it stands for. -/
theorem length_jsonText_add_le (s : List JsonChar) :
    (jsonText s).length + s.countP (fun c => c matches .unicode _) ≤ (jsonCopied s).length := by
  have hcopied : ∀ (x : JsonChar) (s : List JsonChar),
      (jsonCopied (x :: s)).length = x.copied.length + (jsonCopied s).length := by
    intro x s
    unfold jsonCopied
    rw [List.flatMap_cons, List.length_append]
  have hunicode : ∀ ds : { ds : Bytes // ds.length = 4 ∧ ds.all isXdigit = true },
      (JsonChar.unicode ds).copied.length = 5 := by
    intro ds
    simp [JsonChar.copied, ds.property.1]
  fun_induction jsonText s with
  | case1 => simp [jsonCopied]
  | case2 c s ih =>
    rw [hcopied, List.length_cons, List.countP_cons_of_neg (by simp)]
    simp only [JsonChar.copied, List.length_singleton]
    omega
  | case3 e s ih =>
    rw [hcopied, List.length_cons, List.countP_cons_of_neg (by simp)]
    simp only [JsonChar.copied, List.length_singleton]
    omega
  | case4 ds es s hpair ih =>
    -- a surrogate pair: ten characters copied, at most four bytes meant
    have hlen := length_utf8Encode_le
      (0x10000 + (hexNumber ds.val - 0xd800) * 1024 + (hexNumber es.val - 0xdc00))
    rw [hcopied, hcopied, hunicode, hunicode, List.length_append,
      List.countP_cons_of_pos (by simp), List.countP_cons_of_pos (by simp)]
    omega
  | case5 ds es s hpair ih =>
    have hlen := length_utf8Encode_le (hexNumber ds.val)
    rw [hcopied (.unicode ds), hunicode, List.length_append,
      List.countP_cons_of_pos (by simp)]
    omega
  | case6 ds s hs ih =>
    have hlen := length_utf8Encode_le (hexNumber ds.val)
    rw [hcopied, hunicode, List.length_append, List.countP_cons_of_pos (by simp)]
    omega

/-! ## The text of an object is a C string -/

theorem zero_notMem_ws (ws : JsonWs) : (0 : UInt8) ∉ ws.val := by
  intro h
  rcases ws.property 0 h with h | h | h | h <;> exact absurd h (by decide)

theorem zero_notMem_jsonSpell (s : List JsonChar) : (0 : UInt8) ∉ jsonSpell s := by
  intro h
  obtain ⟨x, -, hx⟩ := List.mem_flatMap.mp h
  cases x with
  | plain c =>
    have hc : c.val = 0 := (List.mem_singleton.mp hx).symm
    exact absurd (hc ▸ c.property.1) (by decide)
  | escape e =>
    cases e <;> exact absurd hx (by decide)
  | unicode ds =>
    simp only [JsonChar.spell, List.mem_cons] at hx
    rcases hx with hx | hx | hx
    · exact absurd hx (by decide)
    · exact absurd hx (by decide)
    · exact (isXdigit_ne (List.all_eq_true.mp ds.property.2 0 hx)).1 rfl

theorem zero_notMem_jsonQuoted (s : List JsonChar) : (0 : UInt8) ∉ jsonQuoted s := by
  simp [jsonQuoted, zero_notMem_jsonSpell s]

theorem zero_notMem_value (v : JsonValue) : (0 : UInt8) ∉ v.text := by
  cases v with
  | str s => exact zero_notMem_jsonQuoted s.val
  | int neg n =>
    have hdigits : (0 : UInt8) ∉ fmtNat n :=
      fun h => absurd (isDigit_of_mem_fmtNat h) (by decide)
    cases neg <;> simp [JsonValue.text, fmtSigned, hdigits]
  | bool b => cases b <;> decide

theorem zero_notMem_member (m : JsonMember) : (0 : UInt8) ∉ m.text := by
  simp [JsonMember.text, JsonMember.afterName, zero_notMem_ws, zero_notMem_jsonQuoted,
    zero_notMem_value]

theorem zero_notMem_members (ms : List JsonMember) : (0 : UInt8) ∉ membersText ms := by
  cases ms with
  | nil => exact List.not_mem_nil
  | cons m ms => simp [membersText, zero_notMem_member]

theorem cstr_text (o : JsonObject) : cstr o.text = o.text := by
  apply cstr_of_not_mem
  unfold JsonObject.text
  split <;> simp [zero_notMem_ws, zero_notMem_members]

/-! ## The search for a key -/

/-- **What the search finds**: the text behind the colon after the first occurrence of the
quoted key. -/
theorem extHttpJsonFindKey_eq_some_iff {body key t : Bytes} :
    extHttpJsonFindKey body key = some t ↔ ColonAfterKey body key t := by
  unfold extHttpJsonFindKey ColonAfterKey
  split
  · rename_i hlong
    simp
    omega
  · rename_i hshort
    rw [not_le] at hshort
    cases strstr (jsonPattern key) (cstr body) with
    | none => simp
    | some u =>
      simp only [Option.some.injEq, exists_and_left, exists_eq_left', hshort, true_and]
      split
      · rename_i w hw
        simp [hw]
      · rename_i hno
        apply iff_of_false (by simp)
        rintro ⟨w, hw, -⟩
        exact hno w hw

theorem reportsAbsent_iff (body key : Bytes) :
    ReportsAbsent body key ↔ extHttpJsonFindKey body key = none := by
  unfold ReportsAbsent
  constructor
  · rintro ⟨-, hint, -⟩
    unfold extHttpJsonGetInt64 at hint
    split at hint
    · assumption
    · split at hint <;> exact absurd hint (by simp)
  · intro h
    refine ⟨fun out => getString_of_none (by rw [literalAt, h]) out, ?_, ?_⟩
    · rw [extHttpJsonGetInt64, h]
    · rw [extHttpJsonGetBool, h]

/-- A getter that finds no key returns no value. -/
theorem not_readsValue_of_none {body key : Bytes} {v : JsonValue}
    (h : extHttpJsonFindKey body key = none) : ¬ ReadsValue body key v := by
  obtain ⟨hstr, hint, hbool⟩ := (reportsAbsent_iff body key).mpr h
  intro hreads
  cases v with
  | str s =>
    obtain ⟨rest, hrest⟩ := hreads (List.replicate ((jsonText s.val).length + 1) 0) (by simp)
    rw [hstr] at hrest
    exact absurd (Prod.mk.inj hrest).1 (by decide)
  | int neg n =>
    obtain ⟨w, hw, -⟩ := hreads
    rw [hint] at hw
    exact absurd hw (by simp)
  | bool b =>
    rw [ReadsValue, hbool] at hreads
    exact absurd hreads (by simp)

theorem isSpace_ws (ws : JsonWs) : ∀ c ∈ ws.val, isSpace c = true := by
  intro c hc
  rcases ws.property c hc with rfl | rfl | rfl | rfl <;> decide

/-- White space is skipped up to the next token. -/
theorem dropWhile_ws (ws : JsonWs) {c : UInt8} (hc : isSpace c = false) (p : Bytes) :
    (ws.val ++ c :: p).dropWhile isSpace = c :: p := by
  rw [List.dropWhile_append_of_pos (isSpace_ws ws), List.dropWhile_cons_of_neg (by simp [hc])]

/-- A value's text starts with a character that is no white space. -/
theorem value_text_cons (v : JsonValue) : ∃ c p, v.text = c :: p ∧ isSpace c = false := by
  cases v with
  | str s => exact ⟨34, _, rfl, by decide⟩
  | int neg n =>
    cases neg with
    | true => exact ⟨45, _, rfl, by decide⟩
    | false =>
      obtain ⟨c, p, hcp⟩ := List.exists_cons_of_ne_nil (fmtNat_ne_nil n)
      have hc : isDigit c = true := isDigit_of_mem_fmtNat (n := n) (by simp [hcp])
      exact ⟨c, p, hcp, isDigit_not_isSpace hc⟩
  | bool b =>
    cases b with
    | true => exact ⟨116, _, rfl, by decide⟩
    | false => exact ⟨102, _, rfl, by decide⟩

/-- **The search reaches the value** of a member whose name is the first occurrence of the
quoted key. -/
theorem findKey_of_ownName {o : JsonObject} {key : Bytes} {m : JsonMember}
    {post : List JsonMember} (hshort : (jsonPattern key).length < 128)
    (h : OwnNameAt o key m post) :
    extHttpJsonFindKey o.text key = some (m.value.text ++ (m.trail.val ++ o.tail post)) := by
  obtain ⟨hname, hfirst⟩ := h
  obtain ⟨c, p, hcp, hc⟩ := value_text_cons m.value
  have hdrop : (jsonQuoted m.name ++ (m.afterName ++ o.tail post)).drop (jsonPattern key).length
      = m.afterName ++ o.tail post := by
    rw [← hname, List.drop_left]
  have hafter : m.afterName ++ o.tail post = m.after.val ++ 58 ::
      (m.gap.val ++ c :: (p ++ (m.trail.val ++ o.tail post))) := by
    simp only [JsonMember.afterName, hcp, List.append_assoc, List.cons_append]
  -- behind the name: white space, the colon, white space, the value
  unfold extHttpJsonFindKey
  rw [if_neg (by omega), cstr_text, hfirst]
  have hcolon : ((jsonQuoted m.name ++ (m.afterName ++ o.tail post)).drop
      (jsonPattern key).length).dropWhile isSpace
        = 58 :: (m.gap.val ++ c :: (p ++ (m.trail.val ++ o.tail post))) := by
    rw [hdrop, hafter, dropWhile_ws m.after (by decide)]
  simp only [hcolon]
  rw [dropWhile_ws m.gap hc, hcp]
  rfl

/-! ## Reading a value -/

theorem noDigit_behind_value (o : JsonObject) (ws : JsonWs) (post : List JsonMember) :
    NoDigit (ws.val ++ o.tail post) := by
  intro c hc
  rcases hws : ws.val with _ | ⟨d, ds⟩
  · rw [hws, List.nil_append] at hc
    cases post with
    | nil =>
      obtain rfl : 125 = c := Option.some.inj hc
      decide
    | cons m ms =>
      obtain rfl : 44 = c := Option.some.inj hc
      decide
  · rw [hws] at hc
    obtain rfl : d = c := Option.some.inj hc
    rcases ws.property d (by simp [hws]) with rfl | rfl | rfl | rfl <;> decide

/-- The string getter reads a string exactly when the text it finds passes for it. -/
theorem readsValue_str_iff {body key t : Bytes} {s : JsonString}
    (h : extHttpJsonFindKey body key = some t) :
    ReadsValue body key (.str s) ↔ PassesFor t (.str s) := by
  have hzero : (0 : UInt8) ∉ jsonText s.val := fun hz => absurd (s.property 0 hz) (by decide)
  constructor
  · intro hreads
    -- the smallest buffer the string fits
    obtain ⟨rest, hrest⟩ :=
      hreads (List.replicate ((jsonText s.val).length + 1) 0) (by simp)
    cases hlit : literalAt body key with
    | none =>
      rw [getString_of_none hlit] at hrest
      exact absurd (Prod.mk.inj hrest).1 (by decide)
    | some p =>
      have ht : t = 34 :: p := by
        rw [literalAt, h] at hlit
        split at hlit
        · rename_i heq
          rw [Option.some.inj heq, Option.some.inj hlit]
        · exact absurd hlit (by simp)
      rw [getString_of_literal hlit (by simp), List.length_replicate] at hrest
      split at hrest
      · rename_i hfits
        refine ⟨p, ht, hfits.1, ?_⟩
        have hbuf := congrArg cstr (Prod.mk.inj hrest).2
        simp only [overwrite, List.take_zero, List.nil_append, List.append_assoc,
          List.singleton_append] at hbuf
        rwa [cstr_append_zero hzero, cstr_append_zero
          (fun hz => zero_notMem_literalAt hlit (mem_of_mem_literalChars hz))] at hbuf
      · exact absurd (Prod.mk.inj hrest).1 (by decide)
  · rintro ⟨p, rfl, hclosed, hchars⟩ out hout
    have hne : out ≠ [] := List.ne_nil_of_length_pos (by omega)
    have hlit : literalAt body key = some p := by simp [literalAt, h]
    refine ⟨out.drop (jsonText s.val ++ [0]).length, ?_⟩
    rw [getString_of_literal hlit hne, hchars, if_pos ⟨hclosed, by rw [hchars]; exact hout⟩]
    simp [overwrite]

/-- The boolean getter reads a boolean exactly when the text it finds passes for it. -/
theorem readsValue_bool_iff {body key t : Bytes} {b : Bool}
    (h : extHttpJsonFindKey body key = some t) :
    ReadsValue body key (.bool b) ↔ PassesFor t (.bool b) := by
  unfold ReadsValue extHttpJsonGetBool
  rw [h]
  cases t with
  | nil => cases b <;> simp [PassesFor, startsNoCase, trueText, falseText]
  | cons c p =>
    have htrue : startsNoCase trueText (c :: p) = true → toLower c = 116 := toLower_of_startsNoCase
    have hfalse : startsNoCase falseText (c :: p) = true → toLower c = 102 :=
      toLower_of_startsNoCase
    by_cases h1 : startsNoCase trueText (c :: p) = true
    · have hc := htrue h1
      have hno : ¬ startsNoCase falseText (c :: p) = true := by
        intro h2
        rw [hfalse h2] at hc
        exact absurd hc (by decide)
      have h48 : c ≠ 48 := by
        rintro rfl
        exact absurd hc (by decide)
      cases b <;> simp [PassesFor, h1, hno, h48]
    by_cases h2 : startsNoCase falseText (c :: p) = true
    · have hc := hfalse h2
      have h49 : c ≠ 49 := by
        rintro rfl
        exact absurd hc (by decide)
      cases b <;> simp [PassesFor, h1, h2, h49]
    by_cases h49 : c = 49
    · subst h49
      cases b <;> simp [PassesFor, h1, h2]
    by_cases h48 : c = 48
    · subst h48
      cases b <;> simp [PassesFor, h1, h2]
    · cases b <;> simp [PassesFor, h1, h2, h49, h48]

/-- **A getter reads a value** exactly when the text found for the key passes for it. -/
theorem readsValue_iff {body key t : Bytes} {v : JsonValue}
    (h : extHttpJsonFindKey body key = some t) : ReadsValue body key v ↔ PassesFor t v := by
  cases v with
  | str s => exact readsValue_str_iff h
  | int neg n =>
    have hget : extHttpJsonGetInt64 body key = (strtollChecked t).map some := by
      simp only [extHttpJsonGetInt64, h]
      cases strtollChecked t <;> rfl
    simp only [ReadsValue, PassesFor, hget, Option.map_eq_some_iff, Option.some.injEq,
      exists_eq_right, Option.mem_def]
  | bool b => exact readsValue_bool_iff h

/-- A value's own text passes for it exactly when the getter can represent it. -/
theorem passesFor_own_iff (o : JsonObject) (v : JsonValue) (ws : JsonWs)
    (post : List JsonMember) :
    PassesFor (v.text ++ (ws.val ++ o.tail post)) v ↔ v.Representable := by
  cases v with
  | str s =>
    have htext : (JsonValue.str s).text ++ (ws.val ++ o.tail post) =
        34 :: (jsonSpell s.val ++ 34 :: (ws.val ++ o.tail post)) := by
      simp [JsonValue.text, jsonQuoted]
    obtain ⟨hchars, hrest⟩ := literal_jsonSpell s.val (ws.val ++ o.tail post)
    constructor
    · rintro ⟨p, hp, -, htext'⟩ ds hds
      rw [htext] at hp
      rw [← (List.cons.inj hp).2, hchars] at htext'
      -- an escape makes the copy too long
      have hlen := length_jsonText_add_le s.val
      have hcount : 0 < s.val.countP (fun c => c matches .unicode _) :=
        List.countP_pos_iff.mpr ⟨_, hds, rfl⟩
      rw [htext'] at hlen
      omega
    · intro hu
      refine ⟨_, htext, ?_, ?_⟩
      · rw [hrest]
        exact List.cons_ne_nil _ _
      · rw [hchars, jsonCopied_eq_jsonText hu s.property]
  | int neg n =>
    have hread := strtollChecked_fmtSigned neg n (noDigit_behind_value o ws post)
    unfold PassesFor JsonValue.Representable JsonValue.text
    simp only [hread]
    split
    · rename_i hrange
      exact iff_of_true ⟨_, rfl, Int64.toInt_ofInt_of_le hrange.1 hrange.2⟩ hrange
    · rename_i hrange
      exact iff_of_false (by simp) hrange
  | bool b =>
    refine iff_of_true ?_ trivial
    cases b with
    | true => exact Or.inl (startsNoCase_append (by decide) _)
    | false => exact Or.inl (startsNoCase_append (by decide) _)

/-! ## The promise and its conditions -/

/-- **A key that is not there** is reported absent exactly when no colon follows the first
occurrence of the quoted key. -/
theorem readsField_iff_of_absent {o : JsonObject} {key : Bytes}
    (h : findMember (cstr key) o.members = none) :
    ReadsField o key ↔ ∀ t, ¬ ColonAfterKey o.text key t := by
  unfold ReadsField
  rw [h]
  simp only [reportsAbsent_iff, ← extHttpJsonFindKey_eq_some_iff]
  exact Option.eq_none_iff_forall_ne_some

/-- **The getters read the bound value** when the first occurrence of the quoted key is
the name of its member. -/
theorem readsField_of_ownNameFirst {o : JsonObject} {key : Bytes} (h : OwnNameFirst o key) :
    ReadsField o key := by
  obtain ⟨m, post, hfind, hshort, hown, hrep⟩ := h
  unfold ReadsField
  rw [hfind]
  exact (readsValue_iff (findKey_of_ownName hshort hown)).mpr
    ((passesFor_own_iff o m.value m.trail post).mpr hrep)

/-- A bound value is read at its own name, or at something that passes for it. -/
theorem readsField_iff_of_bound {o : JsonObject} {key : Bytes}
    (h : findMember (cstr key) o.members ≠ none) :
    ReadsField o key ↔ OwnNameFirst o key ∨ ForeignNameFirst o key := by
  obtain ⟨⟨m, post⟩, hfind⟩ := Option.ne_none_iff_exists'.mp h
  have hfield : ReadsField o key ↔ ReadsValue o.text key m.value := by
    unfold ReadsField
    rw [hfind]
  constructor
  · intro hreads
    rw [hfield] at hreads
    cases hkey : extHttpJsonFindKey o.text key with
    | none => exact absurd hreads (not_readsValue_of_none hkey)
    | some t =>
      have hcolon := extHttpJsonFindKey_eq_some_iff.mp hkey
      have hpasses := (readsValue_iff hkey).mp hreads
      -- the value was read at the own name of the member, or by coincidence elsewhere
      by_cases hown : OwnNameAt o key m post
      · have htext := findKey_of_ownName hcolon.1 hown
        rw [hkey] at htext
        rw [Option.some.inj htext] at hpasses
        exact Or.inl ⟨m, post, hfind, hcolon.1, hown,
          (passesFor_own_iff o m.value m.trail post).mp hpasses⟩
      · exact Or.inr ⟨m, post, t, hfind, hown, hcolon, hpasses⟩
  · rintro (hown | ⟨m', post', t, hfind', -, hcolon, hpasses⟩)
    · exact readsField_of_ownNameFirst hown
    · rw [hfind] at hfind'
      obtain ⟨rfl, rfl⟩ := Prod.mk.inj (Option.some.inj hfind')
      rw [hfield]
      exact (readsValue_iff (extHttpJsonFindKey_eq_some_iff.mpr hcolon)).mpr hpasses

/-- **Fields are read from the right place** exactly when the search for the quoted key
does not go astray. -/
theorem readsField_iff (o : JsonObject) (key : Bytes) :
    ReadsField o key ↔ FieldReadable o key := by
  unfold FieldReadable
  split
  · rename_i h
    exact readsField_iff_of_absent h
  · rename_i h
    exact readsField_iff_of_bound h

/-- No white space. -/
def noWs : JsonWs := ⟨[], by simp⟩

/-- `{"label":"secret","secret":"x"}`. -/
def labelledSecret : JsonObject where
  lead := noWs
  inner := noWs
  members :=
    [{ before := noWs
       name := [.plain ⟨108, by decide⟩, .plain ⟨97, by decide⟩, .plain ⟨98, by decide⟩,
         .plain ⟨101, by decide⟩, .plain ⟨108, by decide⟩]
       after := noWs
       gap := noWs
       value := .str ⟨[.plain ⟨115, by decide⟩, .plain ⟨101, by decide⟩, .plain ⟨99, by decide⟩,
         .plain ⟨114, by decide⟩, .plain ⟨101, by decide⟩, .plain ⟨116, by decide⟩],
         by simp [jsonText]⟩
       trail := noWs },
     { before := noWs
       name := [.plain ⟨115, by decide⟩, .plain ⟨101, by decide⟩, .plain ⟨99, by decide⟩,
         .plain ⟨114, by decide⟩, .plain ⟨101, by decide⟩, .plain ⟨116, by decide⟩]
       after := noWs
       gap := noWs
       value := .str ⟨[.plain ⟨120, by decide⟩], by simp [jsonText]⟩
       trail := noWs }]
  trail := noWs

/-- A value that equals the key hides the member: the `secret` of this object is
reported absent. -/
theorem not_readsField_labelledSecret :
    ¬ ReadsField labelledSecret [115, 101, 99, 114, 101, 116] := by
  have hkey : extHttpJsonFindKey labelledSecret.text [115, 101, 99, 114, 101, 116] = none := by
    decide +kernel
  have hfind : findMember (cstr [115, 101, 99, 114, 101, 116]) labelledSecret.members ≠ none := by
    decide
  obtain ⟨⟨m, post⟩, hm⟩ := Option.ne_none_iff_exists'.mp hfind
  unfold ReadsField
  rw [hm]
  exact not_readsValue_of_none hkey

end MtprotoProxy
