/-
# The lexer of the configuration file

`common/parse-config.c` and `cfg_getlex_ext` of `mtproto/mtproto-config.c`.

The position `cfg_cur` is the list of the bytes from there to the end of the buffer; what stands
behind the last byte is the zero that `reset_config` writes, so `*cfg_cur` of the empty list is
`0`.  The line number only occurs in messages and is left out.

Every function gives back a position that is not before the one it got (`length_cfgSkipspc`,
`length_cfgGetlexExt`, …), and a lexeme other than the end of the text takes a byte
(`cfgGetlexExt_lt`).
-/
import MtprotoProxy.CString

namespace MtprotoProxy

open CLib

/-! ## Blanks -/

/-- `*cfg_cur`. -/
def cfgPeek (s : Bytes) : UInt8 := s.headD 0

/-- The loop of `cfg_skipspc`; the flag says that it is inside a comment. -/
def cfgSkip : Bool → Bytes → Bytes
  | _, [] => []
  | true, c :: s => if c = 10 then cfgSkip false s else if c = 0 then c :: s else cfgSkip true s
  | false, c :: s =>
    if c = 35 then cfgSkip true s
    else if c = 32 ∨ c = 9 ∨ c = 13 ∨ c = 10 then cfgSkip false s
    else c :: s

/-- `cfg_skipspc`: blanks, line ends and comments. -/
def cfgSkipspc (s : Bytes) : Bytes := cfgSkip false s

/-- `cfg_skspc`: blanks and tabs. -/
def cfgSkspc (s : Bytes) : Bytes := s.dropWhile (fun c => c == 32 || c == 9)

/-- What is left after skipping is no longer than the text. -/
theorem length_cfgSkip (b : Bool) (s : Bytes) : (cfgSkip b s).length ≤ s.length := by
  induction s generalizing b with
  | nil => cases b <;> rfl
  | cons c s ih =>
    cases b with
    | true =>
      rw [cfgSkip]
      split_ifs
      · exact (ih false).trans (Nat.le_succ _)
      · exact le_refl _
      · exact (ih true).trans (Nat.le_succ _)
    | false =>
      rw [cfgSkip]
      split_ifs
      · exact (ih true).trans (Nat.le_succ _)
      · exact (ih false).trans (Nat.le_succ _)
      · exact le_refl _

theorem length_cfgSkipspc (s : Bytes) : (cfgSkipspc s).length ≤ s.length := length_cfgSkip false s

theorem length_cfgSkspc (s : Bytes) : (cfgSkspc s).length ≤ s.length :=
  (List.dropWhile_suffix _).length_le

/-! ## Lexemes -/

/-- The values of `cfg_lex`. -/
inductive CfgLex where
  | semicolon | colon | lbrace | rbrace
  | minConnections | maxConnections | proxyFor | proxy | timeout | default
  | eof | bad
  deriving DecidableEq, Repr

/-- The keywords of `cfg_getlex_ext`, in the order in which it tries them. -/
def cfgKeywords : List (Bytes × CfgLex) :=
  [("min_connections".toUTF8.toList, .minConnections),
   ("max_connections".toUTF8.toList, .maxConnections),
   ("proxy_for".toUTF8.toList, .proxyFor),
   ("proxy".toUTF8.toList, .proxy),
   ("timeout".toUTF8.toList, .timeout),
   ("default".toUTF8.toList, .default)]

/-- `cfg_getlex_ext`.  No keyword starts with a bracket, so that the order of the tests on the
first character does not matter. -/
def cfgGetlexExt (s : Bytes) : CfgLex × Bytes :=
  match cfgSkipspc s with
  | [] => (.eof, [])
  | c :: t =>
    if c = 59 then (.semicolon, t)
    else if c = 58 then (.colon, t)
    else if c = 123 then (.lbrace, t)
    else if c = 125 then (.rbrace, t)
    else if c = 0 then (.eof, c :: t)
    else
      match cfgKeywords.find? (fun k => k.1.isPrefixOf (c :: t)) with
      | some (w, lex) => (lex, (c :: t).drop w.length)
      | none => (.bad, c :: t)

/-- A lexeme takes something or nothing. -/
theorem length_cfgGetlexExt (s : Bytes) : (cfgGetlexExt s).2.length ≤ s.length := by
  unfold cfgGetlexExt
  refine le_trans ?_ (length_cfgSkipspc s)
  cases cfgSkipspc s with
  | nil => exact le_refl _
  | cons c t =>
    dsimp only
    split_ifs
    all_goals first
      | exact Nat.le_succ _
      | exact le_refl _
      | skip
    cases cfgKeywords.find? (fun k => k.1.isPrefixOf (c :: t)) with
    | none => exact le_refl _
    | some k => simp only [List.length_drop, Nat.sub_le]

/-- A semicolon is a byte of the text. -/
theorem cfgGetlexExt_lt {s t : Bytes} (h : cfgGetlexExt s = (.semicolon, t)) :
    t.length < s.length := by
  have hlen := length_cfgSkipspc s
  unfold cfgGetlexExt at h
  cases hs : cfgSkipspc s with
  | nil => simp [hs] at h
  | cons c u =>
    rw [hs] at h hlen
    rw [List.length_cons] at hlen
    dsimp only at h
    split_ifs at h
    · rw [← (Prod.mk.inj h).2]
      omega
    · simp at h
    · simp at h
    · simp at h
    · simp at h
    · cases hk : cfgKeywords.find? (fun k => k.1.isPrefixOf (c :: u)) with
      | none => simp [hk] at h
      | some k =>
        -- no keyword stands for a semicolon
        have hmem := List.mem_of_find?_eq_some hk
        have hlex : k.2 = .semicolon := by
          rw [hk] at h
          exact (Prod.mk.inj h).1
        have hno : ∀ k ∈ cfgKeywords, k.2 ≠ .semicolon := by decide +kernel
        exact absurd hlex (hno k hmem)

/-! ## Words and numbers -/

/-- The characters of a host name. -/
def isWordChar (c : UInt8) : Bool := isAlnum c || c == 46 || c == 45 || c == 95

/-- The number that `cfg_getword` returns, behind the blanks. -/
def cfgWordLength (s : Bytes) : ℕ :=
  match s with
  | 91 :: t =>
    let inner := (t.takeWhile (fun c => isWordChar c || c == 58)).length
    if cfgPeek (t.drop inner) = 93 then inner + 2 else inner + 1
  | _ => (s.takeWhile isWordChar).length

/-- `cfg_getint`: digits, with the arithmetic of a `long long`. -/
def cfgGetint (s : Bytes) : Int64 × Bytes :=
  let t := cfgSkspc s
  ((t.takeWhile isDigit).foldl (fun x c => x * 10 + Int64.ofNat c.toNat - 48) 0, t.dropWhile isDigit)

/-- The digits behind a sign, as `cfg_getint_signed_zero` adds them up. -/
def cfgSignedDigits (sgn : Int64) (s : Bytes) : Int64 :=
  (s.takeWhile isDigit).foldl (fun x c => x * 10 + sgn * (Int64.ofNat c.toNat - 48)) 0

/-- `cfg_getint_signed_zero`: the smallest `long long` when there is no digit. -/
def cfgGetintSignedZero (s : Bytes) : Int64 × Bytes :=
  let t := cfgSkspc s
  match t with
  | 45 :: u =>
    if (u.takeWhile isDigit).isEmpty then (Int64.minValue, t)
    else (cfgSignedDigits (-1) u, u.dropWhile isDigit)
  | _ =>
    if (t.takeWhile isDigit).isEmpty then (Int64.minValue, t)
    else (cfgSignedDigits 1 t, t.dropWhile isDigit)

/-- So does a number. -/
theorem length_cfgGetint (s : Bytes) : (cfgGetint s).2.length ≤ s.length :=
  (List.dropWhile_suffix _).length_le.trans (length_cfgSkspc s)

theorem length_cfgGetintSignedZero (s : Bytes) :
    (cfgGetintSignedZero s).2.length ≤ s.length := by
  unfold cfgGetintSignedZero
  refine le_trans ?_ (length_cfgSkspc s)
  dsimp only
  split
  · rename_i u hu
    split_ifs
    · exact le_refl _
    · rw [hu, List.length_cons]
      exact (List.dropWhile_suffix _).length_le.trans (Nat.le_succ _)
  · split_ifs
    · exact le_refl _
    · exact (List.dropWhile_suffix _).length_le

end MtprotoProxy
