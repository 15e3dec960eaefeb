/-
# A decoder of JSON texts

`Json.decode` reads a whole JSON text: white space between the tokens, string literals with all
their escapes, numbers with fraction and exponent, arrays and objects of any depth.  `Json.print`
is the text of a value without white space, and

* `Json.decode_print`: it decodes to that value, when its strings need no escapes and its numbers
  are whole.

This file names nothing of the proxy but the string literals of `JsonFields`.
-/
import MtprotoProxy.JsonFields

namespace MtprotoProxy

open CLib

/-- A JSON value.  A number is `digits * 10 ^ exponent`, and an object keeps the order of its
members. -/
inductive Json where
  | null
  | bool (b : Bool)
  | num (digits exponent : ℤ)
  | str (s : Bytes)
  | arr (items : List Json)
  | obj (members : List (Bytes × Json))

namespace Json

def nullText : Bytes := [110, 117, 108, 108]

/-! ## The decoder -/

def skipWs (bs : Bytes) : Bytes := bs.dropWhile (fun c => c == 32 || c == 9 || c == 10 || c == 13)

/-- The escape with a letter. -/
def escapeOf (c : UInt8) : Option JsonEscape :=
  [JsonEscape.quote, .backslash, .slash, .backspace, .formfeed, .newline, .carriage, .tab].find?
    (fun e => e.letter == c)

/-- One element of a string literal. -/
def decodeChar : Bytes → Option (JsonChar × Bytes)
  | [] => none
  | c :: bs =>
    if c = 92 then
      match bs with
      | 117 :: d₁ :: d₂ :: d₃ :: d₄ :: bs =>
        if h : [d₁, d₂, d₃, d₄].all isXdigit = true then
          some (.unicode ⟨[d₁, d₂, d₃, d₄], rfl, h⟩, bs)
        else none
      | e :: bs => (escapeOf e).map (fun e => (.escape e, bs))
      | [] => none
    else if h : 32 ≤ c ∧ c ≠ 34 ∧ c ≠ 92 then some (.plain ⟨c, h⟩, bs)
    else none

/-- The elements up to the closing quote, and what stands behind it. -/
def decodeChars : ℕ → Bytes → Option (List JsonChar × Bytes)
  | 0, _ => none
  | n + 1, bs =>
    if bs.head? = some 34 then some ([], bs.tail)
    else
      (decodeChar bs).bind (fun (c, bs) =>
        (decodeChars n bs).map (fun out => (c :: out.1, out.2)))

/-- A string literal behind its first quote. -/
def decodeString (bs : Bytes) : Option (Bytes × Bytes) :=
  (decodeChars (bs.length + 1) bs).map (fun out => (jsonText out.1, out.2))

/-- At least one digit. -/
def decodeDigits (bs : Bytes) : Option (Bytes × Bytes) :=
  if bs.takeWhile isDigit = [] then none else some (bs.takeWhile isDigit, bs.dropWhile isDigit)

/-- The digits behind the point, if there is one. -/
def decodeFraction : Bytes → Option (Bytes × Bytes)
  | [] => some ([], [])
  | c :: bs => if c = 46 then decodeDigits bs else some ([], c :: bs)

/-- The exponent, if there is one. -/
def decodeExponent : Bytes → Option (ℤ × Bytes)
  | [] => some (0, [])
  | c :: bs =>
    if c = 101 ∨ c = 69 then
      match bs with
      | 45 :: bs => (decodeDigits bs).map (fun out => (-(decValue out.1 : ℤ), out.2))
      | 43 :: bs => (decodeDigits bs).map (fun out => ((decValue out.1 : ℤ), out.2))
      | bs => (decodeDigits bs).map (fun out => ((decValue out.1 : ℤ), out.2))
    else some (0, c :: bs)

/-- A number behind its sign; no digit comes behind a leading zero. -/
def decodeNumber (sign : ℤ) (bs : Bytes) : Option (Json × Bytes) := do
  let (ds, bs) ← decodeDigits bs
  if 1 < ds.length ∧ ds.head? = some 48 then none
  else
    let (fs, bs) ← decodeFraction bs
    let (e, bs) ← decodeExponent bs
    some (.num (sign * decValue (ds ++ fs)) (e - fs.length), bs)

mutual

/-- A value, and what stands behind it. -/
def decodeValue : ℕ → Bytes → Option (Json × Bytes)
  | 0, _ => none
  | n + 1, bs =>
    match skipWs bs with
    | [] => none
    | c :: bs =>
      if c = 123 then
        if (skipWs bs).head? = some 125 then some (.obj [], (skipWs bs).tail)
        else (decodeMembers n bs).map (fun out => (.obj out.1, out.2))
      else if c = 91 then
        if (skipWs bs).head? = some 93 then some (.arr [], (skipWs bs).tail)
        else (decodeItems n bs).map (fun out => (.arr out.1, out.2))
      else if c = 34 then (decodeString bs).map (fun out => (.str out.1, out.2))
      else if c = 45 then decodeNumber (-1) bs
      else if isDigit c then decodeNumber 1 (c :: bs)
      else if trueText <+: c :: bs then some (.bool true, bs.drop 3)
      else if falseText <+: c :: bs then some (.bool false, bs.drop 4)
      else if nullText <+: c :: bs then some (.null, bs.drop 3)
      else none

/-- The items of an array, up to its bracket. -/
def decodeItems : ℕ → Bytes → Option (List Json × Bytes)
  | 0, _ => none
  | n + 1, bs =>
    (decodeValue n bs).bind (fun (v, bs) =>
      match skipWs bs with
      | [] => none
      | c :: bs =>
        if c = 44 then (decodeItems n bs).map (fun out => (v :: out.1, out.2))
        else if c = 93 then some ([v], bs)
        else none)

/-- The members of an object, up to its brace. -/
def decodeMembers : ℕ → Bytes → Option (List (Bytes × Json) × Bytes)
  | 0, _ => none
  | n + 1, bs =>
    match skipWs bs with
    | [] => none
    | c :: bs =>
      if c ≠ 34 then none
      else
        (decodeString bs).bind (fun (k, bs) =>
          match skipWs bs with
          | [] => none
          | c :: bs =>
            if c ≠ 58 then none
            else
              (decodeValue n bs).bind (fun (v, bs) =>
                match skipWs bs with
                | [] => none
                | c :: bs =>
                  if c = 44 then
                    (decodeMembers n bs).map (fun out => ((k, v) :: out.1, out.2))
                  else if c = 125 then some ([(k, v)], bs)
                  else none))

end

/-- The value of a whole text. -/
def decode (bs : Bytes) : Option Json :=
  match decodeValue (bs.length + 1) bs with
  | some (v, rest) => if skipWs rest = [] then some v else none
  | none => none

/-! ## Looking into a value -/

/-- The member with a name. -/
def field (key : Bytes) : Json → Option Json
  | .obj members => (members.find? (fun m => m.1 == key)).map (·.2)
  | _ => none

/-! ## The text of a value -/

/-- Texts with commas between them. -/
def commas (texts : List Bytes) : Bytes := [44].intercalate texts

mutual

/-- The text of a value without white space; of a number only its digits. -/
def print : Json → Bytes
  | .null => nullText
  | .bool b => if b then trueText else falseText
  | .num m _ => fmtInt m
  | .str s => 34 :: s ++ [34]
  | .arr vs => 91 :: commas (printItems vs) ++ [93]
  | .obj ms => 123 :: commas (printMembers ms) ++ [125]

def printItems : List Json → List Bytes
  | [] => []
  | v :: vs => print v :: printItems vs

def printMembers : List (Bytes × Json) → List Bytes
  | [] => []
  | (k, v) :: ms => (34 :: k ++ 34 :: 58 :: print v) :: printMembers ms

end

/-- A string that is spelled as it is. -/
def PlainString (s : Bytes) : Prop := ∀ c ∈ s, 32 ≤ c ∧ c ≠ 34 ∧ c ≠ 92

/-- A value that is printed with everything it has. -/
inductive Plain : Json → Prop
  | null : Plain .null
  | bool (b : Bool) : Plain (.bool b)
  | num (m : ℤ) : Plain (.num m 0)
  | str (s : Bytes) : PlainString s → Plain (.str s)
  | arr (vs : List Json) : (∀ v ∈ vs, Plain v) → Plain (.arr vs)
  | obj (ms : List (Bytes × Json)) :
      (∀ m ∈ ms, PlainString m.1) → (∀ m ∈ ms, Plain m.2) → Plain (.obj ms)

/-- What may stand behind a number. -/
def EndsNumber (rest : Bytes) : Prop :=
  ∀ c cs, rest = c :: cs → isDigit c = false ∧ c ≠ 46 ∧ c ≠ 101 ∧ c ≠ 69

theorem endsNumber_cons {c : UInt8} (h : isDigit c = false ∧ c ≠ 46 ∧ c ≠ 101 ∧ c ≠ 69)
    (cs : Bytes) : EndsNumber (c :: cs) := by
  intro d ds hd
  rwa [← (List.cons.inj hd).1]

theorem decodeChars_plain {s : Bytes} (h : PlainString s) (rest : Bytes) {n : ℕ}
    (hn : s.length < n) :
    ∃ cs, decodeChars n (s ++ 34 :: rest) = some (cs, rest) ∧ jsonText cs = s := by
  induction s generalizing n with
  | nil =>
    obtain ⟨n, rfl⟩ := Nat.exists_eq_add_of_lt hn
    exact ⟨[], if_pos rfl, rfl⟩
  | cons c s ih =>
    obtain ⟨n, rfl⟩ := Nat.exists_eq_add_of_lt (Nat.zero_lt_of_lt hn)
    rw [List.length_cons, Nat.zero_add, Nat.succ_lt_succ_iff] at hn
    obtain ⟨hc, hs⟩ := List.forall_mem_cons.mp h
    obtain ⟨cs, hcs, htext⟩ := ih hs hn
    have hchar : decodeChar (c :: (s ++ 34 :: rest)) = some (.plain ⟨c, hc⟩, s ++ 34 :: rest) := by
      exact (if_neg hc.2.2).trans (dif_pos hc)
    refine ⟨.plain ⟨c, hc⟩ :: cs, ?_, ?_⟩
    · have hquote : (c :: (s ++ 34 :: rest)).head? ≠ some 34 :=
        fun hquote => hc.2.1 (Option.some.inj hquote)
      rw [List.cons_append, Nat.zero_add, decodeChars, if_neg hquote, hchar, Option.bind_some]
      show Option.map _ (decodeChars n (s ++ 34 :: rest)) = _
      rw [hcs]
      rfl
    · rw [jsonText, htext]

/-- **String literals** are read back. -/
theorem decodeString_plain {s : Bytes} (h : PlainString s) (rest : Bytes) :
    decodeString (s ++ 34 :: rest) = some (s, rest) := by
  have hlen : s.length < (s ++ 34 :: rest).length + 1 := by
    rw [List.length_append]
    omega
  obtain ⟨cs, hcs, htext⟩ := decodeChars_plain h rest hlen
  unfold decodeString
  rw [hcs, Option.map_some, htext]

theorem takeWhile_isDigit_ends {ds rest : Bytes} (hds : ∀ c ∈ ds, isDigit c = true)
    (h : EndsNumber rest) :
    (ds ++ rest).takeWhile isDigit = ds ∧ (ds ++ rest).dropWhile isDigit = rest := by
  have hrest : rest.takeWhile isDigit = [] ∧ rest.dropWhile isDigit = rest := by
    cases rest with
    | nil => exact ⟨rfl, rfl⟩
    | cons c cs =>
      have hc : ¬ isDigit c = true := by
        rw [(h c cs rfl).1]
        exact Bool.false_ne_true
      exact ⟨List.takeWhile_cons_of_neg hc, List.dropWhile_cons_of_neg hc⟩
  rw [List.takeWhile_append_of_pos hds, List.dropWhile_append_of_pos hds, hrest.1, hrest.2,
    List.append_nil]
  exact ⟨rfl, rfl⟩

/-- A printed number has no leading zero. -/
theorem head_fmtNat (n : ℕ) : ¬ (1 < (fmtNat n).length ∧ (fmtNat n).head? = some 48) := by
  unfold fmtNat
  split_ifs with hzero
  · simp
  · rintro ⟨-, hhead⟩
    have hne : Nat.digits 10 n ≠ [] := Nat.digits_ne_nil_iff_ne_zero.mpr hzero
    rw [List.head?_map, List.head?_reverse, List.getLast?_eq_some_getLast hne, Option.map_some,
      Option.some.injEq] at hhead
    have hlast := Nat.getLast_digit_ne_zero 10 hzero
    have hlt : (Nat.digits 10 n).getLast hne < 10 :=
      Nat.digits_lt_base (by norm_num) (List.getLast_mem hne)
    have hvalue := toNat_ofNat_digit hlt
    rw [hhead] at hvalue
    exact hlast hvalue.symm

/-- **Numbers** are read back. -/
theorem decodeNumber_fmtNat (sign : ℤ) (n : ℕ) {rest : Bytes} (h : EndsNumber rest) :
    decodeNumber sign (fmtNat n ++ rest) = some (.num (sign * n) 0, rest) := by
  obtain ⟨htake, hdrop⟩ := takeWhile_isDigit_ends (fun c => isDigit_of_mem_fmtNat) h
  have hdigits : decodeDigits (fmtNat n ++ rest) = some (fmtNat n, rest) := by
    unfold decodeDigits
    rw [htake, hdrop, if_neg (fmtNat_ne_nil n)]
  have hfraction : decodeFraction rest = some ([], rest) := by
    cases rest with
    | nil => rfl
    | cons c cs => exact if_neg (h c cs rfl).2.1
  have hexponent : decodeExponent rest = some (0, rest) := by
    cases rest with
    | nil => rfl
    | cons c cs =>
      have hc := (h c cs rfl).2.2
      exact if_neg (fun he => he.elim hc.1 hc.2)
  unfold decodeNumber
  simp only [hdigits, hfraction, hexponent, head_fmtNat, if_false, some_bind, List.append_nil,
    decValue_fmtNat, List.length_nil, Nat.cast_zero, sub_zero]

/-- The first byte of a value. -/
theorem print_cons (v : Json) : ∃ c cs, v.print = c :: cs ∧
    (c ≠ 32 ∧ c ≠ 9 ∧ c ≠ 10 ∧ c ≠ 13) ∧ c ≠ 93 := by
  have hdigit : ∀ c, isDigit c = true → (c ≠ 32 ∧ c ≠ 9 ∧ c ≠ 10 ∧ c ≠ 13) ∧ c ≠ 93 := by
    decide +kernel
  cases v with
  | null => exact ⟨_, _, rfl, by decide⟩
  | bool b => cases b <;> exact ⟨_, _, rfl, by decide⟩
  | num m e =>
    obtain ⟨c, cs, hcs⟩ := List.exists_cons_of_ne_nil (fmtInt_ne_nil m)
    refine ⟨c, cs, hcs, ?_⟩
    rcases mem_fmtInt (hcs ▸ List.mem_cons_self) with rfl | hc
    · decide
    · exact hdigit c hc
  | str s => exact ⟨_, _, rfl, by decide⟩
  | arr vs => exact ⟨_, _, rfl, by decide⟩
  | obj ms => exact ⟨_, _, rfl, by decide⟩

/-! ## Reading a printed value back -/

/-- What stands behind a printed value is left. -/
def ReadsBack (v : Json) : Prop :=
  ∀ n rest, v.print.length ≤ n → EndsNumber rest → decodeValue n (v.print ++ rest) = some (v, rest)

theorem skipWs_of_ne {c : UInt8} (h : c ≠ 32 ∧ c ≠ 9 ∧ c ≠ 10 ∧ c ≠ 13) (cs : Bytes) :
    skipWs (c :: cs) = c :: cs := by
  apply List.dropWhile_cons_of_neg
  simp [h]

theorem commas_cons_cons (x y : Bytes) (l : List Bytes) :
    commas (x :: y :: l) = x ++ 44 :: commas (y :: l) := by
  unfold commas
  rw [List.intercalate_cons_cons, List.append_assoc]
  rfl

theorem commas_singleton (x : Bytes) : commas [x] = x := List.intercalate_singleton

/-- Items up to the bracket. -/
theorem decodeItems_commas {vs : List Json} (h : ∀ v ∈ vs, ReadsBack v) (hne : vs ≠ []) (n : ℕ)
    (rest : Bytes) (hn : (commas (printItems vs)).length < n) :
    decodeItems n (commas (printItems vs) ++ 93 :: rest) = some (vs, rest) := by
  induction vs generalizing n with
  | nil => exact absurd rfl hne
  | cons v vs ih =>
    obtain ⟨n, rfl⟩ := Nat.exists_eq_add_of_lt (Nat.zero_lt_of_lt hn)
    rw [Nat.zero_add] at hn ⊢
    obtain ⟨hv, hvs⟩ := List.forall_mem_cons.mp h
    cases vs with
    | nil =>
      have hprint : commas (printItems [v]) = v.print := commas_singleton v.print
      rw [hprint] at hn ⊢
      have hend : EndsNumber (93 :: rest) := endsNumber_cons (by decide) rest
      have hread := hv n (93 :: rest) (Nat.le_of_lt_succ hn) hend
      have hskip := skipWs_of_ne (show (93 : UInt8) ≠ 32 ∧ _ by decide) rest
      rw [decodeItems, hread, Option.bind_some]
      simp only [hskip]
      rfl
    | cons w vs =>
      have hlen : v.print.length + ((commas (printItems (w :: vs))).length + 1) < n + 1 := by
        rwa [printItems, printItems, commas_cons_cons, List.length_append, List.length_cons] at hn
      have hend : EndsNumber (44 :: (commas (printItems (w :: vs)) ++ 93 :: rest)) :=
        endsNumber_cons (by decide) _
      have hread := hv n _ (by omega) hend
      have hmore := ih hvs (List.cons_ne_nil w vs) n (by omega)
      have htext : commas (printItems (v :: w :: vs)) ++ 93 :: rest
          = v.print ++ 44 :: (commas (printItems (w :: vs)) ++ 93 :: rest) := by
        rw [printItems, printItems, commas_cons_cons, List.append_assoc]
        rfl
      have hskip := skipWs_of_ne (show (44 : UInt8) ≠ 32 ∧ _ by decide)
        (commas (printItems (w :: vs)) ++ 93 :: rest)
      rw [decodeItems, htext, hread, Option.bind_some]
      simp only [hskip, hmore]
      rfl

/-- Members up to the brace. -/
theorem decodeMembers_commas {ms : List (Bytes × Json)} (hnames : ∀ m ∈ ms, PlainString m.1)
    (h : ∀ m ∈ ms, ReadsBack m.2) (hne : ms ≠ []) (n : ℕ) (rest : Bytes)
    (hn : (commas (printMembers ms)).length < n) :
    decodeMembers n (commas (printMembers ms) ++ 125 :: rest) = some (ms, rest) := by
  induction ms generalizing n with
  | nil => exact absurd rfl hne
  | cons m ms ih =>
    obtain ⟨n, rfl⟩ := Nat.exists_eq_add_of_lt (Nat.zero_lt_of_lt hn)
    rw [Nat.zero_add] at hn ⊢
    obtain ⟨k, v⟩ := m
    obtain ⟨hk, hks⟩ := List.forall_mem_cons.mp hnames
    obtain ⟨hv, hvs⟩ := List.forall_mem_cons.mp h
    -- the name, the colon and the value, with anything behind them
    have hmember : ∀ tail, EndsNumber tail → v.print.length ≤ n →
        decodeMembers (n + 1) (34 :: k ++ 34 :: 58 :: v.print ++ tail) =
          match skipWs tail with
          | [] => none
          | c :: bs =>
            if c = 44 then (decodeMembers n bs).map (fun out => ((k, v) :: out.1, out.2))
            else if c = 125 then some ([(k, v)], bs)
            else none := by
      intro tail hend hlen
      have hquote := skipWs_of_ne (show (34 : UInt8) ≠ 32 ∧ _ by decide)
        (k ++ 34 :: 58 :: (v.print ++ tail))
      have hcolon := skipWs_of_ne (show (58 : UInt8) ≠ 32 ∧ _ by decide) (v.print ++ tail)
      have htext : 34 :: k ++ 34 :: 58 :: v.print ++ tail
          = 34 :: (k ++ 34 :: 58 :: (v.print ++ tail)) := by
        rw [List.cons_append, List.cons_append, List.append_assoc]
        rfl
      rw [decodeMembers, htext]
      simp only [hquote, decodeString_plain hk, hcolon, hv n tail hlen hend, Option.bind_some,
        ne_eq, not_true_eq_false, if_false]
    have hlength : (34 :: k ++ 34 :: 58 :: v.print).length = k.length + v.print.length + 3 := by
      simp only [List.length_append, List.length_cons]
      omega
    cases ms with
    | nil =>
      have hprint : commas (printMembers [(k, v)]) = 34 :: k ++ 34 :: 58 :: v.print :=
        commas_singleton _
      rw [hprint] at hn ⊢
      rw [hmember _ (endsNumber_cons (by decide) rest) (by omega),
        skipWs_of_ne (by decide) rest]
      rfl
    | cons m ms =>
      have hprint : commas (printMembers ((k, v) :: m :: ms))
          = (34 :: k ++ 34 :: 58 :: v.print) ++ 44 :: commas (printMembers (m :: ms)) :=
        commas_cons_cons _ _ _
      rw [hprint, List.length_append, hlength, List.length_cons] at hn
      have hmore := ih hks hvs (List.cons_ne_nil m ms) n (by omega)
      rw [hprint, List.append_assoc (34 :: k ++ 34 :: 58 :: v.print),
        List.cons_append (a := 44),
        hmember _ (endsNumber_cons (by decide) _) (by omega), skipWs_of_ne (by decide)]
      show Option.map _ (decodeMembers n _) = _
      rw [hmore]
      rfl

/-- An array that is not empty does not start with its bracket. -/
theorem commas_printItems_cons (v : Json) (vs : List Json) :
    ∃ c cs, commas (printItems (v :: vs)) = c :: cs ∧
      (c ≠ 32 ∧ c ≠ 9 ∧ c ≠ 10 ∧ c ≠ 13) ∧ c ≠ 93 := by
  obtain ⟨c, cs, hprint, hc⟩ := print_cons v
  cases vs with
  | nil => exact ⟨c, cs, (commas_singleton v.print).trans hprint, hc⟩
  | cons w vs =>
    refine ⟨c, cs ++ 44 :: commas (printItems (w :: vs)), ?_, hc⟩
    rw [printItems, printItems, commas_cons_cons, hprint]
    rfl

theorem commas_printMembers_cons (m : Bytes × Json) (ms : List (Bytes × Json)) :
    ∃ cs, commas (printMembers (m :: ms)) = 34 :: cs := by
  cases ms with
  | nil => exact ⟨_, commas_singleton _⟩
  | cons m' ms => exact ⟨_, commas_cons_cons _ _ _⟩

/-- **A plain value is read back**, by induction on the value. -/
theorem Plain.readsBack {v : Json} (h : Plain v) : ReadsBack v := by
  have hsucc : ∀ (v : Json) n, v.print.length ≤ n → ∃ m, n = m + 1 := by
    intro v n hn
    obtain ⟨c, cs, hprint, -⟩ := print_cons v
    rw [hprint, List.length_cons] at hn
    exact Nat.exists_eq_add_of_le' (Nat.le_trans (Nat.succ_le_succ cs.length.zero_le) hn)
  have hdigit : ∀ c, isDigit c = true →
      (c ≠ 32 ∧ c ≠ 9 ∧ c ≠ 10 ∧ c ≠ 13) ∧ c ≠ 123 ∧ c ≠ 91 ∧ c ≠ 34 ∧ c ≠ 45 := by
    decide +kernel
  induction h with
  | null =>
    intro n rest hn _
    obtain ⟨n, rfl⟩ := hsucc _ n hn
    rfl
  | bool b =>
    intro n rest hn _
    obtain ⟨n, rfl⟩ := hsucc _ n hn
    cases b <;> rfl
  | num m =>
    intro n rest hn hend
    obtain ⟨n, rfl⟩ := hsucc _ n hn
    show decodeValue (n + 1) (fmtInt m ++ rest) = _
    unfold fmtInt
    split_ifs with hneg
    · rw [List.cons_append, decodeValue, skipWs_of_ne (by decide)]
      show decodeNumber (-1) (fmtNat m.natAbs ++ rest) = _
      rw [decodeNumber_fmtNat _ _ hend]
      congr 3
      omega
    · obtain ⟨c, cs, hcs⟩ := List.exists_cons_of_ne_nil (fmtNat_ne_nil m.natAbs)
      have hc : isDigit c = true := isDigit_of_mem_fmtNat (hcs ▸ List.mem_cons_self)
      obtain ⟨hspace, hbrace, hbracket, hquote, hminus⟩ := hdigit c hc
      have hread := decodeNumber_fmtNat 1 m.natAbs hend
      rw [hcs, List.cons_append] at hread ⊢
      rw [decodeValue, skipWs_of_ne hspace]
      dsimp only
      rw [if_neg hbrace, if_neg hbracket, if_neg hquote, if_neg hminus, if_pos hc, hread]
      congr 3
      omega
  | str s hs =>
    intro n rest hn _
    obtain ⟨n, rfl⟩ := hsucc _ n hn
    have htext : (Json.str s).print ++ rest = 34 :: (s ++ 34 :: rest) := by
      rw [print, List.cons_append, List.cons_append, List.append_assoc]
      rfl
    rw [htext, decodeValue, skipWs_of_ne (by decide)]
    show Option.map _ (decodeString _) = _
    rw [decodeString_plain hs]
    rfl
  | arr vs _ ih =>
    intro n rest hn _
    obtain ⟨n, rfl⟩ := hsucc _ n hn
    have htext : (Json.arr vs).print ++ rest = 91 :: (commas (printItems vs) ++ 93 :: rest) := by
      rw [print, List.cons_append, List.cons_append, List.append_assoc]
      rfl
    have hlen : (commas (printItems vs)).length < n := by
      rw [print, List.length_append, List.length_cons, List.length_singleton] at hn
      omega
    rw [htext, decodeValue, skipWs_of_ne (by decide)]
    cases vs with
    | nil =>
      have hskip := skipWs_of_ne (show (93 : UInt8) ≠ 32 ∧ _ by decide) rest
      have hempty : commas (printItems []) ++ 93 :: rest = 93 :: rest := rfl
      simp only [hempty, hskip]
      rfl
    | cons v vs =>
      have hread := decodeItems_commas ih (List.cons_ne_nil v vs) n rest hlen
      obtain ⟨c, cs, hcs, hc, hbracket⟩ := commas_printItems_cons v vs
      rw [hcs, List.cons_append] at hread ⊢
      have hhead : ¬ (c :: (cs ++ 93 :: rest)).head? = some 93 :=
        fun hhead => hbracket (Option.some.inj hhead)
      simp only [skipWs_of_ne hc, hread, if_neg hhead]
      rfl
  | obj ms hnames _ ih =>
    intro n rest hn _
    obtain ⟨n, rfl⟩ := hsucc _ n hn
    have htext : (Json.obj ms).print ++ rest = 123 :: (commas (printMembers ms) ++ 125 :: rest) := by
      rw [print, List.cons_append, List.cons_append, List.append_assoc]
      rfl
    have hlen : (commas (printMembers ms)).length < n := by
      rw [print, List.length_append, List.length_cons, List.length_singleton] at hn
      omega
    rw [htext, decodeValue, skipWs_of_ne (by decide)]
    cases ms with
    | nil =>
      have hskip := skipWs_of_ne (show (125 : UInt8) ≠ 32 ∧ _ by decide) rest
      have hempty : commas (printMembers []) ++ 125 :: rest = 125 :: rest := rfl
      simp only [hempty, hskip]
      rfl
    | cons m ms =>
      have hread := decodeMembers_commas hnames ih (List.cons_ne_nil m ms) n rest hlen
      obtain ⟨cs, hcs⟩ := commas_printMembers_cons m ms
      rw [hcs, List.cons_append] at hread ⊢
      have hskip := skipWs_of_ne (show (34 : UInt8) ≠ 32 ∧ _ by decide) (cs ++ 125 :: rest)
      simp only [hskip, hread]
      rfl

/-- **A plain value is the value of its text.** -/
theorem decode_print {v : Json} (h : Plain v) : decode v.print = some v := by
  have hread := h.readsBack (v.print.length + 1) [] (Nat.le_succ _) (by rintro c cs ⟨⟩)
  rw [List.append_nil] at hread
  unfold decode
  rw [hread]
  rfl

theorem commas_cons (x : Bytes) (l : List Bytes) :
    commas (x :: l) = x ++ l.flatMap (fun y => 44 :: y) := by
  induction l generalizing x with
  | nil => rw [commas_singleton, List.flatMap_nil, List.append_nil]
  | cons y l ih =>
    rw [commas_cons_cons, ih y, List.flatMap_cons]
    rfl

theorem printItems_map {α : Type*} (f : α → Json) (l : List α) :
    printItems (l.map f) = l.map (fun x => (f x).print) := by
  induction l with
  | nil => rfl
  | cons x l ih =>
    rw [List.map_cons, List.map_cons, printItems, ih]

theorem printMembers_eq (ms : List (Bytes × Json)) :
    printMembers ms = ms.map (fun m => 34 :: m.1 ++ 34 :: 58 :: m.2.print) := by
  induction ms with
  | nil => rfl
  | cons m ms ih =>
    rw [List.map_cons, printMembers, ih]

theorem mem_commas {c : UInt8} {l : List Bytes} (h : c ∈ commas l) : c = 44 ∨ ∃ x ∈ l, c ∈ x := by
  cases l with
  | nil => exact absurd h List.not_mem_nil
  | cons x l =>
    rw [commas_cons, List.mem_append, List.mem_flatMap] at h
    rcases h with hx | ⟨y, hy, hc⟩
    · exact Or.inr ⟨x, List.mem_cons_self, hx⟩
    · exact (List.mem_cons.mp hc).imp_right (fun hc => ⟨y, List.mem_cons_of_mem x hy, hc⟩)

/-- The text of a plain value has no control characters. -/
theorem Plain.le_of_mem_print {v : Json} (h : Plain v) : ∀ c ∈ v.print, 32 ≤ c := by
  induction h with
  | null =>
    show ∀ c ∈ nullText, 32 ≤ c
    decide +kernel
  | bool b =>
    have htexts : (∀ c ∈ trueText, 32 ≤ c) ∧ (∀ c ∈ falseText, 32 ≤ c) := by decide +kernel
    cases b
    · exact htexts.2
    · exact htexts.1
  | num m =>
    intro c hc
    have hdigit : ∀ c, isDigit c = true → (32 : UInt8) ≤ c := by decide +kernel
    rcases mem_fmtInt hc with rfl | hc
    · decide
    · exact hdigit c hc
  | str s hs =>
    intro c hc
    rw [print, List.cons_append, List.mem_cons, List.mem_append, List.mem_singleton] at hc
    rcases hc with rfl | hc | rfl
    · decide
    · exact (hs c hc).1
    · decide
  | arr vs _ ih =>
    intro c hc
    rw [print, List.cons_append, List.mem_cons, List.mem_append, List.mem_singleton] at hc
    rcases hc with rfl | hc | rfl
    · decide
    · have hitems := printItems_map id vs
      rw [List.map_id] at hitems
      rw [hitems] at hc
      rcases mem_commas hc with rfl | ⟨x, hx, hc⟩
      · decide
      · obtain ⟨v, hv, rfl⟩ := List.mem_map.mp hx
        exact ih v hv c hc
    · decide
  | obj ms hnames _ ih =>
    intro c hc
    rw [print, List.cons_append, List.mem_cons, List.mem_append, List.mem_singleton] at hc
    rcases hc with rfl | hc | rfl
    · decide
    · rw [printMembers_eq] at hc
      rcases mem_commas hc with rfl | ⟨x, hx, hc⟩
      · decide
      · obtain ⟨m, hm, rfl⟩ := List.mem_map.mp hx
        rw [List.cons_append, List.mem_cons, List.mem_append, List.mem_cons, List.mem_cons] at hc
        rcases hc with rfl | hc | rfl | rfl | hc
        · decide
        · exact (hnames m hm c hc).1
        · decide
        · decide
        · exact ih m hm c hc
    · decide

/-- The member with a name is the one that is there, when no name is there twice. -/
theorem field_of_mem {ms : List (Bytes × Json)} (hnodup : (ms.map Prod.fst).Nodup) {k : Bytes}
    {v : Json} (h : (k, v) ∈ ms) : (Json.obj ms).field k = some v := by
  induction ms with
  | nil => exact absurd h List.not_mem_nil
  | cons m ms ih =>
    rw [List.map_cons, List.nodup_cons] at hnodup
    show ((m :: ms).find? (fun m => m.1 == k)).map (·.2) = some v
    rcases List.mem_cons.mp h with rfl | hmem
    · rw [List.find?_cons_of_pos (by simp)]
      rfl
    · have hname : k ∈ ms.map Prod.fst := List.mem_map_of_mem (f := Prod.fst) hmem
      have hne : m.1 ≠ k := fun heq => hnodup.1 (heq ▸ hname)
      rw [List.find?_cons_of_neg (by simpa using hne)]
      exact ih hnodup.2 hmem

end Json

end MtprotoProxy
