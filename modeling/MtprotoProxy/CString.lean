/-
# C strings, decimal numbers and lines

The parts of the C library that a text format rests on, over byte lists: the
character classes of the "C" locale, `strtoll` / `atoll` / `atoi`, the decimal
conversions of `printf`, `getline` and `strtok_r`.

The main facts are the round trips

* `strtoll_fmtInt` and `atoi_fmtInt`: a printed number reads back;
* `getlines_append`: a file of newline-terminated lines reads back line by line;
* `strtok_intercalate`: non-empty fields survive `strtok_r`.

A C string is the byte list before its terminating zero (`cstr`).
-/
import MtprotoProxy.CInt
import MtprotoProxy.Runs

namespace CLib

/-! ## Character classes -/

/-- `isdigit`. -/
def isDigit (c : UInt8) : Bool := 48 ≤ c && c ≤ 57

/-- `isalpha` in the "C" locale. -/
def isAlpha (c : UInt8) : Bool := (65 ≤ c && c ≤ 90) || (97 ≤ c && c ≤ 122)

/-- `isalnum` in the "C" locale. -/
def isAlnum (c : UInt8) : Bool := isDigit c || isAlpha c

/-- `isxdigit`. -/
def isXdigit (c : UInt8) : Bool :=
  isDigit c || (65 ≤ c && c ≤ 70) || (97 ≤ c && c ≤ 102)

/-- `isspace` in the "C" locale. -/
def isSpace (c : UInt8) : Bool := c == 32 || (9 ≤ c && c ≤ 13)

/-- `tolower` in the "C" locale. -/
def toLower (c : UInt8) : UInt8 := if 65 ≤ c && c ≤ 90 then c + 32 else c

/-- The C string at the start of a buffer: the bytes before the first zero. -/
def cstr (bs : Bytes) : Bytes := bs.takeWhile (· != 0)

theorem cstr_of_not_mem {bs : Bytes} (h : (0 : UInt8) ∉ bs) : cstr bs = bs := by
  unfold cstr
  rw [List.takeWhile_eq_self_iff]
  intro b hb
  simp only [bne_iff_ne, ne_eq]
  rintro rfl
  exact h hb

/-! ## Reading numbers -/

/-- The value of a string of decimal digits. -/
def decValue (ds : Bytes) : ℕ := ds.foldl (fun acc d => acc * 10 + (d.toNat - 48)) 0

/-- `strtoll (s, NULL, 10)`: blanks, a sign, digits; out-of-range values saturate. -/
def strtoll (s : Bytes) : Int64 :=
  match s.dropWhile isSpace with
  | 45 :: t => Int64.ofIntClamp (-(decValue (t.takeWhile isDigit) : ℤ))
  | 43 :: t => Int64.ofIntClamp (decValue (t.takeWhile isDigit))
  | t => Int64.ofIntClamp (decValue (t.takeWhile isDigit))

/-- `atoll`. -/
def atoll (s : Bytes) : Int64 := strtoll s

/-- `atoi`: the low 32 bits of `strtol`. -/
def atoi (s : Bytes) : ℤ := wrap32 (strtoll s).toInt

theorem isInt32_atoi (s : Bytes) : IsInt32 (atoi s) := isInt32_wrap32 _

/-! ## Printing numbers -/

/-- The decimal digits of a natural number. -/
def fmtNat (n : ℕ) : Bytes :=
  if n = 0 then [48] else (Nat.digits 10 n).reverse.map (fun d => UInt8.ofNat (48 + d))

/-- `%d` and `%lld`. -/
def fmtInt (z : ℤ) : Bytes :=
  if z < 0 then 45 :: fmtNat z.natAbs else fmtNat z.natAbs

theorem isDigit_ofNat {d : ℕ} (h : d < 10) : isDigit (UInt8.ofNat (48 + d)) = true := by
  interval_cases d <;> decide

theorem toNat_ofNat_digit {d : ℕ} (h : d < 10) : (UInt8.ofNat (48 + d)).toNat - 48 = d := by
  interval_cases d <;> decide

/-- Every character of a printed natural number is a digit. -/
theorem isDigit_of_mem_fmtNat {n : ℕ} {c : UInt8} (h : c ∈ fmtNat n) : isDigit c = true := by
  unfold fmtNat at h
  split at h
  · rw [List.mem_singleton.mp h]
    decide
  · obtain ⟨d, hd, rfl⟩ := List.mem_map.mp h
    exact isDigit_ofNat (Nat.digits_lt_base (by norm_num) (List.mem_reverse.mp hd))

theorem fmtNat_ne_nil (n : ℕ) : fmtNat n ≠ [] := by
  unfold fmtNat
  split
  · exact List.cons_ne_nil _ _
  · simp [Nat.digits_ne_nil_iff_ne_zero, *]

/-- Reading the digits of `n`, most significant first, gives `n`. -/
theorem decValue_fmtNat (n : ℕ) : decValue (fmtNat n) = n := by
  unfold fmtNat
  split
  · subst n
    rfl
  · unfold decValue
    rw [List.foldl_map, List.foldl_reverse]
    have hcongr : ∀ L : List ℕ, (∀ d ∈ L, d < 10) →
        L.foldr (fun d acc => acc * 10 + ((UInt8.ofNat (48 + d)).toNat - 48)) 0
          = Nat.ofDigits 10 L := by
      intro L hL
      induction L with
      | nil => rfl
      | cons d L ih =>
        rw [List.foldr_cons, ih (fun x hx => hL x (List.mem_cons_of_mem _ hx)),
          Nat.ofDigits_cons, toNat_ofNat_digit (hL d List.mem_cons_self)]
        ring
    rw [hcongr _ (fun d hd => Nat.digits_lt_base (by norm_num) hd), Nat.ofDigits_digits]

theorem takeWhile_isDigit_fmtNat (n : ℕ) : (fmtNat n).takeWhile isDigit = fmtNat n := by
  rw [List.takeWhile_eq_self_iff]
  exact fun c hc => isDigit_of_mem_fmtNat hc

theorem isDigit_not_isSpace {c : UInt8} (h : isDigit c = true) : isSpace c = false := by
  simp [isDigit, isSpace, UInt8.le_iff_toNat_le, ← UInt8.toNat_inj] at h ⊢
  omega

theorem isDigit_ne_sign {c : UInt8} (h : isDigit c = true) : c ≠ 45 ∧ c ≠ 43 := by
  constructor <;> rintro rfl <;> exact absurd h (by decide)

/-- `strtoll` of a string that starts with a digit. -/
theorem strtoll_of_digit {c : UInt8} {t : Bytes} (h : isDigit c = true) :
    strtoll (c :: t) = Int64.ofIntClamp (decValue ((c :: t).takeWhile isDigit)) := by
  unfold strtoll
  rw [List.dropWhile_cons_of_neg (by simp [isDigit_not_isSpace h])]
  obtain ⟨h1, h2⟩ := isDigit_ne_sign h
  split
  · rename_i heq
    exact absurd (List.cons.inj heq).1 h1
  · rename_i heq
    exact absurd (List.cons.inj heq).1 h2
  · rfl

/-- A printed number reads back, saturated to the range of `long long`. -/
theorem strtoll_fmtInt_clamp (z : ℤ) : strtoll (fmtInt z) = Int64.ofIntClamp z := by
  unfold fmtInt
  split
  · rename_i hz
    unfold strtoll
    rw [List.dropWhile_cons_of_neg (by decide)]
    simp only [takeWhile_isDigit_fmtNat, decValue_fmtNat]
    congr 1
    omega
  · rename_i hz
    obtain ⟨c, t, hct⟩ := List.exists_cons_of_ne_nil (fmtNat_ne_nil z.natAbs)
    have hc : isDigit c = true := isDigit_of_mem_fmtNat (n := z.natAbs) (by simp [hct])
    rw [hct, strtoll_of_digit hc, ← hct, takeWhile_isDigit_fmtNat, decValue_fmtNat]
    congr 1
    omega

/-- **Round trip of `%lld` and `atoll`.** -/
theorem strtoll_fmtInt (x : Int64) : strtoll (fmtInt x.toInt) = x := by
  rw [strtoll_fmtInt_clamp, Int64.ofIntClamp_toInt]

/-- **Round trip of `%d` and `atoi`.** -/
theorem atoi_fmtInt {z : ℤ} (h : IsInt32 z) : atoi (fmtInt z) = z := by
  unfold atoi
  obtain ⟨hlo, hhi⟩ := h
  rw [strtoll_fmtInt_clamp, Int64.toInt_ofIntClamp (by rw [Int64.toInt_minValue]; omega)
    (by rw [Int64.toInt_maxValue]; omega), wrap32_of_isInt32 ⟨hlo, hhi⟩]

/-- A printed number consists of digits, after an optional minus sign. -/
theorem mem_fmtInt {z : ℤ} {c : UInt8} (h : c ∈ fmtInt z) : c = 45 ∨ isDigit c = true := by
  unfold fmtInt at h
  split at h
  · rcases List.mem_cons.mp h with rfl | h
    · exact Or.inl rfl
    · exact Or.inr (isDigit_of_mem_fmtNat h)
  · exact Or.inr (isDigit_of_mem_fmtNat h)

theorem fmtInt_ne_nil (z : ℤ) : fmtInt z ≠ [] := by
  unfold fmtInt
  split
  · exact List.cons_ne_nil _ _
  · exact fmtNat_ne_nil _

/-! ## Lines -/

/-- The lines `getline` returns for a file, each with its newline; the last one may
lack it. -/
def getlines : Bytes → List Bytes
  | [] => []
  | b :: bs =>
    if b = 10 then [10] :: getlines bs
    else
      match getlines bs with
      | [] => [[b]]
      | l :: ls => (b :: l) :: ls

/-- A newline-terminated line is read as itself, and the rest of the file follows. -/
theorem getlines_append (l rest : Bytes) (h : (10 : UInt8) ∉ l) :
    getlines (l ++ 10 :: rest) = (l ++ [10]) :: getlines rest := by
  induction l with
  | nil => simp [getlines]
  | cons b l ih =>
    have hb : b ≠ 10 := fun hb => h (by simp [hb])
    have hl : (10 : UInt8) ∉ l := fun hl => h (List.mem_cons_of_mem _ hl)
    simp only [List.cons_append, getlines, if_neg hb, ih hl]

/-- A file of newline-terminated lines reads back line by line. -/
theorem getlines_flatten (ls : List Bytes) (h : ∀ l ∈ ls, (10 : UInt8) ∉ l) :
    getlines ((ls.map (· ++ [10])).flatten) = ls.map (· ++ [10]) := by
  induction ls with
  | nil => rfl
  | cons l ls ih =>
    rw [List.map_cons, List.flatten_cons, List.append_assoc, List.singleton_append,
      getlines_append l _ (h l List.mem_cons_self),
      ih (fun l' hl' => h l' (List.mem_cons_of_mem _ hl'))]

/-! ## Fields -/

/-- The tokens `strtok_r` returns for the delimiters `p`: the non-empty fields. -/
def strtok (p : UInt8 → Bool) (s : Bytes) : List Bytes :=
  (s.splitOnP p).filter (fun t => !t.isEmpty)

/-- A character of joined fields is the separator or a character of a field. -/
theorem mem_intercalate_singleton {sep c : UInt8} :
    ∀ {ls : List Bytes}, c ∈ ([sep] : Bytes).intercalate ls → c = sep ∨ ∃ l ∈ ls, c ∈ l
  | [], h => absurd h (by simp)
  | [l], h => by
    rw [List.intercalate_singleton] at h
    exact Or.inr ⟨l, List.mem_cons_self, h⟩
  | l :: l' :: ls, h => by
    rw [List.intercalate_cons_cons, List.append_assoc, List.mem_append, List.mem_append] at h
    rcases h with h | h | h
    · exact Or.inr ⟨l, List.mem_cons_self, h⟩
    · exact Or.inl (List.mem_singleton.mp h)
    · rcases mem_intercalate_singleton h with h | ⟨l'', hl'', h⟩
      · exact Or.inl h
      · exact Or.inr ⟨l'', List.mem_cons_of_mem _ hl'', h⟩

/-- Non-empty fields joined by one delimiter, and closed by another, are the tokens. -/
theorem strtok_intercalate (p : UInt8 → Bool) (sep fin : UInt8) (hsep : p sep = true)
    (hfin : p fin = true) (ls : List Bytes) (hne : ∀ l ∈ ls, l ≠ [])
    (hp : ∀ l ∈ ls, ∀ c ∈ l, p c = false) :
    strtok p ([sep].intercalate ls ++ [fin]) = ls := by
  unfold strtok
  induction ls with
  | nil => simp [List.splitOnP_cons_eq_if_modifyHead, hfin]
  | cons l ls ih =>
    have hl : ∀ c ∈ l, p c = false := hp l List.mem_cons_self
    have hlne : l ≠ [] := hne l List.mem_cons_self
    have ih := ih (fun l' h' => hne l' (List.mem_cons_of_mem _ h'))
      (fun l' h' => hp l' (List.mem_cons_of_mem _ h'))
    cases ls with
    | nil =>
      rw [List.intercalate_singleton,
        List.splitOnP_append_cons_of_forall_mem hl fin hfin []]
      simp [List.splitOnP_nil, hlne]
    | cons l' ls =>
      rw [List.intercalate_cons_cons, List.append_assoc, List.append_assoc,
        List.singleton_append, List.splitOnP_append_cons_of_forall_mem hl sep hsep,
        List.filter_cons, ih]
      simp [hlne]

end CLib
