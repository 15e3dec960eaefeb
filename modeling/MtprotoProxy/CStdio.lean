/-
# Formatted input and output of the C library

`sscanf` for the directives white space, a literal character, `%ns` and `%d`, and the conversions
`%.nd` and `%x` of `sprintf`, over byte lists without a terminating zero.

`sscanf` answers with the values that it assigned, so that their number is what the function
returns, but for `EOF`, which the list does not tell from 0.  A number out of range saturates as
in `strtol` and is cut to an `int`.

What `%.nd` prints, `%d` reads (`scanInt_append`, `decValue_padDigits`), and the digits of `%x` have
the value that was printed (`hexValue_fmtHex`).
-/
import MtprotoProxy.CScan

namespace CLib

/-! ## `sprintf` -/

/-- Zeros in front of digits up to the precision. -/
def padDigits (n : ℕ) (ds : Bytes) : Bytes := List.replicate (n - ds.length) 48 ++ ds

/-- `%.nd`. -/
def fmtPrec (n : ℕ) (z : ℤ) : Bytes :=
  if z < 0 then 45 :: padDigits n (fmtNat z.natAbs) else padDigits n (fmtNat z.natAbs)

/-- The texts of a natural number. -/
theorem fmtPrec_natCast (n k : ℕ) : fmtPrec n (k : ℤ) = padDigits n (fmtNat k) := by
  rw [fmtPrec, if_neg (by omega), Int.natAbs_natCast]

theorem fmtInt_natCast (k : ℕ) : fmtInt (k : ℤ) = fmtNat k := by
  rw [fmtInt, if_neg (by omega), Int.natAbs_natCast]

/-- A padded number consists of digits. -/
theorem isDigit_of_mem_padDigits {n k : ℕ} {c : UInt8} (h : c ∈ padDigits n (fmtNat k)) :
    isDigit c = true := by
  rcases List.mem_append.mp h with h | h
  · rw [List.eq_of_mem_replicate h]
    decide
  · exact isDigit_of_mem_fmtNat h

theorem padDigits_ne_nil (n k : ℕ) : padDigits n (fmtNat k) ≠ [] := by
  intro h
  exact fmtNat_ne_nil k (List.append_eq_nil_iff.mp h).2

/-- Zeros in front do not change a number. -/
theorem decValue_padDigits (n k : ℕ) : decValue (padDigits n (fmtNat k)) = k := by
  have hzeros : ∀ m, (List.replicate m (48 : UInt8)).foldl
      (fun acc d => acc * 10 + (d.toNat - 48)) 0 = 0 := by
    intro m
    induction m with
    | zero => rfl
    | succ m ih => rw [List.replicate_succ, List.foldl_cons]; exact ih
  have hvalue := decValue_fmtNat k
  unfold decValue at hvalue
  rw [padDigits, decValue, List.foldl_append, hzeros, hvalue]

/-! ### Hexadecimal digits -/

/-- The digit of a value below 16, in lower case. -/
def hexChar (d : ℕ) : UInt8 := if d < 10 then UInt8.ofNat (48 + d) else UInt8.ofNat (87 + d)

/-- `%x`. -/
def fmtHex (n : ℕ) : Bytes := if n = 0 then [48] else (Nat.digits 16 n).reverse.map hexChar

/-- The value of a hexadecimal digit, in lower or upper case. -/
def hexDigitValue (c : UInt8) : ℕ :=
  if (c ||| 0x20) ≤ 57 then (c ||| 0x20).toNat - 48 else (c ||| 0x20).toNat - 97 + 10

/-- The value of hexadecimal digits. -/
def hexValue (ds : Bytes) : ℕ := ds.foldl (fun v c => v * 16 + hexDigitValue c) 0

/-- A hex digit is read back. -/
theorem hexChar_spec {d : ℕ} (h : d < 16) :
    isXdigit (hexChar d) = true ∧ hexDigitValue (hexChar d) = d := by
  revert h d
  decide +kernel

theorem fmtHex_ne_nil (n : ℕ) : fmtHex n ≠ [] := by
  unfold fmtHex
  split
  · exact List.cons_ne_nil _ _
  · rename_i h
    simpa using Nat.digits_ne_nil_iff_ne_zero.mpr h

/-- A hex number consists of hex digits. -/
theorem isXdigit_of_mem_fmtHex {n : ℕ} {c : UInt8} (h : c ∈ fmtHex n) : isXdigit c = true := by
  unfold fmtHex at h
  split at h
  · rw [List.mem_singleton.mp h]
    decide
  · obtain ⟨d, hd, rfl⟩ := List.mem_map.mp h
    exact (hexChar_spec (Nat.digits_lt_base (by norm_num) (List.mem_reverse.mp hd))).1

/-- A number below `16 ^ k` has at most `k` digits. -/
theorem length_fmtHex_le {n k : ℕ} (hk : 0 < k) (h : n < 16 ^ k) : (fmtHex n).length ≤ k := by
  unfold fmtHex
  split
  · exact hk
  · rw [List.length_map, List.length_reverse]
    exact (Nat.digits_length_le_iff (by norm_num) n).mpr h

/-- **Round trip of `%x`.** -/
theorem hexValue_fmtHex (n : ℕ) : hexValue (fmtHex n) = n := by
  unfold fmtHex
  split
  · rename_i h
    rw [h]
    rfl
  · have hfold : ∀ ds : List ℕ, (∀ d ∈ ds, d < 16) →
        (ds.reverse.map hexChar).foldl (fun v c => v * 16 + hexDigitValue c) 0
          = Nat.ofDigits 16 ds := by
      intro ds
      induction ds with
      | nil => intro _; rfl
      | cons d ds ih =>
        intro hds
        rw [List.reverse_cons, List.map_append, List.foldl_append,
          ih (fun e he => hds e (List.mem_cons_of_mem _ he)), Nat.ofDigits_cons, List.map_singleton,
          List.foldl_cons, List.foldl_nil, (hexChar_spec (hds d List.mem_cons_self)).2]
        ring
    rw [hexValue, hfold _ (fun d hd => Nat.digits_lt_base (by norm_num) hd), Nat.ofDigits_digits]

/-! ## `sscanf` -/

/-- A directive of a format: white space, a character, `%ns` or `%d`. -/
inductive ScanDirective where
  | blank
  | char (c : UInt8)
  | word (width : ℕ)
  | int

/-- A value that a conversion assigned. -/
inductive ScanValue where
  | word (w : Bytes)
  | int (v : ℤ)
  deriving DecidableEq

/-- `%ns`: the word, and the text after it. -/
def scanWord (width : ℕ) (s : Bytes) : Option (Bytes × Bytes) :=
  let t := s.dropWhile isSpace
  let w := (t.take width).takeWhile (fun c => !isSpace c)
  if w = [] then none else some (w, t.drop w.length)

/-- `%d`: the number, and the text after it. -/
def scanInt (s : Bytes) : Option (ℤ × Bytes) :=
  let (neg, t) := signOf (s.dropWhile isSpace)
  let ds := t.takeWhile isDigit
  if ds = [] then none
  else some (wrap32 (Int64.ofIntClamp (signed neg (decValue ds))).toInt, t.dropWhile isDigit)

/-- `sscanf`: the values that are assigned until a directive fails. -/
def sscanf : List ScanDirective → Bytes → List ScanValue
  | [], _ => []
  | .blank :: ds, s => sscanf ds (s.dropWhile isSpace)
  | .char _ :: _, [] => []
  | .char c :: ds, c' :: s => if c' = c then sscanf ds s else []
  | .word width :: ds, s =>
    match scanWord width s with
    | some (w, s) => .word w :: sscanf ds s
    | none => []
  | .int :: ds, s =>
    match scanInt s with
    | some (v, s) => .int v :: sscanf ds s
    | none => []

/-- A word at the start of a text, which its width or what follows it ends. -/
theorem scanWord_append {width : ℕ} {w rest : Bytes} (hw : ∀ c ∈ w, isSpace c = false)
    (hne : w ≠ []) (hlen : w.length ≤ width)
    (hend : w.length = width ∨ ∀ c ∈ rest.head?, isSpace c = true) :
    scanWord width (w ++ rest) = some (w, rest) := by
  obtain ⟨c, t, rfl⟩ := List.exists_cons_of_ne_nil hne
  have hskip : (c :: t ++ rest).dropWhile isSpace = c :: t ++ rest := by
    rw [List.cons_append, List.dropWhile_cons_of_neg (by simp [hw c List.mem_cons_self])]
  have hword : ((c :: t ++ rest).take width).takeWhile (fun c => !isSpace c) = c :: t := by
    rw [List.take_append, List.take_of_length_le hlen,
      List.takeWhile_append_of_pos (fun a ha => by simp [hw a ha])]
    have hnil : (rest.take (width - (c :: t).length)).takeWhile (fun c => !isSpace c) = [] := by
      rcases hend with heq | hspace
      · rw [heq, Nat.sub_self]
        rfl
      · cases rest with
        | nil => simp
        | cons a rest =>
          cases hm : width - (c :: t).length with
          | zero => rfl
          | succ m =>
            rw [List.take_succ_cons, List.takeWhile_cons_of_neg (by simp [hspace a rfl])]
    rw [hnil, List.append_nil]
  unfold scanWord
  simp only [hskip, hword, if_neg hne, List.drop_left]

/-- **Digits at the start of a text** read as their value, up to the first other character. -/
theorem scanInt_append {ds rest : Bytes} (hds : ∀ c ∈ ds, isDigit c = true) (hne : ds ≠ [])
    (hrest : NoDigit rest) (hlt : decValue ds < 2 ^ 31) :
    scanInt (ds ++ rest) = some ((decValue ds : ℤ), rest) := by
  obtain ⟨c, t, rfl⟩ := List.exists_cons_of_ne_nil hne
  have hc : isDigit c = true := hds c List.mem_cons_self
  obtain ⟨hminus, hplus⟩ := isDigit_ne_sign hc
  have hskip : (c :: t ++ rest).dropWhile isSpace = c :: t ++ rest := by
    rw [List.cons_append, List.dropWhile_cons_of_neg (by simp [isDigit_not_isSpace hc])]
  have hsign : signOf (c :: t ++ rest) = (false, c :: t ++ rest) := by
    rw [List.cons_append]
    unfold signOf
    split
    · rename_i heq
      exact absurd (List.cons.inj heq).1 hminus
    · rename_i heq
      exact absurd (List.cons.inj heq).1 hplus
    · rfl
  have htake : (c :: t ++ rest).takeWhile isDigit = c :: t := by
    rw [List.takeWhile_append_of_pos hds]
    cases rest with
    | nil => simp
    | cons a rest =>
      rw [List.takeWhile_cons_of_neg (by simp [hrest a rfl]), List.append_nil]
  have hdrop : (c :: t ++ rest).dropWhile isDigit = rest := by
    have hsplit := List.takeWhile_append_dropWhile (p := isDigit) (l := c :: t ++ rest)
    rw [htake] at hsplit
    exact List.append_cancel_left hsplit
  have hvalue : wrap32 (Int64.ofIntClamp (signed false (decValue (c :: t)))).toInt
      = (decValue (c :: t) : ℤ) := by
    have hsigned : signed false (decValue (c :: t)) = (decValue (c :: t) : ℤ) := rfl
    rw [hsigned, Int64.toInt_ofIntClamp (by rw [Int64.toInt_minValue]; omega)
      (by rw [Int64.toInt_maxValue]; omega), wrap32_of_isInt32 ⟨by omega, by omega⟩]
  unfold scanInt
  simp only [hskip, hsign, htake, if_neg hne, hdrop, hvalue]

/-! ### One directive at a time -/

/-- What the directives of `sscanf` take. -/
theorem sscanf_word {width : ℕ} {ds : List ScanDirective} {w rest : Bytes}
    (hw : ∀ c ∈ w, isSpace c = false) (hne : w ≠ []) (hlen : w.length ≤ width)
    (hend : w.length = width ∨ ∀ c ∈ rest.head?, isSpace c = true) :
    sscanf (.word width :: ds) (w ++ rest) = .word w :: sscanf ds rest := by
  rw [sscanf, scanWord_append hw hne hlen hend]

theorem sscanf_int {ds : List ScanDirective} {digits rest : Bytes}
    (hds : ∀ c ∈ digits, isDigit c = true) (hne : digits ≠ []) (hrest : NoDigit rest)
    (hlt : decValue digits < 2 ^ 31) :
    sscanf (.int :: ds) (digits ++ rest) = .int (decValue digits) :: sscanf ds rest := by
  rw [sscanf, scanInt_append hds hne hrest hlt]

theorem sscanf_char {ds : List ScanDirective} {c : UInt8} {rest : Bytes} :
    sscanf (.char c :: ds) (c :: rest) = sscanf ds rest := by
  rw [sscanf, if_pos rfl]

/-- One space, and then something else. -/
theorem sscanf_blank {ds : List ScanDirective} {w rest : Bytes} (hne : w ≠ [])
    (hw : ∀ c ∈ w, isSpace c = false) :
    sscanf (.blank :: ds) (32 :: (w ++ rest)) = sscanf ds (w ++ rest) := by
  obtain ⟨c, t, rfl⟩ := List.exists_cons_of_ne_nil hne
  have hc := hw c List.mem_cons_self
  rw [sscanf, List.dropWhile_cons_of_pos (by decide), List.cons_append,
    List.dropWhile_cons_of_neg (by simp [hc])]

end CLib
