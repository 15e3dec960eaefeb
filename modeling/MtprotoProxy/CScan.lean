/-
# Searching and scanning C strings

`strstr`, `strncasecmp`, the checked use of `strtoll` (the conversion together with
its `end` pointer and `errno`), the words of `strtok` one by one and `strtoul`, over byte
lists without a terminating zero.

* `strstr_spec`: `strstr` answers with a suffix of the text that starts with the needle;
* `strtollChecked_fmtSigned`: a signed decimal number in range reads as itself, whatever
  follows its last digit.
-/
import MtprotoProxy.CString

namespace CLib

/-- A buffer holds the C string that its first zero ends. -/
theorem cstr_append_zero {cs : Bytes} (h : (0 : UInt8) ∉ cs) (rest : Bytes) :
    cstr (cs ++ 0 :: rest) = cs := by
  have hpos : ∀ c ∈ cs, (c != 0) = true := by
    intro c hc
    rw [bne_iff_ne]
    rintro rfl
    exact h hc
  unfold cstr
  rw [List.takeWhile_append_of_pos hpos, List.takeWhile_cons_of_neg (by decide),
    List.append_nil]

/-! ## `strstr` -/

/-- `strstr (s, needle)`: what starts at the first occurrence of `needle`. -/
def strstr (needle : Bytes) : Bytes → Option Bytes
  | [] => if needle = [] then some [] else none
  | c :: t => if needle.isPrefixOf (c :: t) then some (c :: t) else strstr needle t

/-- `strstr` answers with a suffix of the text that starts with the needle. -/
theorem strstr_spec {needle s t : Bytes} (h : strstr needle s = some t) :
    needle <+: t ∧ t <:+ s := by
  induction s with
  | nil =>
    rw [strstr] at h
    split at h
    · rename_i hn
      rw [hn, ← Option.some.inj h]
      exact ⟨List.prefix_rfl, List.suffix_rfl⟩
    · exact absurd h (by simp)
  | cons c s ih =>
    rw [strstr] at h
    split at h
    · rename_i hp
      rw [← Option.some.inj h]
      exact ⟨List.isPrefixOf_iff_prefix.mp hp, List.suffix_rfl⟩
    · obtain ⟨h1, h2⟩ := ih h
      exact ⟨h1, h2.trans (List.suffix_cons c s)⟩

/-! ## `strncasecmp` -/

/-- `!strncasecmp (s, t, strlen (t))`, for `t` in lower case. -/
def startsNoCase (t s : Bytes) : Bool := (s.take t.length).map toLower == t

theorem startsNoCase_append {t : Bytes} (ht : t.map toLower = t) (rest : Bytes) :
    startsNoCase t (t ++ rest) = true := by
  unfold startsNoCase
  rw [List.take_left, ht]
  exact beq_self_eq_true t

/-- The first character of a text that starts with a word. -/
theorem toLower_of_startsNoCase {c d : UInt8} {t s : Bytes}
    (h : startsNoCase (c :: t) (d :: s) = true) : toLower d = c := by
  have hmap := eq_of_beq h
  rw [List.length_cons, List.take_succ_cons, List.map_cons] at hmap
  exact (List.cons.inj hmap).1

/-! ## `strtoll` with its end and its error -/

/-- Whether `strtoll` sees a minus sign, and the digits it reads. -/
def intToken (s : Bytes) : Bool × Bytes :=
  match s.dropWhile isSpace with
  | 45 :: t => (true, t.takeWhile isDigit)
  | 43 :: t => (false, t.takeWhile isDigit)
  | t => (false, t.takeWhile isDigit)

/-- The number with a sign and digits. -/
def signed (neg : Bool) (n : ℕ) : ℤ := if neg then -n else n

/-- `strtoll (s, &end, 10)`; `none` when `end == s` (no digits) or `errno` is set (the
number is out of range). -/
def strtollChecked (s : Bytes) : Option Int64 :=
  let (neg, ds) := intToken s
  let v := signed neg (decValue ds)
  if ds = [] then none
  else if -2 ^ 63 ≤ v ∧ v < 2 ^ 63 then some (Int64.ofInt v)
  else none

/-- A minus sign, when there is one, and the digits of a number. -/
def fmtSigned (neg : Bool) (n : ℕ) : Bytes := if neg then 45 :: fmtNat n else fmtNat n

/-- The text is at its end or goes on with something other than a digit. -/
def NoDigit (rest : Bytes) : Prop := ∀ c ∈ rest.head?, isDigit c = false

theorem takeWhile_isDigit_append {n : ℕ} {rest : Bytes} (h : NoDigit rest) :
    (fmtNat n ++ rest).takeWhile isDigit = fmtNat n := by
  rw [List.takeWhile_append_of_pos (fun c hc => isDigit_of_mem_fmtNat hc)]
  cases rest with
  | nil => simp
  | cons c rest =>
    have hc : isDigit c = false := h c rfl
    rw [List.takeWhile_cons_of_neg (by simp [hc]), List.append_nil]

/-- The sign and the digits of a printed number are the ones it was printed with. -/
theorem intToken_fmtSigned (neg : Bool) (n : ℕ) {rest : Bytes} (h : NoDigit rest) :
    intToken (fmtSigned neg n ++ rest) = (neg, fmtNat n) := by
  unfold intToken fmtSigned
  cases neg with
  | true =>
    rw [if_pos rfl, List.cons_append, List.dropWhile_cons_of_neg (by decide)]
    simp only [takeWhile_isDigit_append h]
  | false =>
    obtain ⟨c, t, hct⟩ := List.exists_cons_of_ne_nil (fmtNat_ne_nil n)
    have hc : isDigit c = true := isDigit_of_mem_fmtNat (n := n) (by simp [hct])
    obtain ⟨h1, h2⟩ := isDigit_ne_sign hc
    have hdigits := takeWhile_isDigit_append (n := n) h
    rw [hct, List.cons_append] at hdigits
    rw [if_neg (by decide), hct, List.cons_append,
      List.dropWhile_cons_of_neg (by simp [isDigit_not_isSpace hc])]
    split
    · rename_i heq
      exact absurd (List.cons.inj heq).1 h1
    · rename_i heq
      exact absurd (List.cons.inj heq).1 h2
    · rw [hdigits]

/-- **A signed number reads as itself**, up to the first character that is no digit,
when it is in the range of `long long`. -/
theorem strtollChecked_fmtSigned (neg : Bool) (n : ℕ) {rest : Bytes} (h : NoDigit rest) :
    strtollChecked (fmtSigned neg n ++ rest) =
      if -2 ^ 63 ≤ signed neg n ∧ signed neg n < 2 ^ 63 then some (Int64.ofInt (signed neg n))
      else none := by
  unfold strtollChecked
  simp only [intToken_fmtSigned neg n h, decValue_fmtNat, if_neg (fmtNat_ne_nil n)]

/-! ## `strtok` word by word -/

/-- Delimiters at the start are skipped. -/
theorem strtok_dropWhile (p : UInt8 → Bool) (s : Bytes) : strtok p (s.dropWhile p) = strtok p s := by
  induction s with
  | nil => rfl
  | cons c s ih =>
    by_cases hc : p c = true
    · rw [List.dropWhile_cons_of_pos hc, ih]
      unfold strtok
      rw [List.splitOnP_cons_eq_if_modifyHead, if_pos hc, List.filter_cons_of_neg (by simp)]
    · rw [List.dropWhile_cons_of_neg hc]

/-- **The first word**, and the words of what follows it. -/
theorem strtok_word (p : UInt8 → Bool) {s : Bytes} (h : s.takeWhile (fun c => !p c) ≠ []) :
    strtok p s
      = s.takeWhile (fun c => !p c) :: strtok p (s.dropWhile (fun c => !p c)) := by
  have hword : ∀ c ∈ s.takeWhile (fun c => !p c), p c = false := by
    intro c hc
    have hnot := List.mem_takeWhile_imp hc
    rwa [Bool.not_eq_true'] at hnot
  have hkeep (L : List Bytes) :
      (s.takeWhile (fun c => !p c) :: L).filter (fun t => !t.isEmpty)
        = s.takeWhile (fun c => !p c) :: L.filter (fun t => !t.isEmpty) := by
    apply List.filter_cons_of_pos
    rw [Bool.not_eq_true', List.isEmpty_eq_false_iff]
    exact h
  conv_lhs => rw [← List.takeWhile_append_dropWhile (p := fun c => !p c) (l := s)]
  cases hrest : s.dropWhile (fun c => !p c) with
  | nil =>
    unfold strtok
    rw [List.append_nil, List.splitOnP_eq_singleton hword, hkeep, List.splitOnP_nil]
    rfl
  | cons c rest =>
    have hsep : p c = true := by
      have hhead := List.head_dropWhile_not (fun c => !p c)
        (show s.dropWhile (fun c => !p c) ≠ [] by rw [hrest]; exact List.cons_ne_nil _ _)
      simpa only [hrest, List.head_cons, Bool.not_eq_false'] using hhead
    rw [← strtok_dropWhile p (c :: rest), List.dropWhile_cons_of_pos hsep, strtok_dropWhile]
    unfold strtok
    rw [List.splitOnP_append_cons_of_forall_mem hword c hsep, hkeep]

/-- There are no more words than characters. -/
theorem length_strtok_le (p : UInt8 → Bool) (s : Bytes) : (strtok p s).length ≤ s.length := by
  induction hn : s.length using Nat.strong_induction_on generalizing s with
  | _ n ih =>
    rw [← strtok_dropWhile]
    have hle := (List.dropWhile_suffix p (l := s)).length_le
    by_cases hword : (s.dropWhile p).takeWhile (fun c => !p c) = []
    · have hnil : s.dropWhile p = [] := by
        cases hs : s.dropWhile p with
        | nil => rfl
        | cons c t =>
          have hhead := List.head_dropWhile_not p
            (show s.dropWhile p ≠ [] by rw [hs]; exact List.cons_ne_nil _ _)
          simp only [hs, List.head_cons] at hhead
          rw [hs, List.takeWhile_cons_of_pos (by rw [hhead]; rfl)] at hword
          cases hword
      rw [hnil]
      exact Nat.zero_le _
    · have hsplit := congrArg List.length
        (List.takeWhile_append_dropWhile (p := fun c => !p c) (l := s.dropWhile p))
      rw [List.length_append] at hsplit
      have hpos := List.length_pos_iff.mpr hword
      rw [strtok_word p hword, List.length_cons]
      have hrest := ih _ (by omega) ((s.dropWhile p).dropWhile (fun c => !p c)) rfl
      omega

/-! ## `strtoul` with its end -/

/-- Whether there is a minus sign, and what follows the sign. -/
def signOf : Bytes → Bool × Bytes
  | 45 :: t => (true, t)
  | 43 :: t => (false, t)
  | t => (false, t)

/-- `strtoul (s, &end, 10)`: the number, and the text at `end`.  A minus sign negates the number, and
a number out of range gives `ULONG_MAX`. -/
def strtoul (s : Bytes) : ℕ × Bytes :=
  let (neg, t) := signOf (s.dropWhile isSpace)
  let v := decValue (t.takeWhile isDigit)
  if t.takeWhile isDigit = [] then (0, s)
  else if 2 ^ 64 ≤ v then (2 ^ 64 - 1, t.dropWhile isDigit)
  else (if neg then (2 ^ 64 - v) % 2 ^ 64 else v, t.dropWhile isDigit)

/-- `strtoul` of a text that starts with a digit. -/
theorem strtoul_of_digit {s : Bytes} (h : s.takeWhile isDigit ≠ []) :
    strtoul s = (min (decValue (s.takeWhile isDigit)) (2 ^ 64 - 1), s.dropWhile isDigit) := by
  cases s with
  | nil => exact absurd rfl h
  | cons c t =>
    have hc : isDigit c = true := by
      by_contra hc
      exact h (List.takeWhile_cons_of_neg hc)
    obtain ⟨hminus, hplus⟩ := isDigit_ne_sign hc
    have hsign : signOf ((c :: t).dropWhile isSpace) = (false, c :: t) := by
      rw [List.dropWhile_cons_of_neg (by simp [isDigit_not_isSpace hc])]
      unfold signOf
      split
      · rename_i heq
        exact absurd (List.cons.inj heq).1 hminus
      · rename_i heq
        exact absurd (List.cons.inj heq).1 hplus
      · rfl
    unfold strtoul
    simp only [hsign, if_neg h, Bool.false_eq_true, if_false]
    by_cases hbig : 2 ^ 64 ≤ decValue ((c :: t).takeWhile isDigit)
    · rw [if_pos hbig, min_eq_right (by omega)]
    · rw [if_neg hbig, min_eq_left (by omega)]

theorem length_signOf_le (s : Bytes) : (signOf s).2.length ≤ s.length := by
  unfold signOf
  split
  · exact Nat.le_succ _
  · exact Nat.le_succ _
  · exact le_rfl

/-- **`strtoul` finds no number**, or its end is further on. -/
theorem strtoul_cases (s : Bytes) :
    ((signOf (s.dropWhile isSpace)).2.takeWhile isDigit = [] ∧ strtoul s = (0, s)) ∨
    ((signOf (s.dropWhile isSpace)).2.takeWhile isDigit ≠ [] ∧
      (strtoul s).2.length < s.length) := by
  obtain ⟨neg, t, hsign⟩ : ∃ neg t, signOf (s.dropWhile isSpace) = (neg, t) := ⟨_, _, rfl⟩
  have hle := length_signOf_le (s.dropWhile isSpace)
  have hspace := (List.dropWhile_suffix isSpace (l := s)).length_le
  rw [hsign] at hle
  unfold strtoul
  simp only [hsign]
  by_cases hds : t.takeWhile isDigit = []
  · left
    rw [if_pos hds]
    exact ⟨hds, rfl⟩
  · right
    have hsplit := congrArg List.length (List.takeWhile_append_dropWhile (p := isDigit) (l := t))
    rw [List.length_append] at hsplit
    have hpos := List.length_pos_iff.mpr hds
    have hlt : (t.dropWhile isDigit).length < s.length := by
      dsimp only at hle
      omega
    rw [if_neg hds]
    refine ⟨hds, ?_⟩
    split_ifs <;> exact hlt

/-- What `strtoul` skips does not matter. -/
theorem strtoul_congr {s s' : Bytes} (h : s.dropWhile isSpace = s'.dropWhile isSpace)
    (hs : strtoul s ≠ (0, s)) : strtoul s' = strtoul s ∧ (strtoul s').2.length < s'.length := by
  rcases strtoul_cases s with ⟨-, hnone⟩ | ⟨hds, -⟩
  · exact absurd hnone hs
  · rcases strtoul_cases s' with ⟨hnil, -⟩ | ⟨-, hlt⟩
    · rw [h] at hds
      exact absurd hnil hds
    · refine ⟨?_, hlt⟩
      unfold strtoul
      rw [h] at hds ⊢
      simp only [if_neg hds]

end CLib
