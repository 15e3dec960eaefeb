/-
# The text forms of a secret: hex spelling, label, address, TSV columns

Models the string helpers of `net/net-tcp-rpc-ext-server.c` that stand between the
secret store and its text forms (state file, admin commands):

* `ext_secret16_to_hex`, `ext_hex16_to_secret`, `ext_secret16_from_hex`;
* `ext_sanitize_label`, `ext_sanitize_ip`;
* `ext_split_tsv_line`, `ext_is_int_str`.

The two facts the state file needs are `extSecret16FromHex_toHex` (the spelling
written for a secret is accepted and gives it back) and `sanitize_idem` (a sanitised
string is a fixed point of its sanitizer).
-/
import MtprotoProxy.CString

namespace MtprotoProxy

open CLib

/-! ## Hex spelling of a secret -/

/-- `unsigned char secret[16]`. -/
abbrev Secret : Type := { bs : Bytes // bs.length = 16 }

/-- `memset (secret, b, 16)`. -/
def Secret.fill (b : UInt8) : Secret := ⟨List.replicate 16 b, List.length_replicate⟩

/-- `xd[n]` for the table `"0123456789abcdef"`. -/
def hexDigit (n : UInt8) : UInt8 := if n < 10 then 48 + n else 87 + n

/-- The two digits `ext_secret16_to_hex` writes for a byte. -/
def byteHex (b : UInt8) : Bytes := [hexDigit (b >>> 4), hexDigit (b &&& 0x0f)]

/-- `ext_secret16_to_hex`. -/
def extSecret16ToHex (secret : Secret) : Bytes :=
  secret.val.flatMap byteHex

/-- The value `ext_hex16_to_secret` gives a hex digit. -/
def hexVal (c : UInt8) : UInt8 := if c ≤ 57 then c - 48 else toLower c - 97 + 10

/-- The bytes a string of hex digits spells, two digits a byte. -/
def hexBytes : Bytes → Bytes
  | hi :: lo :: t => ((hexVal hi <<< 4) ||| hexVal lo) :: hexBytes t
  | _ => []

theorem length_hexBytes : ∀ ds : Bytes, (hexBytes ds).length = ds.length / 2
  | [] => rfl
  | [_] => by simp [hexBytes]
  | _ :: _ :: t => by
    rw [hexBytes, List.length_cons, length_hexBytes t]
    simp only [List.length_cons]
    omega

/-- `ext_hex16_to_secret`: the first 32 characters have to be hex digits. -/
def extHex16ToSecret (hex : Bytes) : Option Secret :=
  if h : (hex.take 32).length = 32 ∧ (hex.take 32).all isXdigit = true then
    some ⟨hexBytes (hex.take 32), by rw [length_hexBytes, h.1]⟩
  else none

/-- The `dd` and `ee` branches of `ext_secret16_from_hex`: two prefix characters, the
secret, and an even number of further hex digits. -/
def extPrefixedHex (hex : Bytes) : Option Secret :=
  match extHex16ToSecret (hex.drop 2) with
  | none => none
  | some out =>
    if (hex.length - 34) % 2 ≠ 0 then none
    else if (hex.drop 34).all isXdigit then some out
    else none

/-- `ext_secret16_from_hex`; the argument is cut at its terminating zero. -/
def extSecret16FromHex (s : Bytes) : Option Secret :=
  let hex := cstr s
  if hex.length = 32 then extHex16ToSecret hex
  else if 34 ≤ hex.length ∧ (hex.take 2).map toLower = [100, 100] then extPrefixedHex hex
  else if 34 ≤ hex.length ∧ (hex.take 2).map toLower = [101, 101] then extPrefixedHex hex
  else none

/-- The two digits printed for a byte spell it. -/
theorem hexVal_hexDigit (b : UInt8) :
    (hexVal (hexDigit (b >>> 4)) <<< 4) ||| hexVal (hexDigit (b &&& 0x0f)) = b := by
  revert b
  decide +kernel

/-- The two digits of a byte. -/
theorem isXdigit_hexDigit (b : UInt8) :
    isXdigit (hexDigit (b >>> 4)) = true ∧ isXdigit (hexDigit (b &&& 0x0f)) = true := by
  revert b
  decide +kernel

/-- Bytes in hex are read back. -/
theorem hexBytes_flatMap (bs : Bytes) :
    hexBytes (bs.flatMap byteHex) = bs := by
  induction bs with
  | nil => rfl
  | cons b bs ih =>
    rw [List.flatMap_cons, byteHex, List.cons_append, List.cons_append, List.nil_append,
      hexBytes, ih, hexVal_hexDigit]

@[simp] theorem length_extSecret16ToHex (secret : Secret) :
    (extSecret16ToHex secret).length = 32 := by
  unfold extSecret16ToHex
  rw [List.length_flatMap]
  simp [byteHex, secret.property]

/-- A secret in hex consists of hex digits. -/
theorem isXdigit_of_mem_toHex {secret : Secret} {c : UInt8}
    (h : c ∈ extSecret16ToHex secret) : isXdigit c = true := by
  obtain ⟨b, -, hb⟩ := List.mem_flatMap.mp h
  simp only [byteHex, List.mem_cons, List.not_mem_nil, or_false] at hb
  rcases hb with rfl | rfl
  · exact (isXdigit_hexDigit b).1
  · exact (isXdigit_hexDigit b).2

theorem not_mem_toHex {secret : Secret} {c : UInt8} (h : isXdigit c = false) :
    c ∉ extSecret16ToHex secret := by
  intro hc
  rw [isXdigit_of_mem_toHex hc] at h
  exact absurd h (by decide)

/-- **The spelling of a secret is accepted and gives the secret back.** -/
theorem extSecret16FromHex_toHex (secret : Secret) :
    extSecret16FromHex (extSecret16ToHex secret) = some secret := by
  have hz : (0 : UInt8) ∉ extSecret16ToHex secret := not_mem_toHex (by decide)
  have hall : (extSecret16ToHex secret).all isXdigit = true :=
    List.all_eq_true.mpr (fun c hc => isXdigit_of_mem_toHex hc)
  have htake : (extSecret16ToHex secret).take 32 = extSecret16ToHex secret :=
    List.take_of_length_le (by simp)
  unfold extSecret16FromHex
  simp only [cstr_of_not_mem hz, length_extSecret16ToHex, if_true]
  unfold extHex16ToSecret
  rw [dif_pos ⟨by rw [htake]; simp, by rw [htake]; exact hall⟩]
  congr 1
  apply Subtype.ext
  simp only [htake]
  exact hexBytes_flatMap secret.val

/-! ## Sanitizers -/

/-- The loop both sanitizers run: each character of the input is copied, replaced or
dropped, until the input ends or `room` characters are written. -/
def sanitize (f : UInt8 → Option UInt8) : ℕ → Bytes → Bytes
  | 0, _ => []
  | _ + 1, [] => []
  | room + 1, c :: t =>
    if c = 0 then []
    else
      match f c with
      | some c' => c' :: sanitize f room t
      | none => sanitize f (room + 1) t

/-- What `ext_sanitize_label` writes for a character. -/
def labelChar (c : UInt8) : Option UInt8 :=
  if isAlnum c || c == 46 || c == 95 || c == 45 || c == 58 then some c
  else if c == 32 || c == 9 then some 95
  else none

/-- What `ext_sanitize_ip` writes for a character. -/
def ipChar (c : UInt8) : Option UInt8 :=
  if isAlnum c || c == 46 || c == 58 || c == 37 then some c else none

/-- `EXT_SECRET_LABEL_MAX`. -/
def extSecretLabelMax : ℕ := 96

/-- `ext_sanitize_label`. -/
def extSanitizeLabel (s : Bytes) : Bytes := sanitize labelChar (extSecretLabelMax - 1) s

/-- `ext_sanitize_ip`. -/
def extSanitizeIp (s : Bytes) : Bytes := sanitize ipChar 63 s

theorem length_sanitize_le (f : UInt8 → Option UInt8) :
    ∀ (s : Bytes) (room : ℕ), (sanitize f room s).length ≤ room := by
  intro s
  induction s with
  | nil => intro room; cases room <;> simp [sanitize]
  | cons c t ih =>
    intro room
    cases room with
    | zero => simp [sanitize]
    | succ room =>
      rw [sanitize]
      split
      · simp
      · split
        · have := ih room
          simpa using this
        · exact ih (room + 1)

/-- Every character written is an output of `f`. -/
theorem mem_sanitize (f : UInt8 → Option UInt8) {c' : UInt8} :
    ∀ (s : Bytes) (room : ℕ), c' ∈ sanitize f room s → ∃ c, f c = some c' := by
  intro s
  induction s with
  | nil => intro room h; cases room <;> simp [sanitize] at h
  | cons c t ih =>
    intro room h
    cases room with
    | zero => simp [sanitize] at h
    | succ room =>
      rw [sanitize] at h
      split at h
      · simp at h
      · split at h
        · rename_i d hd
          rcases List.mem_cons.mp h with rfl | h
          · exact ⟨c, hd⟩
          · exact ih room h
        · exact ih (room + 1) h

/-- A string of kept characters that fits is copied unchanged. -/
theorem sanitize_of_fixed (f : UInt8 → Option UInt8) :
    ∀ (s : Bytes) (room : ℕ), s.length ≤ room → (∀ c ∈ s, c ≠ 0 ∧ f c = some c) →
      sanitize f room s = s := by
  intro s
  induction s with
  | nil => intro room _ _; cases room <;> rfl
  | cons c t ih =>
    intro room hlen hfix
    obtain ⟨hc0, hfc⟩ := hfix c List.mem_cons_self
    cases room with
    | zero => simp at hlen
    | succ room =>
      simp only [sanitize, if_neg hc0, hfc]
      rw [ih room (by simpa using hlen) (fun d hd => hfix d (List.mem_cons_of_mem _ hd))]

/-- **Sanitising is idempotent** when `f` fixes its own outputs. -/
theorem sanitize_idem (f : UInt8 → Option UInt8) (room : ℕ) (s : Bytes)
    (hf : ∀ c c', f c = some c' → c' ≠ 0 ∧ f c' = some c') :
    sanitize f room (sanitize f room s) = sanitize f room s := by
  apply sanitize_of_fixed f _ _ (length_sanitize_le f s room)
  intro c hc
  obtain ⟨d, hd⟩ := mem_sanitize f s room hc
  exact hf d c hd

/-- A character that was let through is let through again. -/
theorem labelChar_fixed (c c' : UInt8) (h : labelChar c = some c') :
    c' ≠ 0 ∧ labelChar c' = some c' := by
  have hall : ∀ d : UInt8, (labelChar d).all (fun d' => d' ≠ 0 ∧ labelChar d' = some d') = true := by
    decide +kernel
  have hc := hall c
  rw [h] at hc
  simpa using hc

theorem ipChar_fixed (c c' : UInt8) (h : ipChar c = some c') :
    c' ≠ 0 ∧ ipChar c' = some c' := by
  have hall : ∀ d : UInt8, (ipChar d).all (fun d' => d' ≠ 0 ∧ ipChar d' = some d') = true := by
    decide +kernel
  have hc := hall c
  rw [h] at hc
  simpa using hc

/-- Sanitizing again changes nothing. -/
@[simp] theorem extSanitizeLabel_idem (s : Bytes) :
    extSanitizeLabel (extSanitizeLabel s) = extSanitizeLabel s :=
  sanitize_idem labelChar _ s labelChar_fixed

@[simp] theorem extSanitizeIp_idem (s : Bytes) :
    extSanitizeIp (extSanitizeIp s) = extSanitizeIp s :=
  sanitize_idem ipChar _ s ipChar_fixed

/-- A character of a text the sanitizer keeps is written as itself. -/
theorem labelChar_of_mem_fixed {s : Bytes} {c : UInt8} (hs : extSanitizeLabel s = s)
    (h : c ∈ s) : labelChar c = some c := by
  rw [← hs] at h
  obtain ⟨d, hd⟩ := mem_sanitize labelChar s _ h
  exact (labelChar_fixed d c hd).2

theorem ipChar_of_mem_fixed {s : Bytes} {c : UInt8} (hs : extSanitizeIp s = s)
    (h : c ∈ s) : ipChar c = some c := by
  rw [← hs] at h
  obtain ⟨d, hd⟩ := mem_sanitize ipChar s _ h
  exact (ipChar_fixed d c hd).2

/-! ## TSV columns -/

/-- `ext_split_tsv_line`: the line is cut at its first CR or LF, then at each tab, into
at most `maxCols` columns. -/
def extSplitTsvLine (line : Bytes) (maxCols : ℕ) : List Bytes :=
  (((cstr line).takeWhile (fun c => c != 13 && c != 10)).splitOn 9).take maxCols

/-- `ext_is_int_str`: an optional sign and at least one digit, nothing else. -/
def extIsIntStr (s : Bytes) : Bool :=
  match s with
  | [] => false
  | c :: t =>
    let ds := if c == 45 || c == 43 then t else s
    !ds.isEmpty && ds.all isDigit

/-- A printed number is an integer string. -/
theorem extIsIntStr_fmtInt (z : ℤ) : extIsIntStr (fmtInt z) = true := by
  have hall : (fmtNat z.natAbs).all isDigit = true :=
    List.all_eq_true.mpr (fun c hc => isDigit_of_mem_fmtNat hc)
  have hne := fmtNat_ne_nil z.natAbs
  unfold fmtInt
  split
  · simp [extIsIntStr, hall, hne]
  · obtain ⟨c, t, hct⟩ := List.exists_cons_of_ne_nil hne
    have hc : isDigit c = true := isDigit_of_mem_fmtNat (n := z.natAbs) (by simp [hct])
    obtain ⟨h1, h2⟩ := isDigit_ne_sign hc
    rw [hct] at hall ⊢
    simp [extIsIntStr, h1, h2] at hall ⊢
    exact hall

/-- The columns of a line written as tab-separated fields and a newline. -/
theorem extSplitTsvLine_intercalate (cols : List Bytes) (maxCols : ℕ) (hne : cols ≠ [])
    (hlen : cols.length ≤ maxCols)
    (hc : ∀ s ∈ cols, ∀ c ∈ s, c ≠ 0 ∧ c ≠ 9 ∧ c ≠ 10 ∧ c ≠ 13) :
    extSplitTsvLine ([9].intercalate cols ++ [10]) maxCols = cols := by
  have hmem : ∀ c ∈ ([9] : Bytes).intercalate cols, c ≠ 0 ∧ c ≠ 10 ∧ c ≠ 13 := by
    intro c h
    rcases mem_intercalate_singleton h with rfl | ⟨s, hs, h⟩
    · decide
    · have := hc s hs c h
      exact ⟨this.1, this.2.2.1, this.2.2.2⟩
  unfold extSplitTsvLine
  rw [cstr_of_not_mem, List.takeWhile_append_of_pos, List.takeWhile_cons_of_neg (by decide),
    List.append_nil, List.splitOn_intercalate 9 (fun s hs h => (hc s hs 9 h).2.1 rfl) hne,
    List.take_of_length_le hlen]
  · intro c h
    obtain ⟨-, h10, h13⟩ := hmem c h
    simp [h10, h13]
  · intro h
    rcases List.mem_append.mp h with h | h
    · exact (hmem 0 h).1 rfl
    · exact absurd (List.mem_singleton.mp h) (by decide)

end MtprotoProxy
