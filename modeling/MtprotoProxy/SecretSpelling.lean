/-
# Which texts spell a secret

The text forms that the admin commands and the state file take for a secret: 32 hex digits, or
`dd` or `ee` in front of them and an even number of further hex digits behind them.  The three
forms overlap, since `d` and `e` are hex digits; `Spelling` says which 32 digits count.

`secret_spellings` puts together that `ext_secret16_from_hex` takes exactly these texts, that it
reads back what `ext_secret16_to_hex` writes, and that the spellings of one secret are the same
argument for every admin command.
-/
import MtprotoProxy.SecretAdmin

namespace MtprotoProxy

open CLib

/-! ## The digits of a spelling -/

/-- `dd` or `ee`, in any case. -/
def IsLinkMark (p q : UInt8) : Prop :=
  toLower p = 100 ∧ toLower q = 100 ∨ toLower p = 101 ∧ toLower q = 101

/-- **The text spells a secret with these 32 digits.** -/
inductive Spelling : Bytes → Bytes → Prop
  | plain {digits : Bytes} (length_eq : digits.length = 32)
      (xdigits : digits.all isXdigit = true) : Spelling digits digits
  | link {p q : UInt8} {digits suffix : Bytes} (mark : IsLinkMark p q)
      (length_eq : digits.length = 32) (xdigits : digits.all isXdigit = true)
      (even : suffix.length % 2 = 0) (suffix_xdigits : suffix.all isXdigit = true) :
      Spelling (p :: q :: (digits ++ suffix)) digits

/-- The value of a hex digit. -/
def digitValue (c : UInt8) : ℕ :=
  if c ≤ 57 then c.toNat - 48 else if c ≤ 70 then c.toNat - 55 else c.toNat - 87

/-- The numbers that a string of hex digits stands for, two digits each. -/
def digitPairs : Bytes → List ℕ
  | hi :: lo :: t => (16 * digitValue hi + digitValue lo) :: digitPairs t
  | _ => []

theorem digitValue_toLower {c : UInt8} (h : isXdigit c = true) :
    digitValue (toLower c) = digitValue c := by
  revert h
  revert c
  decide +kernel

theorem toNat_hexVal {c : UInt8} (h : isXdigit c = true) :
    (hexVal c).toNat = digitValue c ∧ digitValue c < 16 := by
  revert h
  revert c
  decide +kernel

/-- The byte that `ext_hex16_to_secret` makes of two digits. -/
theorem toNat_hexByte {hi lo : UInt8} (hhi : isXdigit hi = true) (hlo : isXdigit lo = true) :
    ((hexVal hi <<< 4) ||| hexVal lo).toNat = 16 * digitValue hi + digitValue lo := by
  obtain ⟨hhi, hhi16⟩ := toNat_hexVal hhi
  obtain ⟨hlo, hlo16⟩ := toNat_hexVal hlo
  have hshift : (hexVal hi <<< 4).toNat = digitValue hi <<< 4 := by
    rw [UInt8.toNat_shiftLeft, hhi]
    apply Nat.mod_eq_of_lt
    show digitValue hi <<< 4 < 2 ^ 8
    rw [Nat.shiftLeft_eq]
    omega
  rw [UInt8.toNat_or, hshift, hlo, ← Nat.shiftLeft_add_eq_or_of_lt (by omega), Nat.shiftLeft_eq]
  omega

/-- The bytes of a string of digits are the numbers it stands for. -/
theorem hexBytes_eq_digitPairs :
    ∀ {ds : Bytes}, ds.all isXdigit = true → (hexBytes ds).map UInt8.toNat = digitPairs ds
  | [], _ => rfl
  | [_], _ => rfl
  | hi :: lo :: t, h => by
    simp only [List.all_cons, Bool.and_eq_true] at h
    rw [hexBytes, digitPairs, List.map_cons, toNat_hexByte h.1 h.2.1, hexBytes_eq_digitPairs h.2.2]

/-- The case of the digits does not matter. -/
theorem digitPairs_toLower :
    ∀ {ds : Bytes}, ds.all isXdigit = true → digitPairs (ds.map toLower) = digitPairs ds
  | [], _ => rfl
  | [_], _ => rfl
  | hi :: lo :: t, h => by
    simp only [List.all_cons, Bool.and_eq_true] at h
    rw [List.map_cons, List.map_cons, digitPairs, digitPairs, digitValue_toLower h.1,
      digitValue_toLower h.2.1, digitPairs_toLower h.2.2]

/-- Bytes are known by their numbers. -/
theorem Secret.eq_of_toNat {a b : Secret}
    (h : a.val.map UInt8.toNat = b.val.map UInt8.toNat) : a = b :=
  Subtype.ext (List.map_injective_iff.mpr (fun _ _ => UInt8.toNat_inj.mp) h)

/-! ## What is taken -/

/-- `ext_hex16_to_secret` reads the 32 digits at the start. -/
theorem extHex16ToSecret_eq_some {hex : Bytes} {secret : Secret} :
    extHex16ToSecret hex = some secret ↔ ∃ digits rest, hex = digits ++ rest ∧
      digits.length = 32 ∧ digits.all isXdigit = true ∧
      secret.val.map UInt8.toNat = digitPairs digits := by
  unfold extHex16ToSecret
  constructor
  · intro h
    split at h
    · rename_i htake
      refine ⟨hex.take 32, hex.drop 32, (List.take_append_drop 32 hex).symm, htake.1, htake.2, ?_⟩
      rw [← Option.some.inj h]
      exact hexBytes_eq_digitPairs htake.2
    · exact absurd h (by simp)
  · rintro ⟨digits, rest, rfl, hlen, hall, hval⟩
    have htake : (digits ++ rest).take 32 = digits := by
      rw [← hlen, List.take_left]
    rw [dif_pos (by rw [htake]; exact ⟨hlen, hall⟩)]
    refine congrArg some (Secret.eq_of_toNat ?_)
    rw [hval, ← hexBytes_eq_digitPairs hall]
    exact congrArg (fun ds => (hexBytes ds).map UInt8.toNat) htake

/-- The branches for `dd` and `ee`, behind the two characters. -/
theorem extPrefixedHex_eq_some {p q : UInt8} {t : Bytes} {secret : Secret} :
    extPrefixedHex (p :: q :: t) = some secret ↔ ∃ digits suffix, t = digits ++ suffix ∧
      digits.length = 32 ∧ digits.all isXdigit = true ∧ suffix.length % 2 = 0 ∧
      suffix.all isXdigit = true ∧ secret.val.map UInt8.toNat = digitPairs digits := by
  have hsuffix : ∀ {digits suffix : Bytes}, digits.length = 32 →
      (p :: q :: (digits ++ suffix)).length - 34 = suffix.length ∧
        (p :: q :: (digits ++ suffix)).drop 34 = suffix := by
    intro digits suffix hlen
    constructor
    · simp [hlen]
    · rw [show (34 : ℕ) = digits.length + 1 + 1 by omega, List.drop_succ_cons,
        List.drop_succ_cons, List.drop_left]
  unfold extPrefixedHex
  rw [show (p :: q :: t).drop 2 = t from rfl]
  constructor
  · intro h
    split at h
    · exact absurd h (by simp)
    · rename_i out hout
      obtain ⟨digits, suffix, rfl, hlen, hall, hval⟩ := (extHex16ToSecret_eq_some).mp hout
      rw [(hsuffix hlen).1, (hsuffix hlen).2] at h
      split at h
      · exact absurd h (by simp)
      · rename_i heven
        split at h
        · rename_i hsuf
          cases h
          exact ⟨digits, suffix, rfl, hlen, hall, not_not.mp heven, hsuf, hval⟩
        · exact absurd h (by simp)
  · rintro ⟨digits, suffix, rfl, hlen, hall, heven, hsuf, hval⟩
    rw [(extHex16ToSecret_eq_some).mpr ⟨digits, suffix, rfl, hlen, hall, hval⟩]
    simp only [(hsuffix hlen).1, (hsuffix hlen).2, heven, hsuf, ne_eq, not_true_eq_false, if_false,
      if_true]

/-- The first two characters are a mark. -/
theorem isLinkMark_iff {p q : UInt8} {t : Bytes} :
    IsLinkMark p q ↔ ((p :: q :: t).take 2).map toLower = [100, 100] ∨
      ((p :: q :: t).take 2).map toLower = [101, 101] := by
  simp [IsLinkMark]

/-- **`ext_secret16_from_hex` takes exactly the spellings,** and yields the bytes of their
digits. -/
theorem extSecret16FromHex_eq_some {s : Bytes} {secret : Secret} :
    extSecret16FromHex s = some secret ↔
      ∃ digits, Spelling (cstr s) digits ∧ secret.val.map UInt8.toNat = digitPairs digits := by
  simp only [extSecret16FromHex]
  generalize cstr s = hex
  constructor
  · intro h
    split at h
    · rename_i hlen
      obtain ⟨digits, rest, rfl, hdigits, hall, hval⟩ := (extHex16ToSecret_eq_some).mp h
      have hrest : rest = [] := by
        rw [List.length_append, hdigits] at hlen
        exact List.length_eq_zero_iff.mp (by omega)
      rw [hrest, List.append_nil]
      exact ⟨digits, .plain hdigits hall, hval⟩
    · -- behind either mark the same form is read
      have hlink : 34 ≤ hex.length → (hex.take 2).map toLower = [100, 100] ∨
          (hex.take 2).map toLower = [101, 101] → extPrefixedHex hex = some secret →
          ∃ digits, Spelling hex digits ∧ secret.val.map UInt8.toNat = digitPairs digits := by
        intro hlen hmark h
        match hex, hlen with
        | p :: q :: t, _ =>
          obtain ⟨digits, suffix, rfl, hdigits, hall, heven, hsuf, hval⟩ :=
            (extPrefixedHex_eq_some).mp h
          exact ⟨digits, .link ((isLinkMark_iff).mpr hmark) hdigits hall heven hsuf, hval⟩
      split at h
      · rename_i hdd
        exact hlink hdd.1 (Or.inl hdd.2) h
      · split at h
        · rename_i hee
          exact hlink hee.1 (Or.inr hee.2) h
        · exact absurd h (by simp)
  · rintro ⟨digits, hspell, hval⟩
    cases hspell with
    | plain hlen hall =>
      rw [if_pos hlen]
      exact (extHex16ToSecret_eq_some).mpr ⟨hex, [], (List.append_nil hex).symm, hlen, hall, hval⟩
    | @link p q _ suffix hmark hlen hall heven hsuf =>
      have hlong : 34 ≤ (p :: q :: (digits ++ suffix)).length := by
        simp only [List.length_cons, List.length_append, hlen]
        omega
      have hread : extPrefixedHex (p :: q :: (digits ++ suffix)) = some secret :=
        (extPrefixedHex_eq_some).mpr ⟨digits, suffix, rfl, hlen, hall, heven, hsuf, hval⟩
      -- the two branches read the same form; the second is reached when the mark is not `dd`
      rw [if_neg (by omega)]
      rcases (isLinkMark_iff).mp hmark with hdd | hee
      · rw [if_pos ⟨hlong, hdd⟩]
        exact hread
      · rw [if_neg (by rw [hee]; simp), if_pos ⟨hlong, hee⟩]
        exact hread

/-- Spellings with the same digits, up to case, spell the same secret. -/
theorem Spelling.fromHex_eq {s t digits digits' : Bytes} (hs : Spelling (cstr s) digits)
    (ht : Spelling (cstr t) digits') (hsame : digits.map toLower = digits'.map toLower) :
    extSecret16FromHex s = extSecret16FromHex t := by
  have hxdigits : ∀ {text ds : Bytes}, Spelling text ds → ds.length = 32 ∧ ds.all isXdigit = true := by
    intro text ds h
    cases h with
    | plain hlen hall => exact ⟨hlen, hall⟩
    | link _ hlen hall _ _ => exact ⟨hlen, hall⟩
  obtain ⟨hlen, hall⟩ := hxdigits hs
  have hall' := (hxdigits ht).2
  have hval : digitPairs digits' = digitPairs digits := by
    rw [← digitPairs_toLower hall', ← hsame, digitPairs_toLower hall]
  -- both texts spell the secret with these bytes
  set secret : Secret := ⟨hexBytes digits, by rw [length_hexBytes, hlen]⟩ with hsecret
  have hspelled : secret.val.map UInt8.toNat = digitPairs digits := hexBytes_eq_digitPairs hall
  rw [(extSecret16FromHex_eq_some).mpr ⟨digits, hs, hspelled⟩,
    (extSecret16FromHex_eq_some).mpr ⟨digits', ht, hspelled.trans hval.symm⟩]

/-! ## The commands -/

/-- **Secret spelling.**  A text is taken exactly if it is a spelling, and then it yields the
bytes of its 32 digits; what is written for a secret is read back; and two spellings with the
same digits, up to case, are the same argument of add, remove, enable and update. -/
theorem secret_spellings :
    (∀ s secret, extSecret16FromHex s = some secret ↔
      ∃ digits, Spelling (cstr s) digits ∧ secret.val.map UInt8.toNat = digitPairs digits) ∧
    (∀ secret, extSecret16FromHex (extSecret16ToHex secret) = some secret) ∧
    ∀ s t digits digits', Spelling (cstr s) digits → Spelling (cstr t) digits' →
      digits.map toLower = digits'.map toLower → ∀ env store file,
      (∀ label expiresAt enabled, extCmdAdd env s label expiresAt enabled store file
        = extCmdAdd env t label expiresAt enabled store file) ∧
      extCmdRemove env s store file = extCmdRemove env t store file ∧
      (∀ enabled, extCmdSetEnabled env s enabled store file
        = extCmdSetEnabled env t enabled store file) ∧
      ∀ label expiresAt enabled, extCmdUpdate env s label expiresAt enabled store file
        = extCmdUpdate env t label expiresAt enabled store file := by
  refine ⟨fun _ _ => extSecret16FromHex_eq_some, extSecret16FromHex_toHex, ?_⟩
  intro s t digits digits' hs ht hsame env store file
  have heq := hs.fromHex_eq ht hsame
  have hentry : ∀ change, extCmdOnEntry env s change store file
      = extCmdOnEntry env t change store file := by
    intro change
    unfold extCmdOnEntry
    rw [heq]
  refine ⟨fun label expiresAt enabled => ?_, hentry _, fun enabled => hentry _,
    fun label expiresAt enabled => hentry _⟩
  unfold extCmdAdd
  rw [heq]

/-- `DdAA…AA` and `aa…aa` remove the same entry. -/
theorem secret_spellings_sample :
    let store := { ExtStore.init [] with
      extSecrets := [newEntry 1 (Secret.fill 0xaa) [] 0 1 1] }
    extCmdRemove OpEnv.healthy (68 :: 100 :: List.replicate 32 65) store none
      = extCmdRemove OpEnv.healthy (List.replicate 32 97) store none := by
  have hlink : Spelling (68 :: 100 :: (List.replicate 32 65 ++ [])) (List.replicate 32 65) :=
    .link (Or.inl (by decide)) rfl rfl rfl rfl
  have hplain : Spelling (List.replicate 32 97) (List.replicate 32 97) := .plain rfl rfl
  exact (secret_spellings.2.2 (68 :: 100 :: List.replicate 32 65) (List.replicate 32 97)
    _ _ hlink hplain rfl OpEnv.healthy _ none).2.1

end MtprotoProxy
