/-
# Reading fields of an admin request body

`ext_http_json_find_key`, `ext_http_json_get_string`, `ext_http_json_get_int64` and
`ext_http_json_get_bool` of `net/net-tcp-rpc-ext-server.c`: a member is looked up by a
substring search for its quoted key, and its value is read from behind the colon.

The output buffer of the string getter is the list of its `out_size` bytes, before and
after the call.  `literalChars` and `literalRest` say what a string literal contains and
where it ends; `getString_eq` gives the outcome of the getter and the buffer it leaves in
these terms.
-/
import MtprotoProxy.CScan

namespace MtprotoProxy

open CLib

/-! ## The getters -/

/-- `char pattern[128]` for a key: the key between quotes. -/
def jsonPattern (key : Bytes) : Bytes := 34 :: cstr key ++ [34]

/-- `ext_http_json_find_key`: the text from the value on. -/
def extHttpJsonFindKey (body key : Bytes) : Option Bytes :=
  -- `snprintf` had to cut the pattern
  if 128 ≤ (jsonPattern key).length then none
  else
    match strstr (jsonPattern key) (cstr body) with
    | none => none
    | some p =>
      match (p.drop (jsonPattern key).length).dropWhile isSpace with
      | 58 :: p => some (p.dropWhile isSpace)
      | _ => none

/-- The copy loop of `ext_http_json_get_string`, on what is left of the text, with the
number of characters copied and the buffer. -/
def jsonCopy : Bytes → ℕ → Bytes → Bytes × ℕ × Bytes
  | [], i, out => ([], i, out)
  | 92 :: d :: p, i, out =>
    if i + 1 < out.length then jsonCopy p (i + 1) (out.set i d) else (92 :: d :: p, i, out)
  | c :: p, i, out =>
    if c ≠ 34 ∧ i + 1 < out.length then jsonCopy p (i + 1) (out.set i c) else (c :: p, i, out)

/-- `ext_http_json_get_string`: whether it succeeds, and the buffer. -/
def extHttpJsonGetString (body key out : Bytes) : Bool × Bytes :=
  match extHttpJsonFindKey body key with
  | none => (false, out)
  | some p =>
    match p with
    | 34 :: p =>
      if out.length = 0 then (false, out)
      else
        match jsonCopy p 0 out with
        | (34 :: _, i, out) => (true, out.set i 0)
        | (_, _, out) => (false, out)
    | _ => (false, out)

/-- `ext_http_json_get_int64`: `none` is the return value `0`, `some none` says that
nothing was found, `some (some v)` that `v` was. -/
def extHttpJsonGetInt64 (body key : Bytes) : Option (Option Int64) :=
  match extHttpJsonFindKey body key with
  | none => some none
  | some p =>
    match strtollChecked p with
    | none => none
    | some v => some (some v)

/-- `"true"`. -/
def trueText : Bytes := [116, 114, 117, 101]

/-- `"false"`. -/
def falseText : Bytes := [102, 97, 108, 115, 101]

/-- `ext_http_json_get_bool`, with the outcomes of `extHttpJsonGetInt64`. -/
def extHttpJsonGetBool (body key : Bytes) : Option (Option ℤ) :=
  match extHttpJsonFindKey body key with
  | none => some none
  | some p =>
    if startsNoCase trueText p then some (some 1)
    else if startsNoCase falseText p then some (some 0)
    else
      match p with
      | 49 :: _ => some (some 1)
      | 48 :: _ => some (some 0)
      | _ => none

/-! ## String literals -/

/-- The characters of a string literal behind its opening quote: a backslash stands for
the character after it. -/
def literalChars : Bytes → Bytes
  | [] => []
  | 92 :: d :: p => d :: literalChars p
  | c :: p => if c = 34 then [] else c :: literalChars p

/-- The text from the closing quote on; empty when the literal is not closed. -/
def literalRest : Bytes → Bytes
  | [] => []
  | 92 :: _ :: p => literalRest p
  | c :: p => if c = 34 then c :: p else literalRest p

/-- The literal is closed and leaves room for the terminating zero in `size` bytes. -/
def LiteralFits (p : Bytes) (size : ℕ) : Prop :=
  literalRest p ≠ [] ∧ (literalChars p).length < size

instance (p : Bytes) (size : ℕ) : Decidable (LiteralFits p size) :=
  inferInstanceAs (Decidable (_ ∧ _))

/-- A buffer whose bytes from `i` on are overwritten. -/
def overwrite (out : Bytes) (i : ℕ) (cs : Bytes) : Bytes :=
  out.take i ++ cs ++ out.drop (i + cs.length)

@[simp] theorem overwrite_nil (out : Bytes) (i : ℕ) : overwrite out i [] = out := by
  simp [overwrite]

/-- Writing one byte and then the ones behind it. -/
theorem overwrite_set {out : Bytes} {i : ℕ} (hi : i < out.length) (c : UInt8) (cs : Bytes) :
    overwrite (out.set i c) (i + 1) cs = overwrite out i (c :: cs) := by
  have htake : (out.set i c).take (i + 1) = out.take i ++ [c] := by
    rw [List.take_succ_eq_append_getElem (by simpa using hi), List.getElem_set_self,
      List.take_set_of_le (Nat.le_refl i)]
  have hdrop : (out.set i c).drop (i + 1 + cs.length) = out.drop (i + (c :: cs).length) := by
    rw [List.drop_set_of_lt (by omega), List.length_cons]
    congr 1
    omega
  unfold overwrite
  rw [htake, hdrop]
  simp

/-- Writing the byte behind the overwritten ones. -/
theorem overwrite_concat {out cs : Bytes} {i : ℕ} (h : i + cs.length < out.length) (c : UInt8) :
    (overwrite out i cs).set (i + cs.length) c = overwrite out i (cs ++ [c]) := by
  have hlen : (out.take i ++ cs).length = i + cs.length := by
    rw [List.length_append, List.length_take, Nat.min_eq_left (by omega)]
  unfold overwrite
  rw [List.set_append_right _ _ (by omega), hlen, Nat.sub_self, List.drop_eq_getElem_cons h,
    List.set_cons_zero, List.length_append, List.length_singleton]
  simp [Nat.add_assoc]

/-- **The copy loop of the string getter** copies the characters of the literal, as many
as fit before the last byte of the buffer. -/
theorem jsonCopy_out (p : Bytes) (i : ℕ) (out : Bytes) (hi : i < out.length) :
    (jsonCopy p i out).2 =
      (i + min (literalChars p).length (out.length - 1 - i),
        overwrite out i ((literalChars p).take (out.length - 1 - i))) := by
  fun_induction jsonCopy p i out with
  | case1 i out => simp [literalChars]
  | case2 d p i out hroom ih =>
    have hlen : out.length - 1 - i = out.length - 1 - (i + 1) + 1 := by omega
    rw [ih (by simpa using hroom), overwrite_set hi, List.length_set, literalChars, hlen,
      List.take_succ_cons, List.length_cons]
    simp only [Prod.mk.injEq, and_true]
    omega
  | case3 d p i out hroom =>
    have hlen : out.length - 1 - i = 0 := by omega
    simp [hlen]
  | case4 c p i out hesc hroom ih =>
    obtain ⟨hc, hroom⟩ := hroom
    have hlen : out.length - 1 - i = out.length - 1 - (i + 1) + 1 := by omega
    rw [ih (by simpa using hroom), overwrite_set hi, List.length_set,
      literalChars.eq_3 c p hesc, if_neg hc, hlen, List.take_succ_cons, List.length_cons]
    simp only [Prod.mk.injEq, and_true]
    omega
  | case5 c p i out hesc hroom =>
    rw [not_and_or, not_not] at hroom
    rcases hroom with hc | hroom
    · rw [literalChars.eq_3 c p hesc, if_pos hc]
      simp
    · have hlen : out.length - 1 - i = 0 := by omega
      simp [hlen]

/-- **The loop stops at the closing quote** exactly when there is one and the characters
before it fit. -/
theorem jsonCopy_rest (p : Bytes) (i : ℕ) (out : Bytes) (hi : i < out.length) :
    (jsonCopy p i out).1.head? = some 34 ↔ LiteralFits p (out.length - i) := by
  unfold LiteralFits
  fun_induction jsonCopy p i out with
  | case1 i out => simp [literalRest]
  | case2 d p i out hroom ih =>
    rw [ih (by simpa using hroom), literalRest, literalChars, List.length_set, List.length_cons]
    constructor <;> rintro ⟨h1, h2⟩ <;> exact ⟨h1, by omega⟩
  | case3 d p i out hroom =>
    rw [literalChars, List.length_cons]
    constructor
    · intro h
      exact absurd (Option.some.inj h) (by decide)
    · rintro ⟨-, h2⟩
      omega
  | case4 c p i out hesc hroom ih =>
    obtain ⟨hc, hroom⟩ := hroom
    rw [ih (by simpa using hroom), literalRest.eq_3 c p hesc, literalChars.eq_3 c p hesc,
      if_neg hc, if_neg hc, List.length_set, List.length_cons]
    constructor <;> rintro ⟨h1, h2⟩ <;> exact ⟨h1, by omega⟩
  | case5 c p i out hesc hroom =>
    rw [literalRest.eq_3 c p hesc, literalChars.eq_3 c p hesc]
    by_cases hc : c = 34
    · simp only [List.head?_cons, hc, if_true]
      simp
      omega
    · have hfull : ¬ i + 1 < out.length := fun h => hroom ⟨hc, h⟩
      rw [if_neg hc, if_neg hc, List.head?_cons, List.length_cons]
      constructor
      · intro h
        exact absurd (Option.some.inj h) hc
      · rintro ⟨-, h2⟩
        omega

/-! ## What the string getter does -/

/-- The text behind the opening quote of the key's value, when the value found for the
key opens one. -/
def literalAt (body key : Bytes) : Option Bytes :=
  match extHttpJsonFindKey body key with
  | some (34 :: p) => some p
  | _ => none

/-- No literal is found for the key: the getter fails before it writes. -/
theorem getString_of_none {body key : Bytes} (h : literalAt body key = none) (out : Bytes) :
    extHttpJsonGetString body key out = (false, out) := by
  unfold literalAt at h
  unfold extHttpJsonGetString
  split
  · rfl
  · split
    · simp_all
    · rfl

/-- **The string getter on a literal.**  It copies what fits; it succeeds exactly when
the literal fits, and then it terminates the copy. -/
theorem getString_of_literal {body key p : Bytes} (h : literalAt body key = some p) {out : Bytes}
    (hout : out ≠ []) :
    extHttpJsonGetString body key out =
      if LiteralFits p out.length then (true, overwrite out 0 (literalChars p ++ [0]))
      else (false, overwrite out 0 ((literalChars p).take (out.length - 1))) := by
  have hpos : 0 < out.length := List.length_pos_iff.mpr hout
  have hkey : extHttpJsonFindKey body key = some (34 :: p) := by
    unfold literalAt at h
    split at h
    · rename_i q hq
      rw [hq, Option.some.inj h]
    · exact absurd h (by simp)
  have hcopy := jsonCopy_out p 0 out hpos
  have hstop := jsonCopy_rest p 0 out hpos
  simp only [Nat.sub_zero, Nat.zero_add] at hcopy hstop
  unfold extHttpJsonGetString
  rw [hkey]
  simp only [if_neg (Nat.ne_of_gt hpos)]
  rcases hj : jsonCopy p 0 out with ⟨rest, i, out'⟩
  rw [hj] at hcopy hstop
  obtain ⟨rfl, rfl⟩ := Prod.mk.inj hcopy
  by_cases hfits : LiteralFits p out.length
  · obtain ⟨q, hq⟩ : ∃ q, rest = 34 :: q := by
      cases rest with
      | nil => exact absurd (hstop.mpr hfits) (by simp)
      | cons c q => exact ⟨q, by rw [Option.some.inj (hstop.mpr hfits)]⟩
    have hlen : (literalChars p).length < out.length := hfits.2
    have htake : (literalChars p).take (out.length - 1) = literalChars p :=
      List.take_of_length_le (by omega)
    rw [if_pos hfits, hq, htake, Nat.min_eq_left (by omega)]
    -- the copy ends with room for the terminating zero
    have hroom : 0 + (literalChars p).length < out.length := by omega
    have hset := overwrite_concat hroom 0
    rw [Nat.zero_add] at hset
    exact congrArg (Prod.mk true) hset
  · have hne : ∀ q, rest ≠ 34 :: q := fun q hq => hfits (hstop.mp (by rw [hq]; rfl))
    rw [if_neg hfits]
    split
    · rename_i q _ _ heq
      exact absurd (Prod.mk.inj heq).1 (hne q)
    · rename_i heq
      obtain ⟨-, heq⟩ := Prod.mk.inj heq
      rw [← (Prod.mk.inj heq).2]

/-- What is found for a key holds no zero byte: it is a part of the C string. -/
theorem zero_notMem_literalAt {body key p : Bytes} (h : literalAt body key = some p) :
    (0 : UInt8) ∉ p := by
  have hcstr : (0 : UInt8) ∉ cstr body := by
    intro hz
    have := List.mem_takeWhile_imp hz
    simp at this
  unfold literalAt at h
  split at h
  · rename_i hq
    cases h
    unfold extHttpJsonFindKey at hq
    split at hq
    · exact absurd hq (by simp)
    · split at hq
      · exact absurd hq (by simp)
      · rename_i t ht
        split at hq
        · rename_i u hu
          intro hz
          apply hcstr
          have h1 : (34 : UInt8) :: p <:+ u := by
            rw [← Option.some.inj hq]
            exact List.dropWhile_suffix _
          have h2 : (58 : UInt8) :: u <:+ t := by
            rw [← hu]
            exact (List.dropWhile_suffix _).trans (List.drop_suffix _ _)
          exact (strstr_spec ht).2.mem (h2.mem (List.mem_cons_of_mem _
            (h1.mem (List.mem_cons_of_mem _ hz))))
        · exact absurd hq (by simp)
  · exact absurd h (by simp)

/-- A character of a literal is a character of the text. -/
theorem mem_of_mem_literalChars {c : UInt8} {p : Bytes} (h : c ∈ literalChars p) : c ∈ p := by
  fun_induction literalChars p with
  | case1 => exact absurd h (by simp)
  | case2 d p ih =>
    rcases List.mem_cons.mp h with rfl | h
    · simp
    · simp [ih h]
  | case3 p hesc => exact absurd h (by simp)
  | case4 c' p hesc hc ih =>
    rcases List.mem_cons.mp h with rfl | h
    · simp
    · simp [ih h]

end MtprotoProxy
