/-
# The combination of two checksums

`compute_crc32_combine_generic` and `compute_crc32_combine_clmul` of `common/crc32.c`: the CRC-32 of
two strings in a row from those of the strings and the length of the second one.  Each has a static
table that its first call fills.

* `crc32_combine`: after any calls both return the CRC of the strings in a row.
-/
import MtprotoProxy.CrcClmul
import MtprotoProxy.Gf32
import MtprotoProxy.Runs

namespace MtprotoProxy

open CLib

/-! ## The code -/

/-- `compute_crc32`. -/
def computeCrc32 (data : Bytes) : BitVec 32 := crc32PartialGeneric data data.length (-1) ^^^ -1

/-- The size of `crc32_powers`. -/
def crc32PowersSize : ℕ := 32 * 67

/-- The table of `compute_crc32_combine_generic`, which is filled when its last entry is 0. -/
def fillGeneric (crc32Powers : Words) : Option Words :=
  if crc32Powers (crc32PowersSize - 1) = 0 then do
    let P ← gf32ComputePowersGeneric crc32Powers crc32PowersSize crcPoly
    guard (P (crc32PowersSize - 1) ≠ 0)
    return P
  else some crc32Powers

/-- `compute_crc32_combine_generic`, with the table and what becomes of it. -/
def computeCrc32CombineGeneric (crc32Powers : Words) (crc1 crc2 : BitVec 32) (len2 : BitVec 64) :
    Option (BitVec 32 × Words) :=
  if len2.toInt ≤ 0 then some (crc1, crc32Powers)
  else do
    let P ← fillGeneric crc32Powers
    return (gf32CombineGeneric P crc1 len2.toNat ^^^ crc2, P)

/-- The `uint64_t` at `p`. -/
def uint64At (W : Words) (p : ℕ) : BitVec 64 := W (p + 1) ++ W p

/-- The table of `compute_crc32_combine_clmul`, which is filled when its last entry is 0. -/
def fillClmul (crc32Powers : Words) : Option Words :=
  if crc32Powers 251 = 0 then do
    let W := gf32ComputePowersClmul crc32Powers crcPoly
    let p := 8
    guard (uint64At W (p + 0) = crc32ReflectedX95)
    guard (uint64At W (p + 4) = crc32ReflectedX127)
    guard (uint64At W (p + 6) = crc32ReflectedX63)
    guard (uint64At W (p + 8) = crc32ReflectedX191)
    guard (uint64At W (p + 10) = crc32ReflectedX127)
    guard (uint64At W (p + 12) = crc32ReflectedX319)
    guard (uint64At W (p + 14) = crc32ReflectedX255)
    guard (W 251 ≠ 0)
    return W
  else some crc32Powers

/-- `compute_crc32_combine_clmul`, with the table and what becomes of it. -/
def computeCrc32CombineClmul (crc32Powers : Words) (crc1 crc2 : BitVec 32) (len2 : BitVec 64) :
    Option (BitVec 32 × Words) :=
  if len2.toInt ≤ 0 then some (crc1, crc32Powers)
  else do
    let W ← fillClmul crc32Powers
    let T := gf32CombineClmul W crc1 len2.toNat
    let crc1 : BitVec 32 := T.setWidth 32
    let crc2 := crc2 ^^^ (T >>> 32).setWidth 32
    return (crc32Table0.getD (crc1 &&& 0xff).toNat 0
      ^^^ crc32Table1.getD ((crc1 &&& 0xff00) >>> 8).toNat 0
      ^^^ crc32Table2.getD ((crc1 &&& 0xff0000) >>> 16).toNat 0
      ^^^ crc32Table.getD (crc1 >>> 24).toNat 0 ^^^ crc2, W)

/-- The arguments of a call. -/
structure CombineCall where
  crc1 : BitVec 32
  crc2 : BitVec 32
  len2 : BitVec 64

/-- A call changes the table. -/
def combineStep (combine : Words → BitVec 32 → BitVec 32 → BitVec 64 → Option (BitVec 32 × Words))
    (W : Words) (call : CombineCall) : Option Words :=
  (combine W call.crc1 call.crc2 call.len2).map Prod.snd

/-! ## The ring -/

theorem isUnit_crcX : IsUnit (crcX crcPoly) := by
  have hshift : crcShift crcPoly 0xdb710641 = 0x80000000 := by decide
  have hinv : crcX crcPoly * value crcPoly (0xdb710641 : BitVec 32) = 1 := by
    rw [← value_crcShift, hshift, value_one]
  exact IsUnit.of_mul_eq_one _ hinv

theorem ne_zero_of_value {a : BitVec 32} {k : ℕ} (h : value crcPoly a = crcX crcPoly ^ k) :
    a ≠ 0 := by
  rintro rfl
  have hzero : value crcPoly (0 : BitVec 32) = 0 := value_zero
  have hpow := isUnit_crcX.pow k
  rw [← h, hzero, isUnit_zero_iff] at hpow
  exact one_ne_zero_of_pos (by norm_num) hpow.symm

theorem value_allOnes_add : value crcPoly (-1 : BitVec 32) + value crcPoly (-1 : BitVec 32) = 0 :=
  add_self_eq_zero _

/-- `compute_crc32`, in the ring. -/
theorem value_computeCrc32 (data : Bytes) :
    value crcPoly (computeCrc32 data)
      = crcX crcPoly ^ (8 * data.length) * value crcPoly (-1 : BitVec 32)
        + crcX crcPoly ^ 32 * bytesValue crcPoly data + value crcPoly (-1 : BitVec 32) := by
  unfold computeCrc32
  rw [value_xor, crc32PartialGeneric_eq (-1) le_rfl, List.take_length, crc32Bits, value_crcBytes]

/-- **The CRC of two strings in a row.** -/
theorem value_computeCrc32_append (a b : Bytes) :
    value crcPoly (computeCrc32 (a ++ b))
      = crcX crcPoly ^ (8 * b.length) * value crcPoly (computeCrc32 a)
        + value crcPoly (computeCrc32 b) := by
  rw [value_computeCrc32, value_computeCrc32, value_computeCrc32, bytesValue_append,
    List.length_append, mul_add, pow_add]
  linear_combination -crcX crcPoly ^ (8 * b.length) * value_allOnes_add

/-! ## The tables -/

/-- The static table is empty, or the one of the first call. -/
def GenericTable (P : Words) : Prop := P (crc32PowersSize - 1) = 0 ∨ SquareTable crcPoly P 67

def ClmulTable (W : Words) : Prop := W 251 = 0 ∨ PowerTable crcPoly W 63

/-- The entries of the table are the constants of `crc32_partial_clmul`. -/
theorem uint64At_eq {W : Words} (h : PowerTable crcPoly W 63) {i : ℕ} (hi : i < 63) :
    uint64At W (4 * i) = crcPower (8 * 2 ^ i + 63) ++ 0#32 ∧
    uint64At W (4 * i + 2) = crcPower (8 * 2 ^ i - 1) ++ 0#32 := by
  obtain ⟨hzero, hlo, hzero', hhi⟩ := h i hi
  rw [← value_crcPower] at hlo hhi
  unfold uint64At
  rw [hzero, hzero', value_injective crcPoly hlo, value_injective crcPoly hhi]
  exact ⟨rfl, rfl⟩

/-- The first call fills the table of matrices. -/
theorem fillGeneric_spec {P : Words} (h : GenericTable P) :
    ∃ P', fillGeneric P = some P' ∧ SquareTable crcPoly P' 67 := by
  unfold fillGeneric
  by_cases hempty : P (crc32PowersSize - 1) = 0
  · obtain ⟨P', hrun, htable, hlast⟩ := gf32ComputePowersGeneric_spec isUnit_crcX P
      (by norm_num : 0 < 67)
    refine ⟨P', ?_, htable⟩
    rw [if_pos hempty, show crc32PowersSize = 32 * 67 from rfl, hrun]
    simp only [guard_true, hlast, Option.pure_def, some_bind, ne_eq, not_false_eq_true]
  · exact ⟨P, if_neg hempty, h.resolve_left hempty⟩

/-- The first call fills the table of powers, and its assertions hold. -/
theorem fillClmul_spec {W : Words} (h : ClmulTable W) :
    ∃ W', fillClmul W = some W' ∧ PowerTable crcPoly W' 63 := by
  unfold fillClmul
  by_cases hempty : W 251 = 0
  · have htable := gf32ComputePowersClmul_spec crcPoly W
    obtain ⟨h319, h255, h191, h127, h95, h63⟩ := crc32Reflected_eq
    obtain ⟨h₀, -⟩ := uint64At_eq htable (by norm_num : 2 < 63)
    obtain ⟨h₄, h₆⟩ := uint64At_eq htable (by norm_num : 3 < 63)
    obtain ⟨h₈, h₁₀⟩ := uint64At_eq htable (by norm_num : 4 < 63)
    obtain ⟨h₁₂, h₁₄⟩ := uint64At_eq htable (by norm_num : 5 < 63)
    have hlast := ne_zero_of_value (htable 62 (by norm_num)).hi
    refine ⟨gf32ComputePowersClmul W crcPoly, ?_, htable⟩
    rw [if_pos hempty]
    generalize gf32ComputePowersClmul W crcPoly = W' at *
    have h₀' : uint64At W' (8 + 0) = crc32ReflectedX95 := h₀.trans h95.symm
    have h₄' : uint64At W' (8 + 4) = crc32ReflectedX127 := h₄.trans h127.symm
    have h₆' : uint64At W' (8 + 6) = crc32ReflectedX63 := h₆.trans h63.symm
    have h₈' : uint64At W' (8 + 8) = crc32ReflectedX191 := h₈.trans h191.symm
    have h₁₀' : uint64At W' (8 + 10) = crc32ReflectedX127 := h₁₀.trans h127.symm
    have h₁₂' : uint64At W' (8 + 12) = crc32ReflectedX319 := h₁₂.trans h319.symm
    have h₁₄' : uint64At W' (8 + 14) = crc32ReflectedX255 := h₁₄.trans h255.symm
    have hlast' : W' 251 ≠ 0 := hlast
    simp only [h₀', h₄', h₆', h₈', h₁₀', h₁₂', h₁₄', hlast', guard_true, Option.pure_def, some_bind,
      ne_eq, not_false_eq_true]
  · exact ⟨W, if_neg hempty, h.resolve_left hempty⟩

/-! ## The calls -/

variable {crc1 crc2 : BitVec 32} {len2 : BitVec 64}

theorem toNat_of_toInt_pos (h : 0 < len2.toInt) : 0 < len2.toNat ∧ len2.toNat < 2 ^ 63 := by
  have hlt := len2.isLt
  rw [BitVec.toInt_eq_toNat_cond] at h
  split_ifs at h <;> omega

/-- A call with a length that is not positive. -/
theorem computeCrc32CombineGeneric_le (P : Words) (h : len2.toInt ≤ 0) :
    computeCrc32CombineGeneric P crc1 crc2 len2 = some (crc1, P) := if_pos h

theorem computeCrc32CombineClmul_le (W : Words) (h : len2.toInt ≤ 0) :
    computeCrc32CombineClmul W crc1 crc2 len2 = some (crc1, W) := if_pos h

/-- **A call with a positive length**, with matrices. -/
theorem computeCrc32CombineGeneric_pos (crc1 crc2 : BitVec 32) {P : Words} (h : GenericTable P)
    (hpos : 0 < len2.toInt) :
    ∃ r P', computeCrc32CombineGeneric P crc1 crc2 len2 = some (r, P') ∧ GenericTable P' ∧
      value crcPoly r = crcX crcPoly ^ (8 * len2.toNat) * value crcPoly crc1
        + value crcPoly crc2 := by
  obtain ⟨P', hrun, htable⟩ := fillGeneric_spec h
  obtain ⟨-, hlt⟩ := toNat_of_toInt_pos hpos
  refine ⟨gf32CombineGeneric P' crc1 len2.toNat ^^^ crc2, P', ?_, Or.inr htable, ?_⟩
  · unfold computeCrc32CombineGeneric
    rw [if_neg (not_le.mpr hpos), hrun]
    rfl
  · rw [value_xor, value_gf32CombineGeneric htable (by norm_num) (by omega)]

/-- **A call with a positive length**, with carry-less products. -/
theorem computeCrc32CombineClmul_pos (crc1 crc2 : BitVec 32) {W : Words} (h : ClmulTable W)
    (hpos : 0 < len2.toInt) :
    ∃ r W', computeCrc32CombineClmul W crc1 crc2 len2 = some (r, W') ∧ ClmulTable W' ∧
      value crcPoly r = crcX crcPoly ^ (8 * len2.toNat) * value crcPoly crc1
        + value crcPoly crc2 := by
  obtain ⟨W', hrun, htable⟩ := fillClmul_spec h
  obtain ⟨hlen, hlt⟩ := toNat_of_toInt_pos hpos
  have hcombine := value_gf32CombineClmul htable (by norm_num) hlen hlt crc1
  obtain ⟨T, hT⟩ : ∃ T, gf32CombineClmul W' crc1 len2.toNat = T := ⟨_, rfl⟩
  refine ⟨crc32Tables.doOne (T.setWidth 32) 0 ^^^ (crc2 ^^^ (T >>> 32).setWidth 32), W', ?_,
    Or.inr htable, ?_⟩
  · have hzero (x : BitVec 32) : x ^^^ 0 = x := BitVec.xor_zero
    unfold computeCrc32CombineClmul FourTables.doOne
    rw [if_neg (not_le.mpr hpos), hrun]
    simp only [hT, hzero, Option.pure_def, some_bind]
    rfl
  · rw [hT] at hcombine
    rw [BitVec.xor_comm crc2, ← BitVec.xor_assoc, value_xor, value_lastWords, hcombine]

/-- A call keeps the table. -/
theorem combineStep_generic {P : Words} (h : GenericTable P) (call : CombineCall) :
    ∃ P', combineStep computeCrc32CombineGeneric P call = some P' ∧ GenericTable P' := by
  unfold combineStep
  by_cases hpos : 0 < call.len2.toInt
  · obtain ⟨r, P', hrun, htable, -⟩ :=
      computeCrc32CombineGeneric_pos call.crc1 call.crc2 h hpos
    exact ⟨P', by rw [hrun]; rfl, htable⟩
  · exact ⟨P, by rw [computeCrc32CombineGeneric_le P (not_lt.mp hpos)]; rfl, h⟩

theorem combineStep_clmul {W : Words} (h : ClmulTable W) (call : CombineCall) :
    ∃ W', combineStep computeCrc32CombineClmul W call = some W' ∧ ClmulTable W' := by
  unfold combineStep
  by_cases hpos : 0 < call.len2.toInt
  · obtain ⟨r, W', hrun, htable, -⟩ :=
      computeCrc32CombineClmul_pos call.crc1 call.crc2 h hpos
    exact ⟨W', by rw [hrun]; rfl, htable⟩
  · exact ⟨W, by rw [computeCrc32CombineClmul_le W (not_lt.mp hpos)]; rfl, h⟩

/-- Calls from the empty table on. -/
theorem run_combineStep
    {combine : Words → BitVec 32 → BitVec 32 → BitVec 64 → Option (BitVec 32 × Words)}
    {T : Words → Prop} (hstart : T fun _ => 0)
    (hstep : ∀ W call, T W → ∃ W', combineStep combine W call = some W' ∧ T W')
    (calls : List CombineCall) :
    ∃ W, Runs.run (combineStep combine) (fun _ => 0) calls = some W ∧ T W :=
  Runs.run_total (C := fun _ _ => True) (fun W call h _ => hstep W call h) hstart
    (Runs.along_of_always fun _ _ _ => trivial)

/-- **The combination of two checksums**: after any calls both ways give the CRC of the strings in
a row. -/
theorem crc32_combine (genericCalls clmulCalls : List CombineCall) (a b : Bytes)
    (hb : b.length < 2 ^ 63) :
    ∃ P W P' W',
      Runs.run (combineStep computeCrc32CombineGeneric) (fun _ => 0) genericCalls = some P ∧
      Runs.run (combineStep computeCrc32CombineClmul) (fun _ => 0) clmulCalls = some W ∧
      computeCrc32CombineGeneric P (computeCrc32 a) (computeCrc32 b) (BitVec.ofNat 64 b.length)
        = some (computeCrc32 (a ++ b), P') ∧
      computeCrc32CombineClmul W (computeCrc32 a) (computeCrc32 b) (BitVec.ofNat 64 b.length)
        = some (computeCrc32 (a ++ b), W') ∧
      (b = [] → computeCrc32 (a ++ b) = computeCrc32 a) ∧
      ∀ crc1 crc2, computeCrc32CombineGeneric P crc1 crc2 0 = some (crc1, P) ∧
        computeCrc32CombineClmul W crc1 crc2 0 = some (crc1, W) := by
  obtain ⟨P, hP, hgeneric⟩ := run_combineStep (Or.inl rfl)
    (fun _ call h => combineStep_generic h call) genericCalls
  obtain ⟨W, hW, hclmul⟩ := run_combineStep (Or.inl rfl)
    (fun _ call h => combineStep_clmul h call) clmulCalls
  have hnat : (BitVec.ofNat 64 b.length).toNat = b.length := by
    rw [BitVec.toNat_ofNat]
    omega
  have hint : (BitVec.ofNat 64 b.length).toInt = b.length := by
    rw [BitVec.toInt_eq_toNat_of_lt (by omega), hnat]
  have hnil : b = [] → computeCrc32 (a ++ b) = computeCrc32 a := by
    rintro rfl
    rw [List.append_nil]
  have hnone (crc1 crc2 : BitVec 32) :
      computeCrc32CombineGeneric P crc1 crc2 0 = some (crc1, P) ∧
        computeCrc32CombineClmul W crc1 crc2 0 = some (crc1, W) :=
    ⟨computeCrc32CombineGeneric_le P le_rfl, computeCrc32CombineClmul_le W le_rfl⟩
  rcases Nat.eq_zero_or_pos b.length with hempty | hpos
  · rw [hnil (List.length_eq_zero_iff.mp hempty), hempty]
    obtain ⟨hP', hW'⟩ := hnone (computeCrc32 a) (computeCrc32 b)
    exact ⟨P, W, P, W, hP, hW, hP', hW', fun _ => rfl, hnone⟩
  · have hpos' : 0 < (BitVec.ofNat 64 b.length).toInt := by omega
    have hvalue {r : BitVec 32} (hr : value crcPoly r
        = crcX crcPoly ^ (8 * (BitVec.ofNat 64 b.length).toNat) * value crcPoly (computeCrc32 a)
          + value crcPoly (computeCrc32 b)) : r = computeCrc32 (a ++ b) := by
      apply value_injective crcPoly
      rw [hr, hnat, value_computeCrc32_append]
    obtain ⟨r, P', hrunP, -, hrP⟩ := computeCrc32CombineGeneric_pos _ _ hgeneric hpos'
    obtain ⟨s, W', hrunW, -, hrW⟩ := computeCrc32CombineClmul_pos _ _ hclmul hpos'
    rw [hvalue hrP] at hrunP
    rw [hvalue hrW] at hrunW
    exact ⟨P, W, P', W', hP, hW, hrunP, hrunW, hnil, hnone⟩

/-- The first calls, for two strings. -/
theorem crc32_combine_first :
    ([51, 52] : Bytes).length < 2 ^ 63 ∧
    ∃ P W P' W',
      Runs.run (combineStep computeCrc32CombineGeneric) (fun _ => 0) [] = some P ∧
      Runs.run (combineStep computeCrc32CombineClmul) (fun _ => 0) [] = some W ∧
      computeCrc32CombineGeneric P (computeCrc32 [49, 50]) (computeCrc32 [51, 52]) 2
        = some (computeCrc32 [49, 50, 51, 52], P') ∧
      computeCrc32CombineClmul W (computeCrc32 [49, 50]) (computeCrc32 [51, 52]) 2
        = some (computeCrc32 [49, 50, 51, 52], W') := by
  obtain ⟨P, W, P', W', hP, hW, hgeneric, hclmul, -⟩ :=
    crc32_combine [] [] [49, 50] [51, 52] (by norm_num)
  exact ⟨by norm_num, P, W, P', W', hP, hW, hgeneric, hclmul⟩

end MtprotoProxy
