/-
# The ring of remainders of a cyclic redundancy check

A reflected CRC of width `w` calculates with polynomials over the field of two elements modulo a
polynomial of degree `w`.  Words of any width stand for classes of such polynomials, `CrcRing`: in
a word of `n` bits the lowest bit is the coefficient of `x ^ (n - 1)`.

`value` is the class of a word.  It turns the operations on words into those of the ring, `^^^`
into a sum (`value_xor`), a shift of the remainder into a product with `x` (`value_crcShift`), a
carry-less product into a product (`value_clmul`), and it loses nothing of a word of `w` bits
(`value_injective`).

This file names nothing of the proxy.
-/
import MtprotoProxy.CrcBits

namespace CLib

open Polynomial Finset

variable {w n m l : ℕ} {poly : BitVec w}

/-! ## The ring -/

/-- The polynomial of a number: the bit `i` of `n` bits is the coefficient of `X ^ (n - 1 - i)`. -/
noncomputable def reflected (n k : ℕ) : (ZMod 2)[X] :=
  ∑ i ∈ range n, if k.testBit i then X ^ (n - 1 - i) else 0

/-- The polynomial of a CRC, with its leading coefficient. -/
noncomputable def modulus (poly : BitVec w) : (ZMod 2)[X] := X ^ w + reflected w poly.toNat

/-- The classes of polynomials modulo the one of the CRC. -/
abbrev CrcRing (poly : BitVec w) : Type := AdjoinRoot (modulus poly)

/-- The class of `X`. -/
noncomputable def crcX (poly : BitVec w) : CrcRing poly := AdjoinRoot.root (modulus poly)

/-- The class of the lowest `n` bits of a number. -/
noncomputable def natValue (poly : BitVec w) (n k : ℕ) : CrcRing poly :=
  ∑ i ∈ range n, if k.testBit i then crcX poly ^ (n - 1 - i) else 0

/-- The class of a word. -/
noncomputable def value (poly : BitVec w) (a : BitVec n) : CrcRing poly :=
  natValue poly n a.toNat

theorem natValue_eq_mk (n k : ℕ) :
    natValue poly n k = AdjoinRoot.mk (modulus poly) (reflected n k) := by
  unfold natValue reflected crcX
  rw [map_sum]
  apply sum_congr rfl
  intro i _
  split_ifs
  · rw [map_pow, AdjoinRoot.mk_X]
  · rw [map_zero]

theorem two_eq_zero : (2 : CrcRing poly) = 0 := by
  have htwo : (2 : (ZMod 2)[X]) = 0 := CharTwo.two_eq_zero
  have hmap := congrArg (AdjoinRoot.mk (modulus poly)) htwo
  rwa [map_ofNat, map_zero] at hmap

/-- Every class is its own opposite. -/
theorem add_self_eq_zero (a : CrcRing poly) : a + a = 0 := by
  rw [← two_mul, two_eq_zero, zero_mul]

/-- The polynomial of the CRC is `x ^ w`. -/
theorem value_poly : value poly poly = crcX poly ^ w := by
  have hzero : crcX poly ^ w + value poly poly = 0 := by
    unfold value crcX
    rw [natValue_eq_mk, ← AdjoinRoot.mk_X, ← map_pow, ← map_add]
    exact AdjoinRoot.mk_self
  calc value poly poly = crcX poly ^ w + value poly poly + crcX poly ^ w := by
        linear_combination -crcX poly ^ w * (two_eq_zero : (2 : CrcRing poly) = 0)
    _ = crcX poly ^ w := by rw [hzero, zero_add]

/-! ## Words -/

@[simp] theorem natValue_zero (n : ℕ) : natValue poly n 0 = 0 := by
  unfold natValue
  apply sum_eq_zero
  intro i _
  rw [Nat.zero_testBit, if_neg Bool.false_ne_true]

/-- **A sum of words.** -/
theorem natValue_xor (n k l : ℕ) :
    natValue poly n (k ^^^ l) = natValue poly n k + natValue poly n l := by
  unfold natValue
  rw [← sum_add_distrib]
  apply sum_congr rfl
  intro i _
  rw [Nat.testBit_xor]
  cases k.testBit i <;> cases l.testBit i
  · exact (add_zero _).symm
  · exact (zero_add _).symm
  · exact (add_zero _).symm
  · exact (add_self_eq_zero _).symm

/-- **The low bits of a number and the rest**: the low bits have the higher powers. -/
theorem natValue_add (hl : l = n + m) {b : ℕ} (hb : b < 2 ^ n) (k : ℕ) :
    natValue poly l (b + 2 ^ n * k) = crcX poly ^ m * natValue poly n b + natValue poly m k := by
  subst hl
  unfold natValue
  rw [sum_range_add, mul_sum]
  congr 1
  · apply sum_congr rfl
    intro i hi
    rw [mem_range] at hi
    have hbit : (b + 2 ^ n * k).testBit i = b.testBit i := by
      rw [add_comm, Nat.testBit_two_pow_mul_add k hb, if_pos hi]
    rw [hbit, mul_ite, mul_zero, ← pow_add, show m + (n - 1 - i) = n + m - 1 - i by omega]
  · apply sum_congr rfl
    intro i hi
    rw [mem_range] at hi
    have hbit : (b + 2 ^ n * k).testBit (n + i) = k.testBit i := by
      rw [add_comm b, Nat.testBit_two_pow_mul_add k hb, if_neg (by omega), Nat.add_sub_cancel_left]
    rw [hbit, show m - 1 - i = n + m - 1 - (n + i) by omega]

/-- Clear bits above a word. -/
theorem natValue_high (hl : l = n + m) {k : ℕ} (hk : k < 2 ^ n) :
    natValue poly l k = crcX poly ^ m * natValue poly n k := by
  have h : natValue poly l (k + 2 ^ n * 0) = _ := natValue_add hl hk 0
  rwa [mul_zero, add_zero, natValue_zero, add_zero] at h

/-- Clear bits below a word. -/
theorem natValue_low (hl : l = n + m) (k : ℕ) :
    natValue poly l (2 ^ n * k) = natValue poly m k := by
  have h : natValue poly l (0 + 2 ^ n * k) = _ := natValue_add hl (Nat.two_pow_pos n) k
  rwa [zero_add, natValue_zero, mul_zero, zero_add] at h

/-- One bit is the constant 1. -/
theorem natValue_one : natValue poly 1 1 = 1 := by
  unfold natValue
  rw [sum_range_one]
  exact if_pos rfl

/-- The lowest bit has the highest power. -/
theorem natValue_succ (n k : ℕ) :
    natValue poly (n + 1) k
      = crcX poly ^ n * (if k % 2 = 1 then 1 else 0) + natValue poly n (k / 2) := by
  have hsplit : k = k % 2 + 2 ^ 1 * (k / 2) := by omega
  have hlow : k % 2 < 2 ^ 1 := Nat.mod_lt _ two_pos
  conv_lhs => rw [hsplit, natValue_add (add_comm n 1) hlow]
  congr 2
  rcases Nat.mod_two_eq_zero_or_one k with h | h
  · rw [h, natValue_zero]
    rfl
  · rw [h, natValue_one]
    rfl

/-- The bits up to the next one. -/
theorem natValue_mod_succ (k b : ℕ) :
    natValue poly (k + 1) (b % 2 ^ (k + 1))
      = crcX poly * natValue poly k (b % 2 ^ k) + if b.testBit k then 1 else 0 := by
  have hbit : b % 2 ^ (k + 1) = b % 2 ^ k + 2 ^ k * (b / 2 ^ k % 2) := Nat.mod_pow_succ
  rw [hbit, natValue_add rfl (Nat.mod_lt _ (Nat.two_pow_pos k)), pow_one,
    Nat.testBit_eq_decide_div_mod_eq]
  congr 1
  rcases Nat.mod_two_eq_zero_or_one (b / 2 ^ k) with h | h
  · rw [h, natValue_zero]
    rfl
  · rw [h, natValue_one]
    rfl

@[simp] theorem value_zero : value poly 0#n = 0 := by
  unfold value
  rw [BitVec.toNat_zero]
  exact natValue_zero n

theorem value_xor (a b : BitVec n) : value poly (a ^^^ b) = value poly a + value poly b := by
  unfold value
  rw [BitVec.toNat_xor]
  exact natValue_xor n _ _

theorem toNat_append_eq (a : BitVec n) (b : BitVec m) :
    (a ++ b).toNat = b.toNat + 2 ^ m * a.toNat := by
  rw [BitVec.toNat_append, ← Nat.shiftLeft_add_eq_or_of_lt b.isLt, Nat.shiftLeft_eq]
  ring

/-- Two words in one: the low one has the higher powers. -/
theorem value_append (a : BitVec n) (b : BitVec m) :
    value poly (a ++ b) = crcX poly ^ n * value poly b + value poly a := by
  unfold value
  rw [toNat_append_eq, natValue_add (add_comm n m) b.isLt]

/-- One bit of a word is a power of `x`, the highest one the constant 1. -/
theorem value_twoPow {k : ℕ} (hk : k < n) :
    value poly (BitVec.twoPow n (n - 1 - k)) = crcX poly ^ k := by
  have hlt : n - 1 - k < n := by omega
  unfold value
  rw [BitVec.toNat_twoPow_of_lt hlt, ← mul_one (2 ^ (n - 1 - k)),
    natValue_low (m := 1 + k) (by omega), natValue_high rfl one_lt_two, natValue_one, mul_one]

/-- **A shift of the remainder is a product with `x`.** -/
theorem value_crcShift (c : BitVec w) : value poly (crcShift poly c) = crcX poly * value poly c := by
  rcases Nat.eq_zero_or_pos w with rfl | hw
  · have hnil : ∀ a : BitVec 0, value poly a = 0 := fun a => by
      rw [BitVec.eq_nil a]
      exact value_zero
    rw [hnil, hnil, mul_zero]
  · have hk : w = 1 + (w - 1) := by omega
    have hk' : w = w - 1 + 1 := by omega
    have hlow : c.toNat % 2 < 2 ^ 1 := Nat.mod_lt _ two_pos
    -- the lowest bit and the others
    have hsplit : value poly c = crcX poly ^ (w - 1) * natValue poly 1 (c.toNat % 2)
        + natValue poly (w - 1) (c.toNat / 2) := by
      rw [← natValue_add hk hlow]
      unfold value
      congr 1
      omega
    have hlt : c.toNat / 2 < 2 ^ (w - 1) := by
      have hc := c.isLt
      have hpow : 2 ^ w = 2 * 2 ^ (w - 1) := by
        rw [← pow_succ', ← hk']
      omega
    have hmoved : value poly (c >>> 1) = crcX poly * natValue poly (w - 1) (c.toNat / 2) := by
      unfold value
      rw [BitVec.toNat_ushiftRight, Nat.shiftRight_eq_div_pow, pow_one, natValue_high hk' hlt,
        pow_one]
    have hbit : c.getLsbD 0 = decide (c.toNat % 2 = 1) := by
      rw [← BitVec.testBit_toNat, Nat.testBit_zero]
    unfold crcShift
    rw [hbit]
    rcases Nat.mod_two_eq_zero_or_one c.toNat with hc | hc
    · rw [hc] at hsplit ⊢
      rw [if_neg (by decide), hmoved, hsplit, natValue_zero, mul_zero, zero_add]
    · rw [hc] at hsplit ⊢
      have hpow : crcX poly ^ w = crcX poly * crcX poly ^ (w - 1) := by
        rw [← pow_succ', ← hk']
      rw [if_pos (by decide), value_xor, hmoved, value_poly, hsplit, natValue_one, hpow]
      ring

theorem value_crcShifts (k : ℕ) (c : BitVec w) :
    value poly (crcShifts poly k c) = crcX poly ^ k * value poly c := by
  induction k generalizing c with
  | zero =>
    rw [pow_zero, one_mul]
    rfl
  | succ k ih =>
    have hsucc : crcShifts poly (k + 1) c = crcShifts poly k (crcShift poly c) :=
      Function.iterate_succ_apply ..
    rw [hsucc, ih, value_crcShift]
    ring

/-! ## A word is told apart from others -/

theorem coeff_reflected {k i : ℕ} (hi : i < n) :
    (reflected n k).coeff i = if k.testBit (n - 1 - i) then 1 else 0 := by
  unfold reflected
  rw [finsetSum_coeff, sum_eq_single (n - 1 - i)]
  · rw [show n - 1 - (n - 1 - i) = i by omega]
    split_ifs
    · exact coeff_X_pow_self i
    · exact coeff_zero i
  · intro j hj hne
    rw [mem_range] at hj
    split_ifs
    · rw [coeff_X_pow, if_neg (by omega)]
    · exact coeff_zero i
  · intro hnot
    rw [mem_range] at hnot
    omega

theorem degree_reflected_lt (n k : ℕ) : (reflected n k).degree < n := by
  unfold reflected
  apply lt_of_le_of_lt (degree_sum_le _ _)
  apply (Finset.sup_lt_iff (WithBot.bot_lt_coe n)).mpr
  intro i hi
  rw [mem_range] at hi
  split_ifs
  · rw [degree_X_pow]
    exact Nat.cast_lt.mpr (by omega)
  · rw [degree_zero]
    exact WithBot.bot_lt_coe n

theorem degree_modulus (poly : BitVec w) : (modulus poly).degree = w := by
  unfold modulus
  rw [degree_add_eq_left_of_degree_lt]
  · exact degree_X_pow w
  · rw [degree_X_pow]
    exact degree_reflected_lt w _

/-- **A word of the width of the CRC is told by its class.** -/
theorem value_injective (poly : BitVec w) {a b : BitVec w} (h : value poly a = value poly b) : a = b := by
  unfold value at h
  rw [natValue_eq_mk, natValue_eq_mk, AdjoinRoot.mk_eq_mk] at h
  have hdeg : (reflected w a.toNat - reflected w b.toNat).degree < (modulus poly).degree := by
    rw [degree_modulus]
    exact lt_of_le_of_lt (degree_sub_le _ _)
      (max_lt (degree_reflected_lt w _) (degree_reflected_lt w _))
  have heq := sub_eq_zero.mp (eq_zero_of_dvd_of_degree_lt h hdeg)
  apply BitVec.eq_of_getLsbD_eq
  intro i hi
  have hcoeff := congrArg (fun p => p.coeff (w - 1 - i)) heq
  rw [coeff_reflected (by omega), coeff_reflected (by omega),
    show w - 1 - (w - 1 - i) = i by omega, BitVec.testBit_toNat, BitVec.testBit_toNat] at hcoeff
  cases ha : a.getLsbD i <;> cases hb : b.getLsbD i
  · rfl
  · rw [ha, hb] at hcoeff
    exact absurd hcoeff (by decide)
  · rw [ha, hb] at hcoeff
    exact absurd hcoeff (by decide)
  · rfl

/-- The ring has more than one class. -/
theorem one_ne_zero_of_pos (hw : 0 < w) : (1 : CrcRing poly) ≠ 0 := by
  intro h
  have hone : value poly (BitVec.twoPow w (w - 1 - 0)) = crcX poly ^ 0 := value_twoPow hw
  have heq : BitVec.twoPow w (w - 1 - 0) = 0#w := by
    apply value_injective poly
    rw [hone, pow_zero, h, value_zero]
  have hnat := congrArg BitVec.toNat heq
  rw [BitVec.toNat_twoPow_of_lt (by omega), BitVec.toNat_zero] at hnat
  exact (Nat.two_pow_pos _).ne' hnat

/-! ## Products -/

/-- The carry-less product of a word with the lowest `k` bits of another one. -/
def clmulBits (a : BitVec n) (b : BitVec m) : ℕ → BitVec (n + m)
  | 0 => 0
  | k + 1 => clmulBits a b k ^^^ if b.getLsbD k then a.setWidth (n + m) <<< k else 0

/-- The carry-less product. -/
def clmul (a : BitVec n) (b : BitVec m) : BitVec (n + m) := clmulBits a b m

theorem toNat_shifted (a : BitVec n) {k : ℕ} (hk : k ≤ m) :
    (a.setWidth (n + m) <<< k).toNat = 2 ^ k * a.toNat := by
  have hlt : 2 ^ k * a.toNat < 2 ^ (n + m) := by
    calc 2 ^ k * a.toNat < 2 ^ k * 2 ^ n := (Nat.mul_lt_mul_left (Nat.two_pow_pos k)).mpr a.isLt
      _ = 2 ^ (k + n) := (pow_add 2 k n).symm
      _ ≤ 2 ^ (n + m) := Nat.pow_le_pow_right two_pos (by omega)
  have hle : a.toNat ≤ 2 ^ k * a.toNat := Nat.le_mul_of_pos_left _ (Nat.two_pow_pos k)
  rw [BitVec.toNat_shiftLeft, BitVec.toNat_setWidth, Nat.mod_eq_of_lt (lt_of_le_of_lt hle hlt),
    Nat.shiftLeft_eq, mul_comm, Nat.mod_eq_of_lt hlt]

/-- A word moved up in a wider one. -/
theorem value_shifted (a : BitVec n) {k : ℕ} (hk : k ≤ m) :
    value poly (a.setWidth (n + m) <<< k) = crcX poly ^ (m - k) * value poly a := by
  unfold value
  rw [toNat_shifted a hk, natValue_low (m := n + (m - k)) (by omega), natValue_high rfl a.isLt]

/-- A word in a wider one. -/
theorem value_setWidth (poly : BitVec w) (m : ℕ) (a : BitVec n) :
    value poly (a.setWidth (n + m)) = crcX poly ^ m * value poly a := by
  have h : value poly (a.setWidth (n + m) <<< 0) = _ := value_shifted a (Nat.zero_le m)
  rwa [BitVec.shiftLeft_zero, Nat.sub_zero] at h

theorem value_clmulBits (a : BitVec n) (b : BitVec m) {k : ℕ} (hk : k ≤ m) :
    value poly (clmulBits a b k)
      = crcX poly * crcX poly ^ (m - k) * value poly a * natValue poly k (b.toNat % 2 ^ k) := by
  induction k with
  | zero =>
    rw [pow_zero, Nat.mod_one, natValue_zero, mul_zero]
    exact value_zero
  | succ k ih =>
    have hpow : crcX poly ^ (m - k) = crcX poly * crcX poly ^ (m - (k + 1)) := by
      rw [← pow_succ', show m - (k + 1) + 1 = m - k by omega]
    rw [clmulBits, value_xor, ih (by omega), natValue_mod_succ, BitVec.testBit_toNat, hpow]
    split_ifs
    · rw [value_shifted a (by omega), hpow]
      ring
    · have hzero : value poly (0 : BitVec (n + m)) = 0 := value_zero
      rw [hzero]
      ring

/-- **The carry-less product**: the reflected words of it have one factor `x` more. -/
theorem value_clmul (a : BitVec n) (b : BitVec m) :
    value poly (clmul a b) = crcX poly * value poly a * value poly b := by
  have h : value poly (clmulBits a b m) = _ := value_clmulBits a b le_rfl
  rw [Nat.sub_self, pow_zero, mul_one, Nat.mod_eq_of_lt b.isLt] at h
  exact h

/-- The carry-less product of numbers, with the lowest `k` bits of the second one. -/
def clmulNat (x y : ℕ) : ℕ → ℕ
  | 0 => 0
  | k + 1 => clmulNat x y k ^^^ if y.testBit k then 2 ^ k * x else 0

theorem toNat_clmulBits (a : BitVec n) (b : BitVec m) {k : ℕ} (hk : k ≤ m) :
    (clmulBits a b k).toNat = clmulNat a.toNat b.toNat k := by
  induction k with
  | zero => rfl
  | succ k ih =>
    rw [clmulBits, clmulNat, BitVec.toNat_xor, ih (by omega), BitVec.testBit_toNat]
    congr 1
    split_ifs
    · exact toNat_shifted a (by omega)
    · rfl

theorem clmulNat_of_lt (x : ℕ) {y k l : ℕ} (hy : y < 2 ^ k) (hkl : k ≤ l) :
    clmulNat x y l = clmulNat x y k := by
  induction l, hkl using Nat.le_induction with
  | base => rfl
  | succ l hkl ih =>
    have hclear : y.testBit l = false :=
      Nat.testBit_lt_two_pow (lt_of_lt_of_le hy (Nat.pow_le_pow_right two_pos hkl))
    rw [clmulNat, ih, hclear, if_neg Bool.false_ne_true, Nat.xor_zero]

/-- The product of words in wider ones. -/
theorem toNat_clmul_setWidth (a : BitVec n) (b : BitVec m) {n' m' : ℕ} (hn : n ≤ n') (hm : m ≤ m') :
    (clmul (a.setWidth n') (b.setWidth m')).toNat = (clmul a b).toNat := by
  have ha : a.toNat < 2 ^ n' := lt_of_lt_of_le a.isLt (Nat.pow_le_pow_right two_pos hn)
  have hb : b.toNat < 2 ^ m' := lt_of_lt_of_le b.isLt (Nat.pow_le_pow_right two_pos hm)
  unfold clmul
  rw [toNat_clmulBits _ _ le_rfl, toNat_clmulBits _ _ le_rfl, BitVec.toNat_setWidth,
    BitVec.toNat_setWidth, Nat.mod_eq_of_lt ha, Nat.mod_eq_of_lt hb, clmulNat_of_lt _ b.isLt hm]

/-- The product of two remainders, bit by bit from the highest power on. -/
def crcMul (poly a b : BitVec w) : BitVec w :=
  (List.range w).foldl
    (fun x i => if b.getLsbD i then crcShift poly x ^^^ a else crcShift poly x) 0

theorem value_crcMul (a b : BitVec w) :
    value poly (crcMul poly a b) = value poly a * value poly b := by
  have hfold : ∀ k, value poly ((List.range k).foldl
      (fun x i => if b.getLsbD i then crcShift poly x ^^^ a else crcShift poly x) 0)
      = value poly a * natValue poly k (b.toNat % 2 ^ k) := by
    intro k
    induction k with
    | zero =>
      rw [pow_zero, Nat.mod_one, natValue_zero, mul_zero]
      exact value_zero
    | succ k ih =>
      rw [List.range_succ, List.foldl_concat, natValue_mod_succ, BitVec.testBit_toNat]
      split_ifs
      · rw [value_xor, value_crcShift, ih]
        ring
      · rw [value_crcShift, ih]
        ring
  have h := hfold w
  rwa [Nat.mod_eq_of_lt b.isLt] at h

/-- Repeated squares. -/
theorem value_squares (k : ℕ) (a : BitVec w) :
    value poly ((fun b => crcMul poly b b)^[k] a) = value poly a ^ 2 ^ k := by
  induction k with
  | zero => rw [pow_zero, pow_one, Function.iterate_zero, id_eq]
  | succ k ih =>
    rw [Function.iterate_succ_apply', value_crcMul, ih, pow_succ, mul_two, pow_add]

/-- A power, by the bits of the exponent; the fuel bounds their number. -/
def crcPow (poly a : BitVec w) : ℕ → ℕ → BitVec w
  | 0, _ => BitVec.twoPow w (w - 1 - 0)
  | fuel + 1, k =>
    let x := crcPow poly (crcMul poly a a) fuel (k / 2)
    if k % 2 = 1 then crcMul poly x a else x

theorem value_crcPow (hw : 0 < w) (fuel : ℕ) (a : BitVec w) {k : ℕ} (hk : k < 2 ^ fuel) :
    value poly (crcPow poly a fuel k) = value poly a ^ k := by
  induction fuel generalizing a k with
  | zero =>
    have hone : value poly (BitVec.twoPow w (w - 1 - 0)) = crcX poly ^ 0 := value_twoPow hw
    rw [crcPow, hone, Nat.lt_one_iff.mp hk, pow_zero, pow_zero]
  | succ fuel ih =>
    have hhalf : k / 2 < 2 ^ fuel := by
      rw [pow_succ] at hk
      omega
    have hsquare := ih (crcMul poly a a) hhalf
    rw [value_crcMul, ← pow_two, ← pow_mul] at hsquare
    rw [crcPow]
    split_ifs with hodd
    · rw [value_crcMul, hsquare, ← pow_succ, show 2 * (k / 2) + 1 = k by omega]
    · rw [hsquare, show 2 * (k / 2) = k by omega]

/-! ## Strings -/

theorem leWord_lt (bs : Bytes) : leWord bs < 2 ^ (8 * bs.length) := by
  induction bs with
  | nil => exact Nat.one_pos
  | cons b bs ih =>
    have hb := b.toNat_lt
    rw [leWord_cons, List.length_cons, mul_add, mul_one, pow_add]
    omega

theorem leWord_append (bs cs : Bytes) :
    leWord (bs ++ cs) = leWord bs + 2 ^ (8 * bs.length) * leWord cs := by
  induction bs with
  | nil => simp
  | cons b bs ih =>
    have hpow : 2 ^ (8 * (bs.length + 1)) = 256 * 2 ^ (8 * bs.length) := by ring
    rw [List.cons_append, leWord_cons, leWord_cons, ih, List.length_cons, hpow]
    ring

/-- The class of a string: its first bit has the highest power. -/
noncomputable def bytesValue (poly : BitVec w) (bs : Bytes) : CrcRing poly :=
  natValue poly (8 * bs.length) (leWord bs)

@[simp] theorem bytesValue_nil : bytesValue poly [] = 0 := natValue_zero _

theorem bytesValue_append (bs cs : Bytes) :
    bytesValue poly (bs ++ cs)
      = crcX poly ^ (8 * cs.length) * bytesValue poly bs + bytesValue poly cs := by
  unfold bytesValue
  rw [leWord_append, natValue_add (by rw [List.length_append, mul_add]) (leWord_lt bs)]

theorem bytesValue_cons (b : UInt8) (bs : Bytes) :
    bytesValue poly (b :: bs)
      = crcX poly ^ (8 * bs.length) * natValue poly 8 b.toNat + bytesValue poly bs := by
  have h : bytesValue poly ([b] ++ bs) = _ := bytesValue_append [b] bs
  rw [List.singleton_append] at h
  rw [h]
  unfold bytesValue
  rw [leWord_cons, leWord_nil, mul_zero, add_zero]
  rfl

/-- Clear bytes in front do not count. -/
theorem bytesValue_replicate_append (k : ℕ) (bs : Bytes) :
    bytesValue poly (List.replicate k 0 ++ bs) = bytesValue poly bs := by
  induction k with
  | zero => rfl
  | succ k ih =>
    rw [List.replicate_succ, List.cons_append, bytesValue_cons, ih, UInt8.toNat_zero,
      natValue_zero, mul_zero, zero_add]

/-- Clear bytes behind. -/
theorem bytesValue_append_replicate (bs : Bytes) (k : ℕ) :
    bytesValue poly (bs ++ List.replicate k 0) = crcX poly ^ (8 * k) * bytesValue poly bs := by
  have hzero : bytesValue poly (List.replicate k 0 ++ []) = _ := bytesValue_replicate_append k []
  rw [List.append_nil, bytesValue_nil] at hzero
  rw [bytesValue_append, List.length_replicate, hzero, add_zero]

/-- A word that is read from memory. -/
theorem value_ofNat_leWord {bs : Bytes} (h : n = 8 * bs.length) :
    value poly (BitVec.ofNat n (leWord bs)) = bytesValue poly bs := by
  subst h
  unfold value bytesValue
  rw [BitVec.toNat_ofNat, Nat.mod_eq_of_lt (leWord_lt bs)]

theorem value_crcBit (c : BitVec w) (b : Bool) :
    value poly (crcBit poly c b)
      = crcX poly * value poly c + crcX poly ^ w * (if b then 1 else 0) := by
  rw [crcBit_eq, value_xor, value_crcShift]
  congr 1
  unfold crcBit
  rw [BitVec.getLsbD_zero, BitVec.zero_ushiftRight, Bool.false_xor]
  split_ifs
  · rw [BitVec.zero_xor, value_poly, mul_one]
  · rw [value_zero, mul_zero]

/-- The lowest `k` bits of a number, one by one. -/
theorem value_foldl_crcBit (c : BitVec w) (b k : ℕ) :
    value poly (((List.range k).map b.testBit).foldl (crcBit poly) c)
      = crcX poly ^ k * value poly c + crcX poly ^ w * natValue poly k (b % 2 ^ k) := by
  induction k with
  | zero =>
    rw [pow_zero, pow_zero, Nat.mod_one, natValue_zero, mul_zero, one_mul, add_zero]
    rfl
  | succ k ih =>
    rw [List.range_succ, List.map_append, List.map_singleton, List.foldl_concat, value_crcBit, ih,
      natValue_mod_succ]
    ring

theorem value_crcByte (c : BitVec w) (b : UInt8) :
    value poly (crcByte poly c b)
      = crcX poly ^ 8 * value poly c + crcX poly ^ w * natValue poly 8 b.toNat := by
  have h : value poly (crcByte poly c b) = _ := value_foldl_crcBit c b.toNat 8
  rwa [Nat.mod_eq_of_lt b.toNat_lt] at h

/-- **The remainder of a string**, in the ring. -/
theorem value_crcBytes (c : BitVec w) (bs : Bytes) :
    value poly (crcBytes poly c bs)
      = crcX poly ^ (8 * bs.length) * value poly c + crcX poly ^ w * bytesValue poly bs := by
  induction bs generalizing c with
  | nil =>
    rw [List.length_nil, mul_zero, pow_zero, bytesValue_nil, one_mul, mul_zero, add_zero]
    rfl
  | cons b bs ih =>
    have hcons : crcBytes poly c (b :: bs) = crcBytes poly (crcByte poly c b) bs := rfl
    rw [hcons, ih, value_crcByte, bytesValue_cons, List.length_cons]
    ring

end CLib
