/-
# Arithmetic of remainders

The functions `gf32_*` of `common/crc32.c`: products and powers of remainders of 32 bits, products
with a matrix over the field of two elements, and the tables of powers for the combination of
checksums.

A matrix is an array of 32 words behind a pointer.  `Multiplies` says that it is the matrix of a
product with a constant, and then `gf32_matrix_times` is that product in the ring of remainders and
`gf32_matrix_square` the matrix of the square.
-/
import MtprotoProxy.SseWords
import MtprotoProxy.Runs

namespace MtprotoProxy

open CLib

/-! ## The code -/

def gf32Mulx (a poly : BitVec 32) : BitVec 32 :=
  let r := a >>> 1
  if a &&& 1 ≠ 0 then r ^^^ poly else r

/-- `n` rounds of the loop of `gf32_mul`. -/
def gf32MulLoop (a poly : BitVec 32) : ℕ → BitVec 32 → BitVec 32 → BitVec 32
  | 0, x, _ => x
  | n + 1, x, b =>
    let x := gf32Mulx x poly
    let x := if b &&& 1 ≠ 0 then x ^^^ a else x
    gf32MulLoop a poly n x (b >>> 1)

def gf32Mul (a b poly : BitVec 32) : BitVec 32 := gf32MulLoop a poly 32 0 b

def gf32Pow (a : BitVec 32) (k : ℕ) (poly : BitVec 32) : BitVec 32 :=
  if h : k = 0 then 0x80000000
  else
    have : k >>> 1 < k := by
      rw [Nat.shiftRight_eq_div_pow]
      omega
    let x := gf32Pow (gf32Mul a a poly) (k >>> 1) poly
    if k &&& 1 ≠ 0 then gf32Mul x a poly else x
termination_by k

/-- An array of words. -/
abbrev Words : Type := ℕ → BitVec 32

/-- The loop of `gf32_matrix_times`, with the pointer `matrix`. -/
def gf32MatrixLoop (P : Words) (matrix : ℕ) (vector sum : BitVec 32) : BitVec 32 :=
  if h : vector = 0 then sum
  else
    have : (vector >>> 1).toNat < vector.toNat := by
      have hne : vector.toNat ≠ 0 := fun hzero => h (BitVec.eq_of_toNat_eq hzero)
      rw [BitVec.toNat_ushiftRight, Nat.shiftRight_eq_div_pow]
      omega
    let sum := if vector &&& 1 ≠ 0 then sum ^^^ P matrix else sum
    gf32MatrixLoop P (matrix + 1) (vector >>> 1) sum
termination_by vector.toNat

/-- `gf32_matrix_times` with the matrix at `matrix`. -/
def gf32MatrixTimes (P : Words) (matrix : ℕ) (vector : BitVec 32) : BitVec 32 :=
  gf32MatrixLoop P matrix vector 0

/-- `gf32_matrix_square`: the matrix at `matrix` is squared to `square`. -/
def gf32MatrixSquare (P : Words) (square matrix : ℕ) : Words :=
  (List.range 32).foldl
    (fun P n => Function.update P (square + n) (gf32MatrixTimes P matrix (P (matrix + n)))) P

def gf32ComputePowersGeneric (P : Words) (size : ℕ) (poly : BitVec 32) : Option Words := do
  guard (size &&& 31 = 0)
  let P := Function.update P 0 poly
  let P := (List.range 31).foldl
    (fun P n => Function.update P (n + 1) ((1 : BitVec 32) <<< n)) P
  let P := (List.range' 1 (size / 32 - 1)).foldl
    (fun P n => gf32MatrixSquare P (n <<< 5) ((n - 1) <<< 5)) P
  guard (P (size - 1) ≠ 0)
  return P

/-- `n` rounds of the loop of `gf32_compute_powers_clmul`; the array is aligned where it is
defined. -/
def gf32PowersLoop (poly b : BitVec 32) : ℕ → ℕ → Words → BitVec 32 → Words
  | 0, _, W, _ => W
  | n + 1, P, W, a =>
    let W := Function.update W P 0
    let W := Function.update W (P + 1) (gf32Mul a b poly)
    let W := Function.update W (P + 2) 0
    let W := Function.update W (P + 3) a
    gf32PowersLoop poly b n (P + 4) W (gf32Mulx (gf32Mul a a poly) poly)

def gf32ComputePowersClmul (W : Words) (poly : BitVec 32) : Words :=
  gf32PowersLoop poly (gf32Mul poly poly poly) 63 0 W ((1 : BitVec 32) <<< (31 - 7))

/-- The loop of `gf32_combine_generic`; the length is positive at its start. -/
def gf32CombineLoop (powers : Words) (p : ℕ) (crc1 : BitVec 32) (len2 : ℕ) : BitVec 32 :=
  let p := p + 32
  let crc1 := if len2 &&& 1 ≠ 0 then gf32MatrixTimes powers p crc1 else crc1
  if h : len2 >>> 1 = 0 then crc1
  else
    have : len2 >>> 1 < len2 := by
      rw [Nat.shiftRight_eq_div_pow] at h ⊢
      omega
    gf32CombineLoop powers p crc1 (len2 >>> 1)
termination_by len2

def gf32CombineGeneric (powers : Words) (crc1 : BitVec 32) (len2 : ℕ) : BitVec 32 :=
  gf32CombineLoop powers 64 crc1 len2

/-- The vector at `p`. -/
def vectorAt (W : Words) (p : ℕ) : BitVec 128 := v2di (W (p + 1) ++ W p) (W (p + 3) ++ W (p + 2))

/-- `__builtin_ffsll` of a positive number. -/
def ffsll (n : ℕ) : ℕ := padicValNat 2 n + 1

/-- The loop of `gf32_combine_clmul`. -/
def gf32ClmulLoop (powers : Words) (p : ℕ) (D : BitVec 128) (len2 : ℕ) : BitVec 128 :=
  if h : len2 = 0 then D
  else
    have : len2 >>> 1 < len2 := by
      rw [Nat.shiftRight_eq_div_pow]
      omega
    let p := p + 4
    let D := if len2 &&& 1 ≠ 0 then
        let E := vectorAt powers p
        pclmulqdq E D 0x11 ^^^ pclmulqdq E D 0x00
      else D
    gf32ClmulLoop powers p D (len2 >>> 1)
termination_by len2

def gf32CombineClmul (powers : Words) (crc1 : BitVec 32) (len2 : ℕ) : BitVec 64 :=
  let D : BitVec 128 := pslldqi (crc1.setWidth 128) 96
  let n := ffsll len2
  let p := 4 * (n - 1)
  let D := pclmulqdq (vectorAt powers p) D 0x11
  let D := gf32ClmulLoop powers p D (len2 >>> n)
  let D := D ^^^ pclmulqdq (vectorAt powers 12) D 0x01
  loHalf (punpckhqdq D D)

/-! ## Products and powers -/

section Values

variable {poly : BitVec 32}

theorem and_one_ne_zero (a : BitVec 32) : a &&& 1 ≠ 0 ↔ a.toNat % 2 = 1 := by
  have hnat : (a &&& 1).toNat = a.toNat % 2 := Nat.and_two_pow_sub_one_eq_mod a.toNat 1
  constructor
  · intro h
    by_contra hzero
    apply h
    apply BitVec.eq_of_toNat_eq
    show (a &&& 1).toNat = 0
    omega
  · intro h hzero
    rw [hzero] at hnat
    have : (0 : BitVec 32).toNat = 0 := rfl
    omega

/-- `gf32_mulx` is a shift of the remainder. -/
theorem gf32Mulx_eq (a : BitVec 32) : gf32Mulx a poly = crcShift poly a := by
  have hbit : a &&& 1 ≠ 0 ↔ a.getLsbD 0 = true := by
    rw [and_one_ne_zero, ← BitVec.testBit_toNat, Nat.testBit_zero, decide_eq_true_iff]
  unfold gf32Mulx crcShift
  dsimp only
  by_cases h : a &&& 1 ≠ 0
  · rw [if_pos h, if_pos (hbit.mp h)]
  · rw [if_neg h, if_neg (mt hbit.mpr h)]

theorem value_gf32Mulx (a : BitVec 32) :
    value poly (gf32Mulx a poly) = crcX poly * value poly a := by
  rw [gf32Mulx_eq, value_crcShift]

theorem toNat_ushiftRight_one (a : BitVec 32) : (a >>> 1).toNat = a.toNat / 2 := by
  rw [BitVec.toNat_ushiftRight, Nat.shiftRight_eq_div_pow, pow_one]

theorem value_gf32MulLoop (a : BitVec 32) (n : ℕ) (x b : BitVec 32) :
    value poly (gf32MulLoop a poly n x b)
      = crcX poly ^ n * value poly x + value poly a * natValue poly n b.toNat := by
  induction n generalizing x b with
  | zero =>
    have hnone : natValue poly 0 b.toNat = 0 := Finset.sum_range_zero _
    rw [hnone, pow_zero, one_mul, mul_zero, add_zero]
    rfl
  | succ n ih =>
    have hround : value poly (if b &&& 1 ≠ 0 then gf32Mulx x poly ^^^ a else gf32Mulx x poly)
        = crcX poly * value poly x + value poly a * (if b.toNat % 2 = 1 then 1 else 0) := by
      by_cases hb : b &&& 1 ≠ 0
      · rw [if_pos hb, if_pos ((and_one_ne_zero b).mp hb), value_xor, value_gf32Mulx, mul_one]
      · rw [if_neg hb, if_neg (mt (and_one_ne_zero b).mpr hb), value_gf32Mulx, mul_zero, add_zero]
    rw [gf32MulLoop, ih, hround, natValue_succ, toNat_ushiftRight_one]
    ring

/-- **`gf32_mul`** is the product. -/
theorem value_gf32Mul (a b : BitVec 32) :
    value poly (gf32Mul a b poly) = value poly a * value poly b := by
  have hzero : value poly (0 : BitVec 32) = 0 := value_zero
  unfold gf32Mul
  rw [value_gf32MulLoop, hzero, mul_zero, zero_add]
  rfl

theorem value_one : value poly (0x80000000 : BitVec 32) = 1 := by
  have h : value poly (BitVec.twoPow 32 (32 - 1 - 0)) = crcX poly ^ 0 := value_twoPow (by norm_num)
  exact h.trans (pow_zero _)

/-- **`gf32_pow`** is the power. -/
theorem value_gf32Pow (a : BitVec 32) (k : ℕ) :
    value poly (gf32Pow a k poly) = value poly a ^ k := by
  induction k using Nat.strong_induction_on generalizing a with
  | _ k ih =>
    rw [gf32Pow]
    by_cases hzero : k = 0
    · rw [dif_pos hzero, value_one, hzero, pow_zero]
    · have hhalf : k >>> 1 = k / 2 := Nat.shiftRight_eq_div_pow k 1
      have hsquare := ih (k >>> 1) (by omega) (gf32Mul a a poly)
      rw [value_gf32Mul, hhalf, ← pow_two, ← pow_mul] at hsquare
      rw [dif_neg hzero]
      dsimp only
      rw [hhalf]
      by_cases hodd : k &&& 1 ≠ 0
      · have hk : k = 2 * (k / 2) + 1 := by
          rw [Nat.and_one_is_mod] at hodd
          omega
        rw [if_pos hodd, value_gf32Mul, hsquare, ← pow_succ, ← hk]
      · have hk : k = 2 * (k / 2) := by
          rw [Nat.and_one_is_mod] at hodd
          omega
        rw [if_neg hodd, hsquare, ← hk]

/-! ## Matrices -/

/-- The matrix at `matrix` is that of the product with `c`. -/
def Multiplies (poly : BitVec 32) (P : Words) (matrix : ℕ) (c : CrcRing poly) : Prop :=
  ∀ j < 32, value poly (P (matrix + j)) = c * crcX poly ^ (31 - j)

variable {P : Words} {matrix : ℕ} {c : CrcRing poly}

theorem value_gf32MatrixLoop (h : Multiplies poly P matrix c) {i k : ℕ} (hk : i + k = 32)
    {vector : BitVec 32} (hv : vector.toNat < 2 ^ k) (sum : BitVec 32) :
    value poly (gf32MatrixLoop P (matrix + i) vector sum)
      = value poly sum + c * natValue poly k vector.toNat := by
  induction k generalizing i vector sum with
  | zero =>
    have hzero : vector = 0 := BitVec.eq_of_toNat_eq (Nat.lt_one_iff.mp hv)
    rw [gf32MatrixLoop, dif_pos hzero, hzero]
    show _ = _ + c * natValue poly 0 0
    rw [natValue_zero, mul_zero, add_zero]
  | succ k ih =>
    rw [gf32MatrixLoop]
    by_cases hzero : vector = 0
    · rw [dif_pos hzero, hzero]
      show _ = _ + c * natValue poly (k + 1) 0
      rw [natValue_zero, mul_zero, add_zero]
    · have hrow := h i (by omega)
      have hround : value poly (if vector &&& 1 ≠ 0 then sum ^^^ P (matrix + i) else sum)
          = value poly sum
            + c * crcX poly ^ k * (if vector.toNat % 2 = 1 then 1 else 0) := by
        by_cases hbit : vector &&& 1 ≠ 0
        · rw [if_pos hbit, if_pos ((and_one_ne_zero vector).mp hbit), value_xor, hrow, mul_one,
            show 31 - i = k by omega]
        · rw [if_neg hbit, if_neg (mt (and_one_ne_zero vector).mpr hbit), mul_zero, add_zero]
      have hlt : (vector >>> 1).toNat < 2 ^ k := by
        rw [toNat_ushiftRight_one]
        rw [pow_succ] at hv
        omega
      rw [dif_neg hzero]
      dsimp only
      rw [add_assoc matrix i 1, ih (by omega) hlt, hround, natValue_succ, toNat_ushiftRight_one]
      ring

/-- **`gf32_matrix_times`** is a product in the ring. -/
theorem Multiplies.value_times (h : Multiplies poly P matrix c) (vector : BitVec 32) :
    value poly (gf32MatrixTimes P matrix vector) = c * value poly vector := by
  have hzero : value poly (0 : BitVec 32) = 0 := value_zero
  have hloop := value_gf32MatrixLoop h (zero_add 32) vector.isLt 0
  rw [hzero, zero_add] at hloop
  exact hloop

/-- The matrix does not notice what happens elsewhere. -/
theorem Multiplies.congr {P' : Words} (h : Multiplies poly P matrix c)
    (hsame : ∀ j < 32, P' (matrix + j) = P (matrix + j)) : Multiplies poly P' matrix c := by
  intro j hj
  rw [hsame j hj]
  exact h j hj

/-- **`gf32_matrix_square`**, and what it leaves alone. -/
theorem Multiplies.square (h : Multiplies poly P matrix c) {square : ℕ}
    (hapart : matrix + 32 ≤ square) :
    Multiplies poly (gf32MatrixSquare P square matrix) square (c * c) ∧
    ∀ i < square, gf32MatrixSquare P square matrix i = P i := by
  have hfold : ∀ n ≤ 32, ∃ P', (List.range n).foldl (fun P n =>
        Function.update P (square + n) (gf32MatrixTimes P matrix (P (matrix + n)))) P = P' ∧
      (∀ j < n, value poly (P' (square + j)) = c * c * crcX poly ^ (31 - j)) ∧
      ∀ i < square, P' i = P i := by
    intro n hn
    induction n with
    | zero => exact ⟨P, rfl, fun j hj => absurd hj (Nat.not_lt_zero j), fun i _ => rfl⟩
    | succ n ih =>
      obtain ⟨P', hrun, hrows, hlow⟩ := ih (by omega)
      have hmatrix : Multiplies poly P' matrix c := h.congr (fun j _ => hlow _ (by omega))
      refine ⟨Function.update P' (square + n) (gf32MatrixTimes P' matrix (P' (matrix + n))), ?_,
        fun j hj => ?_, fun i hi => ?_⟩
      · rw [List.range_succ, List.foldl_concat, hrun]
      · by_cases hjn : j = n
        · rw [hjn, Function.update_self, hmatrix.value_times, hmatrix n (by omega), mul_assoc]
        · rw [Function.update_of_ne (by omega)]
          exact hrows j (by omega)
      · rw [Function.update_of_ne (by omega)]
        exact hlow i hi
  obtain ⟨P', hrun, hrows, hlow⟩ := hfold 32 le_rfl
  unfold gf32MatrixSquare
  rw [hrun]
  exact ⟨hrows, hlow⟩

/-! ## The table of matrices -/

/-- The first matrix is that of the product with `x`. -/
theorem multiplies_first (P : Words) :
    Multiplies poly ((List.range 31).foldl
      (fun P n => Function.update P (n + 1) ((1 : BitVec 32) <<< n)) (Function.update P 0 poly))
      0 (crcX poly) := by
  have hfold (n : ℕ) : ∃ P', (List.range n).foldl
        (fun P n => Function.update P (n + 1) ((1 : BitVec 32) <<< n)) (Function.update P 0 poly)
        = P' ∧ P' 0 = poly ∧ ∀ j < n, P' (j + 1) = (1 : BitVec 32) <<< j := by
    induction n with
    | zero => exact ⟨_, rfl, Function.update_self .., fun j hj => absurd hj (Nat.not_lt_zero j)⟩
    | succ n ih =>
      obtain ⟨P', hrun, hfirst, hrows⟩ := ih
      refine ⟨Function.update P' (n + 1) ((1 : BitVec 32) <<< n), ?_, ?_, fun j hj => ?_⟩
      · rw [List.range_succ, List.foldl_concat, hrun]
      · rw [Function.update_of_ne (by omega), hfirst]
      · by_cases hjn : j = n
        · rw [hjn, Function.update_self]
        · rw [Function.update_of_ne (by omega), hrows j (by omega)]
  obtain ⟨P', hrun, hfirst, hrows⟩ := hfold 31
  rw [hrun]
  intro j hj
  rw [zero_add]
  cases j with
  | zero => rw [hfirst, value_poly, ← pow_succ']
  | succ j =>
    have hpow : value poly (BitVec.twoPow 32 (32 - 1 - (31 - j))) = crcX poly ^ (31 - j) :=
      value_twoPow (by omega)
    rw [show 32 - 1 - (31 - j) = j by omega] at hpow
    rw [hrows j (by omega), ← pow_succ', show 31 - (j + 1) + 1 = 31 - j by omega, ← hpow]
    rfl

/-- The table of `gf32_compute_powers_generic`: the matrices of repeated squares of `x`. -/
def SquareTable (poly : BitVec 32) (P : Words) (n : ℕ) : Prop :=
  ∀ m < n, Multiplies poly P (32 * m) (crcX poly ^ 2 ^ m)

theorem SquareTable.next {n : ℕ} (h : SquareTable poly P (n + 1)) :
    SquareTable poly (gf32MatrixSquare P (32 * (n + 1)) (32 * n)) (n + 1 + 1) := by
  have hapart : 32 * n + 32 ≤ 32 * (n + 1) := by omega
  obtain ⟨hsquare, hlow⟩ := (h n (by omega)).square hapart
  intro m hm
  by_cases hmn : m = n + 1
  · rw [hmn, pow_succ 2 n, mul_two, pow_add]
    exact hsquare
  · exact (h m (by omega)).congr (fun j hj => hlow _ (by omega))

/-- **`gf32_compute_powers_generic`** finishes, with its table. -/
theorem gf32ComputePowersGeneric_spec (hunit : IsUnit (crcX poly)) (P : Words) {n : ℕ}
    (hn : 0 < n) :
    ∃ P', gf32ComputePowersGeneric P (32 * n) poly = some P' ∧ SquareTable poly P' n ∧
      P' (32 * n - 1) ≠ 0 := by
  have hfold (t : ℕ) (P₀ : Words) (h₀ : Multiplies poly P₀ 0 (crcX poly)) :
      SquareTable poly ((List.range' 1 t).foldl
        (fun P n => gf32MatrixSquare P (n <<< 5) ((n - 1) <<< 5)) P₀) (t + 1) := by
    induction t with
    | zero =>
      intro m hm
      obtain rfl : m = 0 := by omega
      rw [pow_zero, pow_one]
      exact h₀
    | succ t ih =>
      have hshift (k : ℕ) : k <<< 5 = 32 * k := by
        rw [Nat.shiftLeft_eq]
        ring
      rw [List.range'_concat, List.foldl_concat, hshift, hshift, one_mul, Nat.add_sub_cancel_left,
        add_comm 1 t]
      exact ih.next
  have hn1 : 32 * n / 32 - 1 + 1 = n := by omega
  have htable := hfold (32 * n / 32 - 1) _ (multiplies_first P)
  rw [hn1] at htable
  have hsize : 32 * n &&& 31 = 0 := by
    have h : 32 * n &&& 31 = 32 * n % 2 ^ 5 := Nat.and_two_pow_sub_one_eq_mod _ 5
    omega
  have hlast : ∀ P', SquareTable poly P' n → P' (32 * n - 1) ≠ 0 := by
    intro P' h hzero
    have hrow := h (n - 1) (by omega) 31 (by norm_num)
    have hvalue : value poly (0 : BitVec 32) = 0 := value_zero
    rw [show 32 * (n - 1) + 31 = 32 * n - 1 by omega, hzero, hvalue, Nat.sub_self, pow_zero,
      mul_one] at hrow
    have hone := (hunit.pow (2 ^ (n - 1)))
    rw [← hrow, isUnit_zero_iff] at hone
    exact one_ne_zero_of_pos (by norm_num) hone.symm
  refine ⟨_, ?_, htable, hlast _ htable⟩
  unfold gf32ComputePowersGeneric
  simp only [hsize, guard_true, hlast _ htable, Option.pure_def, some_bind, ne_eq,
    not_false_eq_true]

/-! ## Combination with matrices -/

/-- **`gf32_combine_generic`**, from a bit of the length on. -/
theorem value_gf32CombineLoop {n : ℕ} (h : SquareTable poly P n) {p m : ℕ} (hp : p + 32 = 32 * m)
    {len2 : ℕ} (hlen : len2 < 2 ^ (n - m)) (hm : m < n) (crc1 : BitVec 32) :
    value poly (gf32CombineLoop P p crc1 len2)
      = crcX poly ^ (2 ^ m * len2) * value poly crc1 := by
  induction len2 using Nat.strong_induction_on generalizing p m crc1 with
  | _ len2 ih =>
    have hhalf : len2 >>> 1 = len2 / 2 := Nat.shiftRight_eq_div_pow len2 1
    have hround : value poly (if len2 &&& 1 ≠ 0 then gf32MatrixTimes P (p + 32) crc1 else crc1)
        = crcX poly ^ (2 ^ m * (len2 % 2)) * value poly crc1 := by
      rw [Nat.and_one_is_mod]
      by_cases hbit : len2 % 2 ≠ 0
      · rw [if_pos hbit, hp, (h m hm).value_times, show len2 % 2 = 1 by omega, mul_one]
      · rw [if_neg hbit, not_not.mp hbit, mul_zero, pow_zero, one_mul]
    rw [gf32CombineLoop]
    dsimp only
    by_cases hlast : len2 >>> 1 = 0
    · rw [dif_pos hlast, hround]
      congr 3
      omega
    · have hpow : 2 ^ (n - m) = 2 * 2 ^ (n - (m + 1)) := by
        rw [← pow_succ']
        congr 1
        omega
      have hmn : m + 1 < n := by
        by_contra hge
        rw [show n - (m + 1) = 0 by omega] at hpow
        omega
      rw [dif_neg hlast, ih (len2 >>> 1) (by omega) (by omega : p + 32 + 32 = 32 * (m + 1))
        (by omega) hmn, hround, ← mul_assoc, ← pow_add, hhalf]
      congr 2
      rw [pow_succ]
      nth_rewrite 3 [← Nat.div_add_mod len2 2]
      ring

/-- **`gf32_combine_generic`** moves a remainder over `len2` bytes. -/
theorem value_gf32CombineGeneric {n : ℕ} (h : SquareTable poly P n) {len2 : ℕ} (hn : 3 < n)
    (hlen : len2 < 2 ^ (n - 3)) (crc1 : BitVec 32) :
    value poly (gf32CombineGeneric P crc1 len2)
      = crcX poly ^ (8 * len2) * value poly crc1 :=
  value_gf32CombineLoop h (p := 64) (m := 3) rfl hlen hn crc1

/-! ## Combination with carry-less products -/

/-- The entry `i` of the table of `gf32_compute_powers_clmul`. -/
structure PowerEntry (poly : BitVec 32) (W : Words) (i : ℕ) : Prop where
  zero : W (4 * i) = 0
  lo : value poly (W (4 * i + 1)) = crcX poly ^ (8 * 2 ^ i + 63)
  zero' : W (4 * i + 2) = 0
  hi : value poly (W (4 * i + 3)) = crcX poly ^ (8 * 2 ^ i - 1)

/-- The table of `gf32_compute_powers_clmul`. -/
def PowerTable (poly : BitVec 32) (W : Words) (n : ℕ) : Prop := ∀ i < n, PowerEntry poly W i

variable {W : Words} {i n : ℕ}

theorem PowerEntry.loHalf (h : PowerEntry poly W i) :
    loHalf (vectorAt W (4 * i)) = W (4 * i + 1) ++ 0#32 := by
  unfold vectorAt
  rw [loHalf_v2di, h.zero]
  rfl

theorem PowerEntry.hiHalf (h : PowerEntry poly W i) :
    hiHalf (vectorAt W (4 * i)) = W (4 * i + 3) ++ 0#32 := by
  unfold vectorAt
  rw [hiHalf_v2di, h.zero']
  rfl

/-- An entry moves a word over `2 ^ i` bytes. -/
theorem PowerEntry.folds (h : PowerEntry poly W i) :
    Folds poly (vectorAt W (4 * i)) (8 * 2 ^ i) := by
  have hpos : 0 < 2 ^ i := Nat.two_pow_pos i
  constructor
  · rw [h.loHalf, value_append_zero, h.lo]
  · rw [h.hiHalf, value_append_zero, h.hi, ← pow_succ', show 8 * 2 ^ i - 1 + 1 = 8 * 2 ^ i by omega]

theorem PowerTable.round (h : PowerTable poly W n) {a : BitVec 32}
    (ha : value poly a = crcX poly ^ (8 * 2 ^ n - 1)) :
    PowerTable poly (Function.update (Function.update (Function.update (Function.update W (4 * n) 0)
      (4 * n + 1) (gf32Mul a (gf32Mul poly poly poly) poly)) (4 * n + 2) 0) (4 * n + 3) a)
      (n + 1) := by
  have hpos : 0 < 2 ^ n := Nat.two_pow_pos n
  intro i hi
  by_cases hin : i = n
  · subst hin
    constructor
    · rw [Function.update_of_ne (by omega), Function.update_of_ne (by omega),
        Function.update_of_ne (by omega), Function.update_self]
    · rw [Function.update_of_ne (by omega), Function.update_of_ne (by omega), Function.update_self,
        value_gf32Mul, value_gf32Mul, ha, value_poly, ← pow_add, ← pow_add]
      congr 1
      omega
    · rw [Function.update_of_ne (by omega), Function.update_self]
    · rw [Function.update_self, ha]
  · have hold (j : ℕ) (hj : j < 4) : Function.update (Function.update (Function.update
        (Function.update W (4 * n) 0) (4 * n + 1) (gf32Mul a (gf32Mul poly poly poly) poly))
        (4 * n + 2) 0) (4 * n + 3) a (4 * i + j) = W (4 * i + j) := by
      rw [Function.update_of_ne (by omega), Function.update_of_ne (by omega),
        Function.update_of_ne (by omega), Function.update_of_ne (by omega)]
    obtain ⟨hzero, hlo, hzero', hhi⟩ := h i (by omega)
    constructor
    · exact (hold 0 (by norm_num)).trans hzero
    · rw [hold 1 (by norm_num), hlo]
    · rw [hold 2 (by norm_num), hzero']
    · rw [hold 3 (by norm_num), hhi]

theorem PowerTable.loop (h : PowerTable poly W n) (k : ℕ) {a : BitVec 32}
    (ha : value poly a = crcX poly ^ (8 * 2 ^ n - 1)) :
    PowerTable poly (gf32PowersLoop poly (gf32Mul poly poly poly) k (4 * n) W a) (n + k) := by
  induction k generalizing n W a with
  | zero => exact h
  | succ k ih =>
    have hpos : 0 < 2 ^ n := Nat.two_pow_pos n
    have hnext : value poly (gf32Mulx (gf32Mul a a poly) poly)
        = crcX poly ^ (8 * 2 ^ (n + 1) - 1) := by
      rw [value_gf32Mulx, value_gf32Mul, ha, ← pow_add, ← pow_succ', pow_succ 2]
      congr 1
      omega
    rw [show n + (k + 1) = n + 1 + k by ring]
    exact ih (h.round ha) hnext

/-- **`gf32_compute_powers_clmul`** and its table. -/
theorem gf32ComputePowersClmul_spec (poly : BitVec 32) (W : Words) :
    PowerTable poly (gf32ComputePowersClmul W poly) 63 := by
  have hnone : PowerTable poly W 0 := fun i hi => absurd hi (Nat.not_lt_zero i)
  have ha : value poly (BitVec.twoPow 32 (32 - 1 - 7)) = crcX poly ^ 7 := value_twoPow (by norm_num)
  exact hnone.loop 63 ha

/-- A product with an entry keeps the low bits clear. -/
theorem PowerEntry.lowClear (h : PowerEntry poly W i) (D : BitVec 128) :
    LowClear 32 (pclmulqdq (vectorAt W (4 * i)) D 0x11
      ^^^ pclmulqdq (vectorAt W (4 * i)) D 0x00) := by
  have hhi : LowClear (32 + 0) (clmul (CLib.hiHalf (vectorAt W (4 * i))) (CLib.hiHalf D)) := by
    rw [h.hiHalf]
    exact (LowClear.append_zero _).clmul (LowClear.zero _)
  have hlo : LowClear (32 + 0) (clmul (CLib.loHalf (vectorAt W (4 * i))) (CLib.loHalf D)) := by
    rw [h.loHalf]
    exact (LowClear.append_zero _).clmul (LowClear.zero _)
  exact hhi.xor hlo

/-- The loop of `gf32_combine_clmul`, from a bit of the length on. -/
theorem gf32ClmulLoop_spec (h : PowerTable poly W n) {p m : ℕ} (hp : p + 4 = 4 * m) {len2 : ℕ}
    (hlen : len2 < 2 ^ (n - m)) {D : BitVec 128} (hD : LowClear 32 D) :
    LowClear 32 (gf32ClmulLoop W p D len2) ∧
    value poly (gf32ClmulLoop W p D len2) = crcX poly ^ (8 * (2 ^ m * len2)) * value poly D := by
  induction len2 using Nat.strong_induction_on generalizing p m D with
  | _ len2 ih =>
    rw [gf32ClmulLoop]
    by_cases hzero : len2 = 0
    · rw [dif_pos hzero, hzero, mul_zero, mul_zero, pow_zero, one_mul]
      exact ⟨hD, rfl⟩
    · have hhalf : len2 >>> 1 = len2 / 2 := Nat.shiftRight_eq_div_pow len2 1
      have hmn : m < n := by
        by_contra hge
        rw [show n - m = 0 by omega, pow_zero] at hlen
        omega
      have hpow : 2 ^ (n - m) = 2 * 2 ^ (n - (m + 1)) := by
        rw [← pow_succ']
        congr 1
        omega
      obtain ⟨D', hD'⟩ : ∃ D', (if len2 &&& 1 ≠ 0 then pclmulqdq (vectorAt W (p + 4)) D 0x11
        ^^^ pclmulqdq (vectorAt W (p + 4)) D 0x00 else D) = D' := ⟨_, rfl⟩
      have hround : LowClear 32 D' ∧
          value poly D' = crcX poly ^ (8 * (2 ^ m * (len2 % 2))) * value poly D := by
        rw [Nat.and_one_is_mod, hp] at hD'
        rw [← hD']
        split_ifs with hbit
        · refine ⟨(h m hmn).lowClear D, ?_⟩
          rw [value_xor, (h m hmn).folds.value_eq', show len2 % 2 = 1 by omega, mul_one]
        · rw [not_not.mp hbit, mul_zero, mul_zero, pow_zero, one_mul]
          exact ⟨hD, rfl⟩
      obtain ⟨hclear, hvalue⟩ := ih (len2 >>> 1) (by omega) (by omega : p + 4 + 4 = 4 * (m + 1))
        (by omega) hround.1
      rw [dif_neg hzero]
      dsimp only
      rw [hD']
      refine ⟨hclear, ?_⟩
      rw [hvalue, hround.2, hhalf, ← mul_assoc, ← pow_add]
      congr 2
      rw [pow_succ]
      nth_rewrite 3 [← Nat.div_add_mod len2 2]
      ring

/-- The lowest bit that is set. -/
theorem ffsll_spec {len2 : ℕ} (hpos : 0 < len2) :
    ∃ v, ffsll len2 = v + 1 ∧ len2 = 2 ^ v * (2 * (len2 >>> (v + 1)) + 1) := by
  obtain ⟨q, hq⟩ := pow_padicValNat_dvd (p := 2) (n := len2)
  have hodd : q % 2 = 1 := by
    by_contra heven
    apply pow_succ_padicValNat_not_dvd (p := 2) hpos.ne'
    refine ⟨q / 2, ?_⟩
    rw [pow_succ, mul_assoc, show 2 * (q / 2) = q by omega]
    exact hq
  refine ⟨padicValNat 2 len2, rfl, ?_⟩
  have hshift : len2 >>> (padicValNat 2 len2 + 1) = q / 2 := by
    rw [Nat.shiftRight_eq_div_pow, pow_succ, ← Nat.div_div_eq_div_mul]
    nth_rewrite 1 [hq]
    rw [Nat.mul_div_cancel_left _ (Nat.two_pow_pos _)]
  rw [hshift, show 2 * (q / 2) + 1 = q by omega]
  exact hq

/-- **`gf32_combine_clmul`** moves a remainder over `len2` bytes. -/
theorem value_gf32CombineClmul (h : PowerTable poly W n) {len2 : ℕ} (hn : 3 < n) (hpos : 0 < len2)
    (hlen : len2 < 2 ^ n) (crc1 : BitVec 32) :
    value poly (gf32CombineClmul W crc1 len2)
      = crcX poly ^ (8 * len2) * value poly crc1 := by
  obtain ⟨v, hv, hsplit⟩ := ffsll_spec hpos
  have hvn : v < n := by
    have hle : 2 ^ v ≤ len2 := by
      rw [hsplit]
      exact Nat.le_mul_of_pos_right _ (Nat.succ_pos _)
    exact (Nat.pow_lt_pow_iff_right one_lt_two).mp (lt_of_le_of_lt hle hlen)
  have hrest : len2 >>> (v + 1) < 2 ^ (n - (v + 1)) := by
    have hpow : 2 ^ n = 2 ^ (v + 1) * 2 ^ (n - (v + 1)) := by
      rw [← pow_add]
      congr 1
      omega
    rw [Nat.shiftRight_eq_div_pow]
    exact Nat.div_lt_of_lt_mul (lt_of_lt_of_eq hlen hpow)
  have hstart : hiHalf (pslldqi (crc1.setWidth 128) 96) = crc1 ++ 0#32 := by
    apply BitVec.eq_of_toNat_eq
    have hcrc := crc1.isLt
    unfold pslldqi
    rw [toNat_hiHalf, BitVec.toNat_shiftLeft, BitVec.toNat_setWidth, toNat_append_eq,
      BitVec.toNat_zero, Nat.shiftLeft_eq]
    omega
  -- the lowest bit of the length
  obtain ⟨D₁, hD₁⟩ : ∃ D₁, pclmulqdq (vectorAt W (4 * v)) (pslldqi (crc1.setWidth 128) 96) 0x11
    = D₁ := ⟨_, rfl⟩
  have hfirst : D₁ = clmul (W (4 * v + 3) ++ 0#32) (crc1 ++ 0#32) := by
    rw [← hD₁, ← hstart, ← (h v hvn).hiHalf]
    rfl
  have hclear₁ : LowClear 32 D₁ := by
    rw [hfirst]
    exact ((LowClear.append_zero _).clmul (LowClear.append_zero _)).mono (by norm_num : 32 ≤ 32 + 32)
  have hvalue₁ : value poly D₁ = crcX poly ^ (8 * 2 ^ v) * value poly crc1 := by
    have hpos : 0 < 2 ^ v := Nat.two_pow_pos v
    rw [hfirst, value_clmul, value_append_zero, value_append_zero, (h v hvn).hi, ← pow_succ',
      show 8 * 2 ^ v - 1 + 1 = 8 * 2 ^ v by omega]
  -- the others
  obtain ⟨D₂, hD₂⟩ : ∃ D₂, gf32ClmulLoop W (4 * v) D₁ (len2 >>> (v + 1)) = D₂ := ⟨_, rfl⟩
  obtain ⟨hclear₂, hvalue₂⟩ := gf32ClmulLoop_spec h (by ring : 4 * v + 4 = 4 * (v + 1)) hrest hclear₁
  rw [hD₂] at hclear₂ hvalue₂
  -- to 64 bits
  obtain ⟨P, hP⟩ : ∃ P, pclmulqdq (vectorAt W 12) D₂ 0x01 = P := ⟨_, rfl⟩
  have hlast : P = clmul (W (4 * 3 + 3) ++ 0#32) (CLib.loHalf D₂) := by
    rw [← hP, ← (h 3 hn).hiHalf]
    rfl
  have hclear₃ : LowClear 64 P := by
    rw [hlast]
    exact (LowClear.append_zero (W (4 * 3 + 3))).clmul (hclear₂.loHalf (by norm_num))
  have hvalue₃ : value poly P = crcX poly ^ 64 * value poly (CLib.loHalf D₂) := by
    rw [hlast, value_clmul, value_append_zero, (h 3 hn).hi, ← pow_succ']
    rfl
  have hall : 8 * (2 ^ (v + 1) * (len2 >>> (v + 1))) + 8 * 2 ^ v = 8 * len2 := by
    nth_rewrite 2 [hsplit]
    rw [pow_succ]
    ring
  have hrun : gf32CombineClmul W crc1 len2 = hiHalf (D₂ ^^^ P) := by
    unfold gf32CombineClmul
    rw [hv]
    dsimp only
    rw [Nat.add_sub_cancel, hD₁, hD₂, hP]
    exact loHalf_append _ _
  rw [hrun, value_hiHalf_fold hclear₃ hvalue₃, hvalue₂, hvalue₁, ← mul_assoc, ← pow_add, hall]

end Values

end MtprotoProxy
