/-
# The repair of one bit

`crc32_check_and_repair` of `common/crc32.c`: when the checksum of a buffer does not match, it looks
for the one bit that makes the difference and flips it.

The difference that a bit makes is a power of `x`, and its exponent is the distance of the bit from
the end of the checksum that follows the buffer.  `crc32_find_corrupted_bit` finds the exponent in
baby steps, which it sorts, and giant steps; since the order of `x` is `2 ^ 32 - 1`, no two bits make
the same difference.
-/
import MtprotoProxy.CrcCombine

namespace MtprotoProxy

open CLib

/-! ## The code -/

structure FcbTableEntry where
  p : BitVec 32
  i : ℕ

def cmpFcbTableEntry (x y : FcbTableEntry) : ℤ :=
  if x.p < y.p then -1
  else if x.p > y.p then 1
  else if x.i < y.i then -1
  else if x.i > y.i then 1
  else 0

/-- `n` entries of the table from the number `i` on, the first of them `p`. -/
def fcbEntries : ℕ → ℕ → BitVec 32 → List FcbTableEntry
  | 0, _, _ => []
  | n + 1, i, p => ⟨p, i⟩ :: fcbEntries n (i + 1) (gf32Mulx p crcPoly)

/-- The table of `r` entries, after `qsort`. -/
def fcbTable (r : ℕ) : List FcbTableEntry :=
  (fcbEntries r 0 0x80000000).mergeSort (fun x y => decide (cmpFcbTableEntry x y ≤ 0))

/-- The matrix `A`. -/
def fcbMatrix (q : BitVec 32) : Words :=
  (List.range 31).foldl
    (fun A k => Function.update A (30 - k) (gf32Mulx (A (30 - k + 1)) crcPoly))
    (Function.update (fun _ => 0) 31 q)

/-- The entry `c` of the table. -/
def fcbAt (T : List FcbTableEntry) (c : ℤ) : FcbTableEntry := T.getD c.toNat ⟨0, 0⟩

theorem int_shiftRight_one (x : ℤ) : x >>> (1 : ℕ) = x / 2 := Int.shiftRight_eq_div_pow x 1

/-- The binary search for `x`. -/
def fcbSearch (T : List FcbTableEntry) (x : BitVec 32) (a b : ℤ) : ℤ :=
  if b - a > 1 then
    let c := (a + b) >>> (1 : ℕ)
    if (fcbAt T c).p ≤ x then fcbSearch T x c b else fcbSearch T x a c
  else a
termination_by (b - a).toNat
decreasing_by all_goals rw [int_shiftRight_one] at *; omega

/-- The giant steps that are left, from the step `j` on. -/
def fcbSteps (T : List FcbTableEntry) (A : Words) (r : ℕ) : ℕ → ℕ → BitVec 32 → ℤ
  | 0, _, _ => -1
  | n + 1, j, x =>
    let a := fcbSearch T x (-1) r
    if 0 ≤ a ∧ (fcbAt T a).p = x then wrap32 ((fcbAt T a).i + r * j)
    else fcbSteps T A r n (j + 1) (gf32MatrixTimes A 0 x)

/-- `crc32_find_corrupted_bit`; `root n` is the rounded root of `n`, and the table is allocated. -/
def crc32FindCorruptedBit (root : ℕ → ℕ) (size : ℕ) (d : BitVec 32) : Option ℤ := do
  let size := size + 4
  let n := size <<< 3
  let r := root n
  guard (gf32Mulx 0xdb710641 crcPoly = 0x80000000)
  let T := fcbTable r
  let q := gf32Pow 0xdb710641 r crcPoly
  let A := fcbMatrix q
  let maxJ := n / r
  return fcbSteps T A r (maxJ + 1) 0 d

/-- The loop of `crc32_repair_bit`. -/
def repairLoop (bit : ℕ) (i : ℤ) : ℕ × ℤ :=
  if 8 ≤ bit then repairLoop (bit - 8) (i - 1) else (bit, i)
termination_by bit

/-- The bit `j` of the byte `i` is flipped. -/
def flipBit (bs : Bytes) (i j : ℕ) : Bytes := bs.set i (bs.getD i 0 ^^^ UInt8.ofNat (1 <<< j))

/-- `crc32_repair_bit`: its value, and the buffer after it. -/
def crc32RepairBit (input : Bytes) (l : ℕ) (k : ℤ) : ℤ × Bytes :=
  if k < 0 then (-1, input)
  else
    let idx := k >>> (5 : ℕ)
    let (bit, i) := repairLoop (k % 32).toNat ((l - 1) - (idx - 1) * 4)
    if i < 0 then (-2, input)
    else if (l : ℤ) ≤ i then (-3, input)
    else
      let j := 7 - bit
      (0, flipBit input i.toNat j)

/-- `crc32_check_and_repair`: its value, the buffer and the checksum after it. -/
def crc32CheckAndRepair (root : ℕ → ℕ) (input : Bytes) (l : ℕ) (inputCrc32 : BitVec 32)
    (forceExit : Bool) : Option (ℤ × Bytes × BitVec 32) := do
  let computedCrc32 := computeCrc32 (input.take l)
  let crc32Diff := computedCrc32 ^^^ inputCrc32
  if crc32Diff = 0 then some (0, input, inputCrc32)
  else do
    let k ← crc32FindCorruptedBit root l crc32Diff
    let (r, input) := crc32RepairBit input l k
    if r = 0 then do
      guard (computeCrc32 (input.take l) = inputCrc32)
      return (1, input, inputCrc32)
    else if crc32Diff &&& (crc32Diff - 1) = 0 then return (2, input, computedCrc32)
    else do
      guard (forceExit = false)
      return (-1, input, computedCrc32)

/-! ## The order of `x` -/

/-- **The order of `x`** is the largest that there is. -/
theorem orderOf_crcX : orderOf (crcX crcPoly) = 2 ^ 32 - 1 := by
  have hx : value crcPoly (BitVec.twoPow 32 (32 - 1 - 1)) = crcX crcPoly := by
    have h : value crcPoly (BitVec.twoPow 32 (32 - 1 - 1)) = crcX crcPoly ^ 1 :=
      value_twoPow (by norm_num)
    rwa [pow_one] at h
  apply orderOf_eq_of_pow_and_pow_div_prime (by norm_num)
  · have hsquares : (fun b => crcMul crcPoly b b)^[32] (BitVec.twoPow 32 (32 - 1 - 1))
        = BitVec.twoPow 32 (32 - 1 - 1) := by decide +kernel
    have hall := congrArg (value crcPoly) hsquares
    rw [value_squares, hx] at hall
    apply isUnit_crcX.mul_left_cancel
    rw [← pow_succ', mul_one]
    exact hall
  · intro p hp hdvd
    have hne (q : ℕ) (hq : q < 2 ^ 32)
        (hcheck : crcPow crcPoly (BitVec.twoPow 32 (32 - 1 - 1)) 32 q ≠ 0x80000000) :
        crcX crcPoly ^ q ≠ 1 := by
      intro hone
      apply hcheck
      apply value_injective crcPoly
      rw [value_crcPow (by norm_num) 32 _ hq, hx, hone, value_one]
    have hfactors : (2 ^ 32 - 1 : ℕ) = 3 * 5 * 17 * 257 * 65537 := by norm_num
    rw [hfactors, hp.dvd_mul, hp.dvd_mul, hp.dvd_mul, hp.dvd_mul,
      Nat.prime_dvd_prime_iff_eq hp (by norm_num), Nat.prime_dvd_prime_iff_eq hp (by norm_num),
      Nat.prime_dvd_prime_iff_eq hp (by norm_num), Nat.prime_dvd_prime_iff_eq hp (by norm_num),
      Nat.prime_dvd_prime_iff_eq hp (by norm_num)] at hdvd
    rcases hdvd with (((rfl | rfl) | rfl) | rfl) | rfl
    · exact hne _ (by norm_num) (by decide +kernel)
    · exact hne _ (by norm_num) (by decide +kernel)
    · exact hne _ (by norm_num) (by decide +kernel)
    · exact hne _ (by norm_num) (by decide +kernel)
    · exact hne _ (by norm_num) (by decide +kernel)

/-- No two bits within the order make the same difference. -/
theorem crcX_pow_injective {a b : ℕ} (ha : a < 2 ^ 32 - 1) (hb : b < 2 ^ 32 - 1)
    (h : crcX crcPoly ^ a = crcX crcPoly ^ b) : a = b := by
  rw [← orderOf_crcX] at ha hb
  exact pow_injOn_Iio_orderOf ha hb h

/-- The constant of the source is the inverse of `x`. -/
noncomputable def crcInv : CrcRing crcPoly := value crcPoly (0xdb710641 : BitVec 32)

theorem crcX_mul_crcInv : crcX crcPoly * crcInv = 1 := by
  have hshift : crcShift crcPoly 0xdb710641 = 0x80000000 := by decide
  unfold crcInv
  rw [← value_crcShift, hshift, value_one]

theorem crcX_pow_mul_crcInv_pow (k : ℕ) : crcX crcPoly ^ k * crcInv ^ k = 1 := by
  rw [← mul_pow, crcX_mul_crcInv, one_pow]

/-! ## The table -/

theorem cmpFcbTableEntry_le {x y : FcbTableEntry} :
    cmpFcbTableEntry x y ≤ 0 ↔
      x.p.toNat < y.p.toNat ∨ (x.p.toNat = y.p.toNat ∧ x.i ≤ y.i) := by
  unfold cmpFcbTableEntry
  simp only [gt_iff_lt, BitVec.lt_def]
  split_ifs <;> omega

theorem length_fcbEntries (n i : ℕ) (p : BitVec 32) : (fcbEntries n i p).length = n := by
  induction n generalizing i p with
  | zero => rfl
  | succ n ih => rw [fcbEntries, List.length_cons, ih]

/-- An entry is a power of `x`, with its exponent. -/
theorem mem_fcbEntries {n i : ℕ} {p : BitVec 32} (hp : value crcPoly p = crcX crcPoly ^ i)
    {e : FcbTableEntry} (he : e ∈ fcbEntries n i p) :
    value crcPoly e.p = crcX crcPoly ^ e.i ∧ e.i < i + n := by
  induction n generalizing i p with
  | zero => exact absurd he List.not_mem_nil
  | succ n ih =>
    rcases List.mem_cons.mp he with rfl | he
    · exact ⟨hp, by dsimp only; omega⟩
    · obtain ⟨hvalue, hlt⟩ := ih (by rw [value_gf32Mulx, hp, pow_succ']) he
      exact ⟨hvalue, by omega⟩

theorem exists_mem_fcbEntries {n i : ℕ} (p : BitVec 32) {t : ℕ} (ht : t < n) :
    ∃ e ∈ fcbEntries n i p, e.i = i + t := by
  induction n generalizing i p t with
  | zero => exact absurd ht (Nat.not_lt_zero t)
  | succ n ih =>
    cases t with
    | zero => exact ⟨⟨p, i⟩, List.mem_cons_self, rfl⟩
    | succ t =>
      obtain ⟨e, he, hi⟩ := ih (i := i + 1) (gf32Mulx p crcPoly) (Nat.lt_of_succ_lt_succ ht)
      exact ⟨e, List.mem_cons_of_mem _ he, by omega⟩

/-- What the search needs of the table: its entries are powers of `x`, in the order of their words,
and every exponent below `r` is there. -/
structure IsTable (r : ℕ) (T : List FcbTableEntry) : Prop where
  length_eq : T.length = r
  sorted : T.Pairwise fun x y => x.p.toNat ≤ y.p.toNat
  power : ∀ e ∈ T, value crcPoly e.p = crcX crcPoly ^ e.i ∧ e.i < r
  complete : ∀ i < r, ∃ e ∈ T, e.i = i

theorem isTable_fcbTable (r : ℕ) : IsTable r (fcbTable r) := by
  have hone : value crcPoly (0x80000000 : BitVec 32) = crcX crcPoly ^ 0 := by
    rw [value_one, pow_zero]
  unfold fcbTable
  constructor
  · rw [List.length_mergeSort, length_fcbEntries]
  · have htrans (x y z : FcbTableEntry) (hxy : decide (cmpFcbTableEntry x y ≤ 0) = true)
        (hyz : decide (cmpFcbTableEntry y z ≤ 0) = true) :
        decide (cmpFcbTableEntry x z ≤ 0) = true := by
      rw [decide_eq_true_iff, cmpFcbTableEntry_le] at *
      omega
    have htotal (x y : FcbTableEntry) :
        (decide (cmpFcbTableEntry x y ≤ 0) || decide (cmpFcbTableEntry y x ≤ 0)) = true := by
      rw [Bool.or_eq_true, decide_eq_true_iff, decide_eq_true_iff, cmpFcbTableEntry_le,
        cmpFcbTableEntry_le]
      omega
    apply (List.pairwise_mergeSort htrans htotal _).imp
    intro x y hxy
    rw [decide_eq_true_iff, cmpFcbTableEntry_le] at hxy
    omega
  · intro e he
    rw [List.mem_mergeSort] at he
    obtain ⟨hvalue, hlt⟩ := mem_fcbEntries hone he
    exact ⟨hvalue, by omega⟩
  · intro i hi
    obtain ⟨e, he, hei⟩ := exists_mem_fcbEntries (i := 0) 0x80000000 hi
    exact ⟨e, List.mem_mergeSort.mpr he, by omega⟩

/-! ## The binary search -/

section Search

variable {r : ℕ} {T : List FcbTableEntry}

/-- An index within the table. -/
theorem IsTable.at_mem (h : IsTable r T) {c : ℤ} (hlo : 0 ≤ c) (hhi : c < r) : fcbAt T c ∈ T := by
  have hlt : c.toNat < T.length := by
    rw [h.length_eq]
    omega
  unfold fcbAt
  rw [List.getD_eq_getElem _ _ hlt]
  exact List.getElem_mem hlt

theorem IsTable.at_le (h : IsTable r T) {c c' : ℤ} (hlo : 0 ≤ c) (hle : c ≤ c') (hhi : c' < r) :
    (fcbAt T c).p.toNat ≤ (fcbAt T c').p.toNat := by
  have hlt' : c'.toNat < T.length := by
    rw [h.length_eq]
    omega
  have hlt : c.toNat < T.length := by omega
  rcases eq_or_lt_of_le hle with rfl | hcc
  · exact le_rfl
  · unfold fcbAt
    rw [List.getD_eq_getElem _ _ hlt, List.getD_eq_getElem _ _ hlt']
    exact List.pairwise_iff_getElem.mp h.sorted _ _ hlt hlt' (by omega)

theorem IsTable.exists_at (h : IsTable r T) {e : FcbTableEntry} (he : e ∈ T) :
    ∃ c : ℤ, 0 ≤ c ∧ c < r ∧ fcbAt T c = e := by
  obtain ⟨n, hn, rfl⟩ := List.getElem_of_mem he
  refine ⟨n, Int.natCast_nonneg n, ?_, ?_⟩
  · rw [← h.length_eq]
    exact Int.ofNat_lt.mpr hn
  · unfold fcbAt
    rw [Int.toNat_natCast, List.getD_eq_getElem _ _ hn]

/-- **The search** ends between the entries that are not above `x` and those that are. -/
theorem fcbSearch_spec (x : BitVec 32) {a b : ℤ} (ha : -1 ≤ a) (hab : a < b) (hb : b ≤ r)
    (hlo : 0 ≤ a → (fcbAt T a).p.toNat ≤ x.toNat)
    (hhi : b < r → x.toNat < (fcbAt T b).p.toNat) :
    ∃ c, fcbSearch T x a b = c ∧ -1 ≤ c ∧ c < r ∧
      (0 ≤ c → (fcbAt T c).p.toNat ≤ x.toNat) ∧
      (c + 1 < r → x.toNat < (fcbAt T (c + 1)).p.toNat) := by
  obtain ⟨n, hn⟩ : ∃ n, (b - a).toNat = n := ⟨_, rfl⟩
  induction n using Nat.strong_induction_on generalizing a b with
  | _ n ih =>
    rw [fcbSearch]
    by_cases hgap : b - a > 1
    · rw [if_pos hgap, int_shiftRight_one]
      by_cases hc : (fcbAt T ((a + b) / 2)).p ≤ x
      · rw [if_pos hc]
        exact ih _ (by omega) (by omega) (by omega) hb (fun _ => BitVec.le_def.mp hc) hhi rfl
      · rw [if_neg hc]
        exact ih _ (by omega) ha (by omega) (by omega) hlo
          (fun _ => not_le.mp (mt BitVec.le_def.mpr hc)) rfl
    · rw [if_neg hgap]
      obtain rfl : b = a + 1 := by omega
      exact ⟨a, rfl, ha, by omega, hlo, hhi⟩

/-- **The look-up**: `x` is found when an entry has it. -/
theorem IsTable.search (h : IsTable r T) (x : BitVec 32) :
    ∃ c, fcbSearch T x (-1) r = c ∧ c < r ∧
      ((0 ≤ c ∧ (fcbAt T c).p = x) ↔ ∃ e ∈ T, e.p = x) := by
  obtain ⟨c, hrun, hlo, hhi, hbelow, habove⟩ := fcbSearch_spec (r := r) (T := T) x
    (le_refl (-1)) (by omega : (-1 : ℤ) < r) le_rfl (fun hneg => absurd hneg (by norm_num))
    (fun hlt => absurd hlt (lt_irrefl _))
  refine ⟨c, hrun, hhi, ?_, ?_⟩
  · rintro ⟨hc, hx⟩
    exact ⟨fcbAt T c, h.at_mem hc hhi, hx⟩
  · rintro ⟨e, he, rfl⟩
    obtain ⟨c', hc', hlt', rfl⟩ := h.exists_at he
    -- the entry is not above the place where the search ends
    have hle : c' ≤ c := by
      by_contra hgt
      have hnext := h.at_le (c := c + 1) (by omega) (by omega : c + 1 ≤ c') hlt'
      have := habove (by omega)
      omega
    have hc : 0 ≤ c := hc'.trans hle
    refine ⟨hc, BitVec.eq_of_toNat_eq (le_antisymm (hbelow hc) (h.at_le hc' hle hhi))⟩

end Search

/-! ## The giant steps -/

theorem multiplies_fcbMatrix (q : BitVec 32) :
    Multiplies crcPoly (fcbMatrix q) 0 (value crcPoly q) := by
  have hfold : ∀ n ≤ 31, ∃ A, (List.range n).foldl
        (fun A k => Function.update A (30 - k) (gf32Mulx (A (30 - k + 1)) crcPoly))
        (Function.update (fun _ => 0 : Words) 31 q) = A ∧
      ∀ j ≤ n, value crcPoly (A (31 - j)) = value crcPoly q * crcX crcPoly ^ j := by
    intro n hn
    induction n with
    | zero =>
      refine ⟨_, rfl, fun j hj => ?_⟩
      obtain rfl : j = 0 := Nat.le_zero.mp hj
      show value crcPoly (Function.update (fun _ => 0 : Words) 31 q 31) = _
      rw [Function.update_self, pow_zero, mul_one]
    | succ n ih =>
      obtain ⟨A, hrun, hrows⟩ := ih (by omega)
      refine ⟨Function.update A (30 - n) (gf32Mulx (A (30 - n + 1)) crcPoly), ?_, fun j hj => ?_⟩
      · rw [List.range_succ, List.foldl_concat, hrun]
      · by_cases hjn : j = n + 1
        · rw [hjn, show 31 - (n + 1) = 30 - n by omega, Function.update_self, value_gf32Mulx,
            show 30 - n + 1 = 31 - n by omega, hrows n le_rfl, pow_succ]
          ring
        · rw [Function.update_of_ne (by omega), hrows j (by omega)]
  obtain ⟨A, hrun, hrows⟩ := hfold 31 le_rfl
  unfold fcbMatrix
  rw [hrun]
  intro j hj
  have hrow := hrows (31 - j) (by omega)
  rwa [show 31 - (31 - j) = 0 + j by omega] at hrow

/-- What the giant steps find: the exponent of the difference. -/
structure Finds (d : BitVec 32) (lo hi : ℕ) (k : ℤ) : Prop where
  sound : 0 ≤ k → value crcPoly d = crcX crcPoly ^ k.toNat ∧ k < 2 ^ 31
  complete : ∀ k' : ℕ, lo ≤ k' → k' < hi → k' < 2 ^ 31 →
    value crcPoly d = crcX crcPoly ^ k' → k = k'

/-- **The giant steps** from the step `j` on. -/
theorem fcbSteps_spec {r : ℕ} {T : List FcbTableEntry} {A : Words} (hr : 0 < r) (hr' : r < 2 ^ 31)
    (hT : IsTable r T) (hA : Multiplies crcPoly A 0 (crcInv ^ r)) (d : BitVec 32) {n j : ℕ}
    (hsmall : ∀ i < j + n, r * i < 2 ^ 31) {x : BitVec 32}
    (hx : value crcPoly x = value crcPoly d * crcInv ^ (r * j)) :
    Finds d (j * r) ((j + n) * r) (fcbSteps T A r n j x) := by
  induction n generalizing j x with
  | zero =>
    rw [fcbSteps]
    exact ⟨fun h => absurd h (by norm_num), fun k' hlo hhi => absurd hlo (not_le.mpr hhi)⟩
  | succ n ih =>
    have hpower (i : ℕ) : crcX crcPoly ^ i = value crcPoly x ↔
        value crcPoly d = crcX crcPoly ^ (i + r * j) := by
      have hinv := crcX_pow_mul_crcInv_pow (r * j)
      rw [hx]
      constructor
      · intro h
        rw [pow_add, h]
        linear_combination -value crcPoly d * hinv
      · intro h
        rw [h, pow_add]
        linear_combination -crcX crcPoly ^ i * hinv
    obtain ⟨c, hrun, hhi, hfound⟩ := hT.search x
    rw [fcbSteps, hrun]
    by_cases hhit : 0 ≤ c ∧ (fcbAt T c).p = x
    · rw [if_pos hhit]
      obtain ⟨hvalue, hlt⟩ := hT.power _ (hT.at_mem hhit.1 hhi)
      obtain ⟨i, hi⟩ : ∃ i, (fcbAt T c).i = i := ⟨_, rfl⟩
      rw [hhit.2, hi] at hvalue
      rw [hi] at hlt ⊢
      have hd := (hpower i).mp hvalue.symm
      have hbound := hsmall j (by omega)
      have hcast : (i : ℤ) + r * j = ((i + r * j : ℕ) : ℤ) := by push_cast; ring
      rw [hcast]
      by_cases hfit : i + r * j < 2 ^ 31
      · have hwrap : wrap32 ((i + r * j : ℕ) : ℤ) = (i + r * j : ℕ) :=
          wrap32_of_isInt32 ⟨by omega, by omega⟩
        rw [hwrap]
        refine ⟨fun _ => ⟨by rw [Int.toNat_natCast]; exact hd, by omega⟩, ?_⟩
        intro k' _ _ hk' hd'
        have heq := crcX_pow_injective (by omega) (by omega) (hd.symm.trans hd')
        omega
      · have hwrap := wrap32_of_ge (x := ((i + r * j : ℕ) : ℤ)) (by omega) (by omega)
        refine ⟨fun hpos => by omega, ?_⟩
        intro k' _ _ hk' hd'
        have heq := crcX_pow_injective (by omega) (by omega) (hd.symm.trans hd')
        omega
    · rw [if_neg hhit]
      have hnext : value crcPoly (gf32MatrixTimes A 0 x)
          = value crcPoly d * crcInv ^ (r * (j + 1)) := by
        rw [hA.value_times, hx, mul_add, mul_one, pow_add]
        ring
      obtain ⟨hsound, hcomplete⟩ := ih (fun i hi => hsmall i (by omega)) hnext
      refine ⟨hsound, ?_⟩
      intro k' hlo hhi' hk' hd'
      by_cases hlt : k' < (j + 1) * r
      · -- the baby step that is missing would have been found
        exfalso
        apply hhit
        rw [hfound]
        have hsplit : k' - j * r + r * j = k' := by
          rw [mul_comm r j]
          omega
        rw [add_mul, one_mul] at hlt
        obtain ⟨e, he, hei⟩ := hT.complete (k' - j * r) (by omega)
        refine ⟨e, he, ?_⟩
        apply value_injective crcPoly
        rw [(hT.power e he).1, hei, hpower, hsplit]
        exact hd'
      · apply hcomplete k' (not_lt.mp hlt) _ hk' hd'
        rwa [show j + 1 + n = j + (n + 1) by ring]

/-- **`crc32_find_corrupted_bit`** finds the bit that makes the difference. -/
theorem crc32FindCorruptedBit_spec {root : ℕ → ℕ} {size : ℕ} (hsize : size < 2 ^ 28 - 4)
    (hroot : 0 < root (8 * (size + 4))) (hroot' : root (8 * (size + 4)) < 2 ^ 31) (d : BitVec 32) :
    ∃ k, crc32FindCorruptedBit root size d = some k ∧ Finds d 0 (8 * (size + 4)) k := by
  have hn : (size + 4) <<< 3 = 8 * (size + 4) := by
    rw [Nat.shiftLeft_eq]
    ring
  have hinverse : gf32Mulx 0xdb710641 crcPoly = 0x80000000 := by decide
  obtain ⟨n, hn'⟩ : ∃ n, 8 * (size + 4) = n := ⟨_, rfl⟩
  rw [hn'] at hn hroot hroot' ⊢
  obtain ⟨r, hr⟩ : ∃ r, root n = r := ⟨_, rfl⟩
  rw [hr] at hroot hroot'
  have hq : value crcPoly (gf32Pow 0xdb710641 r crcPoly) = crcInv ^ r := value_gf32Pow _ r
  have hA := multiplies_fcbMatrix (gf32Pow 0xdb710641 r crcPoly)
  rw [hq] at hA
  have hsmall : ∀ i < 0 + (n / r + 1), r * i < 2 ^ 31 := by
    intro i hi
    calc r * i ≤ r * (n / r) := Nat.mul_le_mul_left r (by omega)
      _ ≤ n := Nat.mul_div_le n r
      _ < 2 ^ 31 := by omega
  have hstart : value crcPoly d = value crcPoly d * crcInv ^ (r * 0) := by
    rw [mul_zero, pow_zero, mul_one]
  obtain ⟨hsound, hcomplete⟩ := fcbSteps_spec hroot hroot' (isTable_fcbTable r) hA d hsmall hstart
  refine ⟨fcbSteps (fcbTable r) (fcbMatrix (gf32Pow 0xdb710641 r crcPoly)) r (n / r + 1) 0 d,
    ?_, hsound, ?_⟩
  · unfold crc32FindCorruptedBit
    simp only [hn, hr, hinverse, guard_true, Option.pure_def, some_bind]
  · intro k' _ hk' hint hd
    refine hcomplete k' (by omega) ?_ hint hd
    have hlt := Nat.lt_mul_div_succ n hroot
    rw [zero_add, mul_comm]
    omega

/-! ## The bit -/

theorem repairLoop_eq (bit : ℕ) (i : ℤ) : repairLoop bit i = (bit % 8, i - (bit / 8 : ℕ)) := by
  induction bit using Nat.strong_induction_on generalizing i with
  | _ bit ih =>
    rw [repairLoop]
    by_cases h : 8 ≤ bit
    · rw [if_pos h, ih (bit - 8) (by omega)]
      congr 1
      · omega
      · omega
    · rw [if_neg h, Nat.mod_eq_of_lt (by omega), Nat.div_eq_of_lt (by omega)]
      congr 1
      exact (sub_zero i).symm

/-- **`crc32_repair_bit`**: the bits of the checksum come first, then those of the buffer from its
end on. -/
theorem crc32RepairBit_eq (input : Bytes) (l k : ℕ) :
    crc32RepairBit input l k =
      if k < 32 then (-3, input)
      else if k < 32 + 8 * l then (0, flipBit input (l - 1 - (k - 32) / 8) (7 - k % 8))
      else (-2, input) := by
  have hidx : (k : ℤ) >>> (5 : ℕ) = (k / 32 : ℕ) := by
    rw [Int.shiftRight_eq_div_pow]
    norm_cast
  have hbit : ((k : ℤ) % 32).toNat = k % 32 := by omega
  unfold crc32RepairBit
  rw [if_neg (by omega : ¬ (k : ℤ) < 0), hidx, hbit]
  dsimp only
  rw [repairLoop_eq]
  dsimp only
  by_cases hlow : k < 32
  · rw [if_pos hlow, if_neg (by omega), if_pos (by omega)]
  · rw [if_neg hlow]
    by_cases hhigh : k < 32 + 8 * l
    · rw [if_pos hhigh, if_neg (by omega), if_neg (by omega)]
      congr 2
      · omega
      · omega
    · rw [if_neg hhigh, if_pos (by omega)]

variable {poly : BitVec 32}

/-- A bit in a string is a power of `x`. -/
theorem bytesValue_flipBit {bs : Bytes} {i j : ℕ} (hi : i < bs.length) (hj : j < 8) :
    bytesValue poly (flipBit bs i j)
      = bytesValue poly bs + crcX poly ^ (8 * (bs.length - 1 - i) + (7 - j)) := by
  have hset (a : UInt8) : bytesValue poly (bs.set i a)
      = crcX poly ^ (8 * (bs.length - i)) * bytesValue poly (bs.take i)
        + (crcX poly ^ (8 * (bs.length - 1 - i)) * natValue poly 8 a.toNat
          + bytesValue poly (bs.drop (i + 1))) := by
    rw [List.set_eq_take_append_cons_drop, if_pos hi, bytesValue_append, bytesValue_cons,
      List.length_cons, List.length_drop, show bs.length - (i + 1) + 1 = bs.length - i by omega,
      show bs.length - (i + 1) = bs.length - 1 - i by omega]
  have hself : bs.set i (bs.getD i 0) = bs := by
    rw [List.getD_eq_getElem _ _ hi, List.set_getElem_self]
  have hbit : natValue poly 8 (UInt8.ofNat (1 <<< j)).toNat = crcX poly ^ (7 - j) := by
    have hpow : value poly (BitVec.twoPow 8 (8 - 1 - (7 - j))) = crcX poly ^ (7 - j) :=
      value_twoPow (by omega)
    have hnat : (UInt8.ofNat (1 <<< j)).toNat = (BitVec.twoPow 8 (8 - 1 - (7 - j))).toNat := by
      have hlt : 2 ^ j < 2 ^ 8 := Nat.pow_lt_pow_right one_lt_two hj
      rw [UInt8.toNat_ofNat', Nat.one_shiftLeft, BitVec.toNat_twoPow_of_lt (by omega),
        Nat.mod_eq_of_lt hlt, show 8 - 1 - (7 - j) = j by omega]
    rw [hnat]
    exact hpow
  have hwhole := hset (bs.getD i 0)
  rw [hself] at hwhole
  unfold flipBit
  rw [hset, hwhole, UInt8.toNat_xor, natValue_xor, hbit, pow_add]
  ring

/-- **What the flip of a bit does to the checksum.** -/
theorem value_computeCrc32_flipBit {bs : Bytes} {i j : ℕ} (hi : i < bs.length) (hj : j < 8) :
    value crcPoly (computeCrc32 (flipBit bs i j)) = value crcPoly (computeCrc32 bs)
      + crcX crcPoly ^ (32 + 8 * (bs.length - 1 - i) + (7 - j)) := by
  have hlen : (flipBit bs i j).length = bs.length := List.length_set
  rw [value_computeCrc32, value_computeCrc32, bytesValue_flipBit hi hj, hlen, add_assoc 32,
    pow_add _ 32]
  ring

/-- The checksum matches after the flip of the bit that makes the difference. -/
theorem computeCrc32_flipBit_eq_iff {bs : Bytes} {i j : ℕ} (hi : i < bs.length) (hj : j < 8)
    (stored : BitVec 32) :
    computeCrc32 (flipBit bs i j) = stored ↔
      value crcPoly (computeCrc32 bs ^^^ stored)
        = crcX crcPoly ^ (32 + 8 * (bs.length - 1 - i) + (7 - j)) := by
  have hflip := value_computeCrc32_flipBit hi hj
  have htwice := add_self_eq_zero (value crcPoly (computeCrc32 bs))
  rw [value_xor]
  constructor
  · rintro rfl
    rw [hflip]
    linear_combination htwice
  · intro h
    apply value_injective crcPoly
    rw [hflip, ← h]
    linear_combination htwice

/-- One bit of a word. -/
theorem value_twoPow_of_lt {b : ℕ} (hb : b < 32) :
    value poly (BitVec.twoPow 32 b) = crcX poly ^ (31 - b) := by
  have h : value poly (BitVec.twoPow 32 (32 - 1 - (31 - b))) = crcX poly ^ (31 - b) :=
    value_twoPow (by omega)
  rwa [show 32 - 1 - (31 - b) = b by omega] at h

/-- The test for a power of 2. -/
theorem and_sub_one_eq_zero_iff {d : BitVec 32} (hd : d ≠ 0) :
    d &&& (d - 1) = 0 ↔ ∃ b < 32, d = BitVec.twoPow 32 b := by
  constructor
  · intro h
    have hpos : d.toNat ≠ 0 := fun hzero => hd (BitVec.eq_of_toNat_eq hzero)
    have hlt : Nat.log2 d.toNat < 32 := (Nat.log2_lt hpos).mpr d.isLt
    refine ⟨Nat.log2 d.toNat, hlt, ?_⟩
    have hle := Nat.log2_self_le hpos
    have hgt := Nat.lt_log2_self (n := d.toNat)
    apply BitVec.eq_of_toNat_eq
    rw [BitVec.toNat_twoPow_of_lt hlt]
    by_contra hne
    -- the highest bit is one of `d - 1` as well
    have hsub : (d - 1).toNat = d.toNat - 1 := by
      have hd' := d.isLt
      rw [BitVec.toNat_sub]
      show (2 ^ 32 - 1 + d.toNat) % 2 ^ 32 = d.toNat - 1
      omega
    have hand := congrArg (fun x : BitVec 32 => x.toNat.testBit (Nat.log2 d.toNat)) h
    rw [BitVec.toNat_and, Nat.testBit_and,
      Nat.testBit_of_two_pow_le_and_two_pow_add_one_gt hle hgt, hsub,
      Nat.testBit_of_two_pow_le_and_two_pow_add_one_gt (by omega) (by omega)] at hand
    exact absurd hand (by simp)
  · have hall : ∀ b < 32, BitVec.twoPow 32 b &&& (BitVec.twoPow 32 b - 1) = 0 := by decide
    rintro ⟨b, hb, rfl⟩
    exact hall b hb

/-! ## The whole -/

section Repair

variable {root : ℕ → ℕ} {input : Bytes} {stored : BitVec 32}

/-- The search for the difference, and the repair with what it finds. -/
theorem crc32CheckAndRepair_of_ne (hlen : input.length < 2 ^ 28 - 4)
    (hroot : 0 < root (8 * (input.length + 4))) (hroot' : root (8 * (input.length + 4)) < 2 ^ 31)
    (hne : computeCrc32 input ≠ stored) :
    ∃ k, Finds (computeCrc32 input ^^^ stored) 0 (8 * (input.length + 4)) k ∧
      crc32CheckAndRepair root input input.length stored false =
        (let d := computeCrc32 input ^^^ stored
        let (r, input') := crc32RepairBit input input.length k
        if r = 0 then
          if computeCrc32 (input'.take input.length) = stored then some (1, input', stored)
          else none
        else if d &&& (d - 1) = 0 then some (2, input', computeCrc32 input)
        else some (-1, input', computeCrc32 input)) := by
  obtain ⟨k, hrun, hfinds⟩ :=
    crc32FindCorruptedBit_spec hlen hroot hroot' (computeCrc32 input ^^^ stored)
  have hdiff : computeCrc32 input ^^^ stored ≠ 0 := by
    intro hzero
    exact hne (BitVec.xor_eq_zero_iff.mp hzero)
  refine ⟨k, hfinds, ?_⟩
  unfold crc32CheckAndRepair
  simp only [List.take_length, hdiff, ↓reduceIte, hrun, some_bind]
  obtain ⟨r, input', hrepair⟩ : ∃ r input', crc32RepairBit input input.length k = (r, input') :=
    ⟨_, _, rfl⟩
  rw [hrepair]
  dsimp only
  by_cases hr : r = 0
  · rw [if_pos hr, if_pos hr]
    by_cases hmatch : computeCrc32 (input'.take input.length) = stored
    · rw [if_pos hmatch, guard, if_pos hmatch]
      rfl
    · rw [if_neg hmatch, guard, if_neg hmatch]
      rfl
  · rw [if_neg hr, if_neg hr, guard_true]
    rfl

theorem length_flipBit (bs : Bytes) (i j : ℕ) : (flipBit bs i j).length = bs.length :=
  List.length_set

/-- A flip of a bit changes the checksum. -/
theorem computeCrc32_flipBit_ne {i j : ℕ} (hi : i < input.length) (hj : j < 8) :
    computeCrc32 (flipBit input i j) ≠ computeCrc32 input := by
  intro h
  have hvalue := value_computeCrc32_flipBit hi hj
  rw [h, left_eq_add] at hvalue
  have hinv := crcX_pow_mul_crcInv_pow (32 + 8 * (input.length - 1 - i) + (7 - j))
  rw [hvalue, zero_mul, ← value_one, ← value_zero] at hinv
  exact absurd (value_injective crcPoly hinv) (by decide)

/-- **A bit of the buffer** is found and flipped. -/
theorem crc32CheckAndRepair_flip (hlen : input.length < 2 ^ 28 - 4)
    (hroot : 0 < root (8 * (input.length + 4))) (hroot' : root (8 * (input.length + 4)) < 2 ^ 31)
    {i j : ℕ} (hi : i < input.length) (hj : j < 8)
    (hflip : computeCrc32 (flipBit input i j) = stored) :
    crc32CheckAndRepair root input input.length stored false
      = some (1, flipBit input i j, stored) := by
  have hne : computeCrc32 input ≠ stored := by
    rintro rfl
    exact computeCrc32_flipBit_ne hi hj hflip
  obtain ⟨k, hfinds, hrun⟩ := crc32CheckAndRepair_of_ne hlen hroot hroot' hne
  have hk := hfinds.complete _ (Nat.zero_le _) (by omega) (by omega)
    ((computeCrc32_flipBit_eq_iff hi hj stored).mp hflip)
  have hrepair : crc32RepairBit input input.length k = (0, flipBit input i j) := by
    rw [hk, crc32RepairBit_eq, if_neg (by omega), if_pos (by omega)]
    congr 2
    · omega
    · omega
  have htake : (flipBit input i j).take input.length = flipBit input i j := by
    rw [← length_flipBit input i j, List.take_length]
  rw [hrun, hrepair]
  dsimp only
  rw [if_pos rfl, htake, if_pos hflip]

/-- **A bit of the checksum** is found, and the buffer is left. -/
theorem crc32CheckAndRepair_twoPow (hlen : input.length < 2 ^ 28 - 4)
    (hroot : 0 < root (8 * (input.length + 4))) (hroot' : root (8 * (input.length + 4)) < 2 ^ 31)
    {b : ℕ} (hb : b < 32) (hdiff : computeCrc32 input ^^^ stored = BitVec.twoPow 32 b) :
    crc32CheckAndRepair root input input.length stored false
      = some (2, input, computeCrc32 input) := by
  have hpos : BitVec.twoPow 32 b ≠ 0 := by
    intro hzero
    have hnat := congrArg BitVec.toNat hzero
    rw [BitVec.toNat_twoPow_of_lt hb] at hnat
    exact (Nat.two_pow_pos b).ne' hnat
  have hne : computeCrc32 input ≠ stored := by
    rintro rfl
    rw [BitVec.xor_self] at hdiff
    exact hpos hdiff.symm
  obtain ⟨k, hfinds, hrun⟩ := crc32CheckAndRepair_of_ne hlen hroot hroot' hne
  rw [hdiff] at hfinds hrun
  have hk := hfinds.complete (31 - b) (Nat.zero_le _) (by omega) (by omega) (value_twoPow_of_lt hb)
  rw [hrun, hk, crc32RepairBit_eq, if_pos (by omega)]
  dsimp only
  rw [if_neg (by norm_num), if_pos ((and_sub_one_eq_zero_iff hpos).mpr ⟨b, hb, rfl⟩)]

/-- **No bit** makes the difference. -/
theorem crc32CheckAndRepair_none (hlen : input.length < 2 ^ 28 - 4)
    (hroot : 0 < root (8 * (input.length + 4))) (hroot' : root (8 * (input.length + 4)) < 2 ^ 31)
    (hne : computeCrc32 input ≠ stored)
    (hflips : ∀ i < input.length, ∀ j < 8, computeCrc32 (flipBit input i j) ≠ stored)
    (hbits : ∀ b < 32, computeCrc32 input ^^^ stored ≠ BitVec.twoPow 32 b) :
    crc32CheckAndRepair root input input.length stored false
      = some (-1, input, computeCrc32 input) := by
  obtain ⟨k, hfinds, hrun⟩ := crc32CheckAndRepair_of_ne hlen hroot hroot' hne
  have hdiff : computeCrc32 input ^^^ stored ≠ 0 :=
    fun hzero => hne (BitVec.xor_eq_zero_iff.mp hzero)
  have hpower : ¬ (computeCrc32 input ^^^ stored) &&& ((computeCrc32 input ^^^ stored) - 1) = 0 := by
    rw [and_sub_one_eq_zero_iff hdiff]
    rintro ⟨b, hb, hd⟩
    exact hbits b hb hd
  obtain ⟨r, hr, hrepair⟩ : ∃ r : ℤ, r ≠ 0 ∧
      crc32RepairBit input input.length k = (r, input) := by
    by_cases hneg : k < 0
    · exact ⟨-1, by norm_num, if_pos hneg⟩
    · obtain ⟨n, rfl⟩ := Int.eq_ofNat_of_zero_le (not_lt.mp hneg)
      obtain ⟨hd, -⟩ := hfinds.sound (Int.natCast_nonneg n)
      rw [Int.toNat_natCast] at hd
      rw [crc32RepairBit_eq]
      by_cases hlow : n < 32
      · exact ⟨-3, by norm_num, if_pos hlow⟩
      · rw [if_neg hlow]
        by_cases hin : n < 32 + 8 * input.length
        · -- the bit of the buffer would make the checksum match
          exfalso
          apply hflips (input.length - 1 - (n - 32) / 8) (by omega) (7 - n % 8) (by omega)
          rw [computeCrc32_flipBit_eq_iff (by omega) (by omega), hd]
          congr 1
          omega
        · exact ⟨-2, by norm_num, if_neg hin⟩
  rw [hrun, hrepair]
  dsimp only
  rw [if_neg hr, if_neg hpower]

/-- **The repair of one bit**: the four outcomes, and when each of them comes. -/
theorem crc32_repair (hlen : input.length < 2 ^ 28 - 4)
    (hroot : 0 < root (8 * (input.length + 4))) (hroot' : root (8 * (input.length + 4)) < 2 ^ 31)
    (stored : BitVec 32) :
    (computeCrc32 input = stored →
      crc32CheckAndRepair root input input.length stored false = some (0, input, stored)) ∧
    (∀ i < input.length, ∀ j < 8, computeCrc32 (flipBit input i j) = stored →
      crc32CheckAndRepair root input input.length stored false
        = some (1, flipBit input i j, stored)) ∧
    (∀ input' stored', crc32CheckAndRepair root input input.length stored false
        = some (1, input', stored') →
      ∃ i < input.length, ∃ j < 8, computeCrc32 (flipBit input i j) = stored) ∧
    (∀ b < 32, computeCrc32 input ^^^ stored = BitVec.twoPow 32 b →
      crc32CheckAndRepair root input input.length stored false
        = some (2, input, computeCrc32 input)) ∧
    (computeCrc32 input ≠ stored →
      (∀ i < input.length, ∀ j < 8, computeCrc32 (flipBit input i j) ≠ stored) →
      (∀ b < 32, computeCrc32 input ^^^ stored ≠ BitVec.twoPow 32 b) →
      crc32CheckAndRepair root input input.length stored false
        = some (-1, input, computeCrc32 input)) := by
  have hmatch (h : computeCrc32 input = stored) :
      crc32CheckAndRepair root input input.length stored false = some (0, input, stored) := by
    unfold crc32CheckAndRepair
    rw [List.take_length, h]
    exact if_pos BitVec.xor_self
  refine ⟨hmatch, ?_, ?_, ?_, ?_⟩
  · intro i hi j hj hflip
    exact crc32CheckAndRepair_flip hlen hroot hroot' hi hj hflip
  · intro input' stored' hone
    by_contra! hflips
    by_cases heq : computeCrc32 input = stored
    · rw [hmatch heq] at hone
      exact absurd hone (by simp)
    · by_cases hbits : ∃ b < 32, computeCrc32 input ^^^ stored = BitVec.twoPow 32 b
      · obtain ⟨b, hb, hdiff⟩ := hbits
        rw [crc32CheckAndRepair_twoPow hlen hroot hroot' hb hdiff] at hone
        exact absurd hone (by simp)
      · push Not at hbits
        rw [crc32CheckAndRepair_none hlen hroot hroot' heq hflips hbits] at hone
        exact absurd hone (by simp)
  · intro b hb hdiff
    exact crc32CheckAndRepair_twoPow hlen hroot hroot' hb hdiff
  · exact crc32CheckAndRepair_none hlen hroot hroot'

/-- **A buffer of nine bytes** with a bit that has changed. -/
theorem crc32_repair_nine :
    crc32CheckAndRepair (fun _ => 10) (flipBit [1, 2, 3, 4, 5, 6, 7, 8, 9] 3 5) 9
        (computeCrc32 [1, 2, 3, 4, 5, 6, 7, 8, 9]) false
      = some (1, [1, 2, 3, 4, 5, 6, 7, 8, 9], computeCrc32 [1, 2, 3, 4, 5, 6, 7, 8, 9]) := by
  have h := @crc32_repair (fun _ => 10) (flipBit [1, 2, 3, 4, 5, 6, 7, 8, 9] 3 5)
    (by decide) (by decide) (by decide) (computeCrc32 [1, 2, 3, 4, 5, 6, 7, 8, 9])
  have hback : flipBit (flipBit [1, 2, 3, 4, 5, 6, 7, 8, 9] 3 5) 3 5
      = [1, 2, 3, 4, 5, 6, 7, 8, 9] := by decide
  have hflip := h.2.1 3 (by decide) 5 (by decide) (by rw [hback])
  rwa [hback] at hflip

end Repair

end MtprotoProxy
