/-
# A CRC of 32 bits with four tables

The tables hold the shifts of a byte by 8, 16, 24 and 32 places, `FourTables`, so that a word of the
message is four look-ups.  `FourTables.partialSum` goes through a string by words, after its
length, and `partialSum_eq` says that it is the bit-by-bit CRC.

A table of shifts is linear, and so it is told by its entries at the powers of two
(`shiftsTable`).

This file names nothing of the proxy.
-/
import MtprotoProxy.CrcRing

namespace CLib

/-! ## Tables of shifts -/

section Tables

variable {w : ℕ}

/-- The `n` shifts of the numbers below `2 ^ k`. -/
def shiftsTable (poly : BitVec w) (n : ℕ) : ℕ → List (BitVec w)
  | 0 => [0]
  | k + 1 =>
    let l := shiftsTable poly n k
    l ++ l.map (crcShifts poly n (BitVec.ofNat w (2 ^ k)) ^^^ ·)

variable {poly : BitVec w} {n : ℕ}

theorem length_shiftsTable (k : ℕ) : (shiftsTable poly n k).length = 2 ^ k := by
  induction k with
  | zero => rfl
  | succ k ih =>
    show (shiftsTable poly n k ++ (shiftsTable poly n k).map _).length = _
    rw [List.length_append, List.length_map, ih, pow_succ, mul_two]

theorem crcShifts_zero : crcShifts poly n 0 = 0 := by
  have h := crcShifts_xor poly n 0 0
  have hself : (0 : BitVec w) ^^^ 0 = 0 := BitVec.xor_self
  rwa [hself, BitVec.xor_self] at h

theorem two_pow_add_eq_xor {k j : ℕ} (hj : j < 2 ^ k) : 2 ^ k + j = 2 ^ k ^^^ j := by
  apply Nat.eq_of_testBit_eq
  intro t
  have hadd := Nat.testBit_two_pow_mul_add 1 hj t
  rw [mul_one] at hadd
  rw [hadd, Nat.testBit_xor, Nat.testBit_two_pow]
  split_ifs with ht
  · rw [decide_eq_false (by omega), Bool.false_xor]
  · have hclear : j.testBit t = false :=
      Nat.testBit_lt_two_pow (lt_of_lt_of_le hj (Nat.pow_le_pow_right two_pos (by omega)))
    have hone : Nat.testBit 1 (t - k) = decide (t - k = 0) :=
      Bool.eq_iff_iff.mpr (by rw [Nat.testBit_one_eq_true_iff_self_eq_zero, decide_eq_true_iff])
    rw [hclear, Bool.xor_false, hone]
    congr 1
    exact propext ⟨fun _ => by omega, fun _ => by omega⟩

/-- **An entry of a table.** -/
theorem getElem?_shiftsTable (k : ℕ) {i : ℕ} (hi : i < 2 ^ k) :
    (shiftsTable poly n k)[i]? = some (crcShifts poly n (BitVec.ofNat w i)) := by
  induction k generalizing i with
  | zero =>
    obtain rfl : i = 0 := by omega
    show some 0 = some (crcShifts poly n 0)
    rw [crcShifts_zero]
  | succ k ih =>
    have hlen : (shiftsTable poly n k).length = 2 ^ k := length_shiftsTable k
    show (shiftsTable poly n k ++ (shiftsTable poly n k).map _)[i]? = _
    by_cases hlow : i < 2 ^ k
    · rw [List.getElem?_append_left (by rw [hlen]; exact hlow), ih hlow]
    · obtain ⟨j, rfl⟩ := Nat.exists_eq_add_of_le (not_lt.mp hlow)
      have hj : j < 2 ^ k := by
        rw [pow_succ] at hi
        omega
      rw [List.getElem?_append_right (by omega), hlen, Nat.add_sub_cancel_left, List.getElem?_map,
        ih hj, Option.map_some, ← crcShifts_xor, two_pow_add_eq_xor hj, BitVec.ofNat_xor]

end Tables

/-- The bits of a length. -/
theorem and_pow_ne_zero (len i : ℕ) : len &&& 2 ^ i ≠ 0 ↔ len / 2 ^ i % 2 = 1 := by
  rw [Nat.and_two_pow, Nat.testBit_eq_decide_div_mod_eq]
  by_cases h : len / 2 ^ i % 2 = 1
  · rw [decide_eq_true h]
    simp [h]
  · rw [decide_eq_false h]
    simp [h]

/-! ## The code -/

/-- The `int` at the place `i` behind `p`. -/
def intAt (p : Bytes) (i : ℕ) : BitVec 32 :=
  (p.getD (4 * i + 3) 0).toBitVec ++ (p.getD (4 * i + 2) 0).toBitVec ++
    (p.getD (4 * i + 1) 0).toBitVec ++ (p.getD (4 * i) 0).toBitVec

/-- The tables of a polynomial. -/
structure FourTables (poly : BitVec 32) where
  table : Array (BitVec 32)
  table0 : Array (BitVec 32)
  table1 : Array (BitVec 32)
  table2 : Array (BitVec 32)
  table_eq : table.toList = shiftsTable poly 8 8
  table2_eq : table2.toList = shiftsTable poly 16 8
  table1_eq : table1.toList = shiftsTable poly 24 8
  table0_eq : table0.toList = shiftsTable poly 32 8

namespace FourTables

variable {poly : BitVec 32} (T : FourTables poly)

/-- A word. -/
def doOne (crc v : BitVec 32) : BitVec 32 :=
  let crc := crc ^^^ v
  T.table0.getD (crc &&& 0xff).toNat 0
    ^^^ T.table1.getD ((crc &&& 0xff00) >>> 8).toNat 0
    ^^^ T.table2.getD ((crc &&& 0xff0000) >>> 16).toNat 0
    ^^^ T.table.getD (crc >>> 24).toNat 0

/-- Four words. -/
def doFour (crc : BitVec 32) (p : Bytes) : BitVec 32 :=
  T.doOne (T.doOne (T.doOne (T.doOne crc (intAt p 0)) (intAt p 1)) (intAt p 2)) (intAt p 3)

/-- A byte, with its sign. -/
def doChar (crc : BitVec 32) (q : UInt8) : BitVec 32 :=
  T.table.getD ((crc ^^^ q.toBitVec.signExtend 32) &&& 0xff).toNat 0 ^^^ (crc >>> 8)

/-- The loop, 32 bytes a round. -/
def loop : ℕ → Bytes → BitVec 32 → Bytes × BitVec 32
  | 0, p, crc => (p, crc)
  | x + 1, p, crc => loop x (p.drop 32) (T.doFour (T.doFour crc p) (p.drop 16))

/-- `x` rounds of the loop, and the rest of `len` bytes of `data` after the bits of the length. -/
def partialSum (x : ℕ) (data : Bytes) (len : ℕ) (crc : BitVec 32) : BitVec 32 :=
  let (p, crc) := T.loop x data crc
  let (p, crc) := if len &&& 16 ≠ 0 then (p.drop 16, T.doFour crc p) else (p, crc)
  let (p, crc) := if len &&& 8 ≠ 0
    then (p.drop 8, T.doOne (T.doOne crc (intAt p 0)) (intAt p 1)) else (p, crc)
  let (p, crc) := if len &&& 4 ≠ 0 then (p.drop 4, T.doOne crc (intAt p 0)) else (p, crc)
  let (q, crc) := if len &&& 2 ≠ 0
    then (p.drop 2, T.doChar (T.doChar crc (p.getD 0 0)) (p.getD 1 0)) else (p, crc)
  if len &&& 1 ≠ 0 then T.doChar crc (q.getD 0 0) else crc

theorem getD_toList (a : Array (BitVec 32)) (i : ℕ) : a.getD i 0 = a.toList.getD i 0 := by
  rw [List.getD_eq_getElem?_getD, Array.getElem?_toList, Array.getD_eq_getD_getElem?]

/-! ## A word, a byte -/

theorem getD_of_shifts {a : Array (BitVec 32)} {n : ℕ} (ha : a.toList = shiftsTable poly n 8)
    {x : BitVec 32} (h : x.toNat < 256) : a.getD x.toNat 0 = crcShifts poly n x := by
  rw [getD_toList, ha, List.getD_eq_getElem?_getD, getElem?_shiftsTable 8 h, BitVec.ofNat_toNat,
    BitVec.setWidth_eq]
  rfl

theorem toNat_and_255 (x : BitVec 32) : (x &&& 255#32).toNat = x.toNat % 256 :=
  Nat.and_two_pow_sub_one_eq_mod x.toNat 8

theorem toNat_and_255_lt (x : BitVec 32) : (x &&& 255#32).toNat < 256 := by
  rw [toNat_and_255]
  exact Nat.mod_lt _ (by norm_num)

/-- The shifts of a word, byte by byte. -/
theorem crcShifts_word (x : BitVec 32) :
    crcShifts poly 32 x = crcShifts poly 32 (x &&& 255#32)
      ^^^ crcShifts poly 24 (x >>> 8 &&& 255#32)
      ^^^ crcShifts poly 16 (x >>> 16 &&& 255#32)
      ^^^ crcShifts poly 8 (x >>> 24) := by
  have h₁ := crcShifts_split poly x 24
  have h₂ := crcShifts_split poly (x >>> 8) 16
  have h₃ := crcShifts_split poly (x >>> 16) 8
  rw [← BitVec.shiftRight_add] at h₂ h₃
  rw [h₁, h₂, h₃, BitVec.xor_assoc, BitVec.xor_assoc]

/-- **A word** is 32 shifts. -/
theorem doOne_eq_shifts (crc v : BitVec 32) : T.doOne crc v = crcShifts poly 32 (crc ^^^ v) := by
  have htop (x : BitVec 32) : (x >>> 24).toNat < 256 := by
    have hx := x.isLt
    rw [BitVec.toNat_ushiftRight, Nat.shiftRight_eq_div_pow]
    exact Nat.div_lt_of_lt_mul hx
  have hfirst (x : BitVec 32) : x &&& 0xff = x &&& 255#32 := rfl
  have hsecond (x : BitVec 32) : (x &&& 0xff00) >>> 8 = x >>> 8 &&& 255#32 :=
    BitVec.ushiftRight_and_distrib x 0xff00 8
  have hthird (x : BitVec 32) : (x &&& 0xff0000) >>> 16 = x >>> 16 &&& 255#32 :=
    BitVec.ushiftRight_and_distrib x 0xff0000 16
  unfold doOne
  generalize crc ^^^ v = x
  dsimp only
  rw [crcShifts_word, hfirst, hsecond, hthird, getD_of_shifts T.table0_eq (toNat_and_255_lt x),
    getD_of_shifts T.table1_eq (toNat_and_255_lt _),
    getD_of_shifts T.table2_eq (toNat_and_255_lt _), getD_of_shifts T.table_eq (htop x)]

/-- A byte of the message, and the remainder before it. -/
theorem crcByte_eq_shifts (c : BitVec 32) (b : UInt8) :
    crcByte poly c b = crcShifts poly 8 (c ^^^ b.toBitVec.setWidth 32) := by
  apply crcByte_eq
  apply value_injective poly
  rw [value_crcByte, value_crcShifts, value_zero, value_setWidth poly 24 b.toBitVec]
  unfold value
  rw [UInt8.toNat_toBitVec]
  ring

/-- **A byte**, with its sign. -/
theorem doChar_eq (crc : BitVec 32) (q : UInt8) : T.doChar crc q = crcByte poly crc q := by
  have hsign : (crc ^^^ q.toBitVec.signExtend 32) &&& 0xff
      = (crc ^^^ q.toBitVec.setWidth 32) &&& 255#32 := by
    apply BitVec.eq_of_getLsbD_eq
    intro i hi
    change ((crc ^^^ q.toBitVec.signExtend 32) &&& 255#32).getLsbD i = _
    rw [BitVec.getLsbD_and, BitVec.getLsbD_and, BitVec.getLsbD_xor, BitVec.getLsbD_xor,
      getLsbD_255, BitVec.getLsbD_signExtend, BitVec.getLsbD_setWidth]
    by_cases hlow : i < 8
    · rw [if_pos hlow]
    · rw [decide_eq_false hlow, Bool.and_false, Bool.and_false, Bool.and_false]
  have hmoved : (crc ^^^ q.toBitVec.setWidth 32) >>> 8 = crc >>> 8 := by
    have hzero : (q.toBitVec.setWidth 32) >>> 8 = 0#32 := by
      apply BitVec.eq_of_toNat_eq
      have hq := q.toNat_lt
      rw [BitVec.toNat_ushiftRight, BitVec.toNat_setWidth, UInt8.toNat_toBitVec,
        Nat.shiftRight_eq_div_pow, Nat.mod_eq_of_lt (by omega)]
      exact Nat.div_eq_of_lt hq
    rw [BitVec.ushiftRight_xor_distrib, hzero, BitVec.xor_zero]
  unfold doChar
  rw [hsign, getD_of_shifts T.table_eq (toNat_and_255_lt _), crcByte_eq_shifts, ← hmoved]
  exact (crcShifts_eight poly _).symm

/-- **A word is its four bytes.** -/
theorem doOne_intAt (crc : BitVec 32) (p : Bytes) (i : ℕ) :
    T.doOne crc (intAt p i) = crcBytes poly crc
      [p.getD (4 * i) 0, p.getD (4 * i + 1) 0, p.getD (4 * i + 2) 0, p.getD (4 * i + 3) 0] := by
  apply value_injective poly
  rw [doOne_eq_shifts, value_crcShifts, value_xor, value_crcBytes]
  unfold intAt
  rw [value_append, value_append, value_append]
  simp only [bytesValue_cons, bytesValue_nil, value, UInt8.toNat_toBitVec, List.length_cons,
    List.length_nil]
  ring

/-! ## The loop -/

/-- `n` bytes of the data are gone through. -/
structure SumAt (poly : BitVec 32) (data : Bytes) (crc : BitVec 32) (n : ℕ)
    (s : Bytes × BitVec 32) : Prop where
  rest : s.1 = data.drop n
  crc_eq : s.2 = crcBytes poly crc (data.take n)

theorem SumAt.start (data : Bytes) (crc : BitVec 32) : SumAt poly data crc 0 (data, crc) :=
  ⟨rfl, rfl⟩

/-- The next `k` bytes. -/
theorem SumAt.next {data p : Bytes} {crc c c' : BitVec 32} {n k : ℕ}
    (h : SumAt poly data crc n (p, c)) (hc : c' = crcBytes poly c (p.take k)) :
    SumAt poly data crc (n + k) (p.drop k, c') := by
  obtain ⟨hrest, hcrc⟩ := h
  dsimp only at hrest hcrc
  constructor
  · rw [hrest, List.drop_drop]
  · rw [hc, hcrc, hrest, List.take_add]
    exact (crcBytes_append _ _ _ _).symm

theorem doOne_take {p : Bytes} (i : ℕ) (crc : BitVec 32) (h : 4 * i + 4 ≤ p.length) :
    T.doOne crc (intAt p i) = crcBytes poly crc ((p.drop (4 * i)).take 4) := by
  have hget (j : ℕ) : p.getD (4 * i + j) 0 = (p.drop (4 * i)).getD j 0 := by
    rw [List.getD_eq_getElem?_getD, List.getD_eq_getElem?_getD, List.getElem?_drop]
  have hlen : 4 ≤ (p.drop (4 * i)).length := by
    rw [List.length_drop]
    omega
  rw [doOne_intAt, show p.getD (4 * i) 0 = p.getD (4 * i + 0) 0 from rfl, hget 0, hget 1, hget 2,
    hget 3]
  generalize p.drop (4 * i) = q at hlen
  match q, hlen with
  | a :: b :: c :: d :: q, _ => rfl

theorem doFour_eq {p : Bytes} (crc : BitVec 32) (h : 16 ≤ p.length) :
    T.doFour crc p = crcBytes poly crc (p.take 16) := by
  have hsplit : p.take 16 = p.take 4 ++ (p.drop 4).take 4 ++ (p.drop 8).take 4
      ++ (p.drop 12).take 4 := by
    rw [← List.take_add, ← List.take_add, ← List.take_add]
  unfold doFour
  rw [T.doOne_take 0 _ (by omega), T.doOne_take 1 _ (by omega), T.doOne_take 2 _ (by omega),
    T.doOne_take 3 _ (by omega), hsplit, crcBytes_append, crcBytes_append, crcBytes_append]
  rfl

theorem doTwo_eq {p : Bytes} (crc : BitVec 32) (h : 8 ≤ p.length) :
    T.doOne (T.doOne crc (intAt p 0)) (intAt p 1) = crcBytes poly crc (p.take 8) := by
  have hsplit : p.take 8 = p.take 4 ++ (p.drop 4).take 4 := List.take_add (i := 4) (j := 4)
  rw [T.doOne_take 0 _ (by omega), T.doOne_take 1 _ (by omega), hsplit]
  exact (crcBytes_append _ _ _ _).symm

theorem doChars_eq {p : Bytes} (crc : BitVec 32) (h : 2 ≤ p.length) :
    T.doChar (T.doChar crc (p.getD 0 0)) (p.getD 1 0) = crcBytes poly crc (p.take 2) := by
  rw [doChar_eq, doChar_eq]
  match p, h with
  | a :: b :: p, _ => rfl

theorem doChar_take {p : Bytes} (crc : BitVec 32) (h : 1 ≤ p.length) :
    T.doChar crc (p.getD 0 0) = crcBytes poly crc (p.take 1) := by
  rw [doChar_eq]
  match p, h with
  | a :: p, _ => rfl

theorem loop_at (data : Bytes) (crc₀ : BitVec 32) (x : ℕ) {p : Bytes} {crc : BitVec 32} {n : ℕ}
    (h : SumAt poly data crc₀ n (p, crc)) (hlen : n + 32 * x ≤ data.length) :
    SumAt poly data crc₀ (n + 32 * x) (T.loop x p crc) := by
  induction x generalizing n p crc with
  | zero => exact h
  | succ x ih =>
    have hp : 32 ≤ p.length := by
      rw [show p = data.drop n from h.rest, List.length_drop]
      omega
    have hround : SumAt poly data crc₀ (n + 32)
        (p.drop 32, T.doFour (T.doFour crc p) (p.drop 16)) := by
      have hhalf : 16 ≤ (p.drop 16).length := by
        rw [List.length_drop]
        omega
      have htake : p.take 32 = p.take 16 ++ (p.drop 16).take 16 :=
        List.take_add (i := 16) (j := 16)
      apply h.next
      rw [T.doFour_eq _ hhalf, T.doFour_eq crc (by omega : 16 ≤ p.length), htake]
      exact (crcBytes_append _ _ _ _).symm
    have hrest := ih hround (by omega)
    rwa [show n + 32 + 32 * x = n + 32 * (x + 1) by ring] at hrest

/-- `k` more bytes when the bit `k` of the length is set. -/
theorem SumAt.next_if {data p : Bytes} {crc c c' : BitVec 32} {n len k : ℕ}
    (hbit : len &&& k ≠ 0 ↔ len / k % 2 = 1) (hlen : n + k * (len / k % 2) ≤ data.length)
    (h : SumAt poly data crc n (p, c)) (hc : k ≤ p.length → c' = crcBytes poly c (p.take k)) :
    SumAt poly data crc (n + k * (len / k % 2))
      (if len &&& k ≠ 0 then (p.drop k, c') else (p, c)) := by
  split_ifs with hset
  · rw [hbit.mp hset, mul_one] at hlen ⊢
    apply h.next
    apply hc
    rw [show p = data.drop n from h.rest, List.length_drop]
    omega
  · rw [hbit] at hset
    rwa [show len / k % 2 = 0 by omega, mul_zero, add_zero]

/-- **The four tables give the bit-by-bit CRC.** -/
theorem partialSum_eq {data : Bytes} {x len : ℕ} (hx : x = len / 32) (crc : BitVec 32)
    (h : len ≤ data.length) : T.partialSum x data len crc = crcBytes poly crc (data.take len) := by
  have h₀ := T.loop_at data crc x (SumAt.start data crc) (by omega)
  unfold partialSum
  generalize T.loop x data crc = s at h₀ ⊢
  obtain ⟨p, c⟩ := s
  have h₁ := h₀.next_if (and_pow_ne_zero len 4) (by omega) (T.doFour_eq c)
  dsimp only
  generalize (if len &&& 16 ≠ 0 then (p.drop 16, T.doFour c p) else (p, c)) = s at h₁ ⊢
  obtain ⟨p₁, c₁⟩ := s
  have h₂ := h₁.next_if (and_pow_ne_zero len 3) (by omega) (T.doTwo_eq c₁)
  dsimp only
  generalize (if len &&& 8 ≠ 0
      then (p₁.drop 8, T.doOne (T.doOne c₁ (intAt p₁ 0)) (intAt p₁ 1)) else (p₁, c₁)) = s at h₂ ⊢
  obtain ⟨p₂, c₂⟩ := s
  have h₃ := h₂.next_if (and_pow_ne_zero len 2) (by omega) (T.doOne_take 0 c₂)
  dsimp only
  generalize (if len &&& 4 ≠ 0 then (p₂.drop 4, T.doOne c₂ (intAt p₂ 0)) else (p₂, c₂)) = s at h₃ ⊢
  obtain ⟨p₃, c₃⟩ := s
  have h₄ := h₃.next_if (and_pow_ne_zero len 1) (by omega) (T.doChars_eq c₃)
  dsimp only
  generalize (if len &&& 2 ≠ 0
      then (p₃.drop 2, T.doChar (T.doChar c₃ (p₃.getD 0 0)) (p₃.getD 1 0)) else (p₃, c₃)) = s
    at h₄ ⊢
  obtain ⟨p₄, c₄⟩ := s
  have h₅ := h₄.next_if (and_pow_ne_zero len 0) (by omega) (T.doChar_take c₄)
  have hend := h₅.crc_eq
  rw [apply_ite Prod.snd] at hend
  rw [show (if len &&& 1 ≠ 0 then T.doChar c₄ (p₄.getD 0 0) else c₄) = _ from hend]
  congr 2
  omega

end FourTables

end CLib
