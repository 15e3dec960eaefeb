/-
# Words of 128 bits

The vector operations that carry-less multiplications are surrounded by: halves of a word, moves by
bits, bytes of a word and their shuffling, after the instructions `pclmulqdq`, `psrldq`, `pslldq`,
`punpckhqdq` and `pshufb`.

`toBytes` are the bytes of a word as they lie in memory, and `ofBytes` is the word that is loaded
from them.

This file names nothing of the proxy.
-/
import MtprotoProxy.CrcRing

namespace CLib

variable {w : ℕ} {poly : BitVec w}

/-! ## Halves -/

def loHalf (v : BitVec 128) : BitVec 64 := v.setWidth 64

def hiHalf (v : BitVec 128) : BitVec 64 := (v >>> 64).setWidth 64

/-- A vector of two 64-bit words, the low one first. -/
def v2di (lo hi : BitVec 64) : BitVec 128 := hi ++ lo

/-- `pclmulqdq`: the carry-less product of the halves that `imm` selects. -/
def pclmulqdq (a b : BitVec 128) (imm : ℕ) : BitVec 128 :=
  clmul (if imm.testBit 0 then hiHalf a else loHalf a) (if imm.testBit 4 then hiHalf b else loHalf b)

/-- `psrldqi128` and `pslldqi128`: moves by a number of bits. -/
def psrldqi (v : BitVec 128) (n : ℕ) : BitVec 128 := v >>> n

def pslldqi (v : BitVec 128) (n : ℕ) : BitVec 128 := v <<< n

/-- `punpckhqdq`: the high halves of two words. -/
def punpckhqdq (a b : BitVec 128) : BitVec 128 := hiHalf b ++ hiHalf a

/-- The halves of a word as numbers. -/
theorem toNat_loHalf (v : BitVec 128) : (loHalf v).toNat = v.toNat % 2 ^ 64 :=
  BitVec.toNat_setWidth ..

theorem toNat_hiHalf (v : BitVec 128) : (hiHalf v).toNat = v.toNat / 2 ^ 64 := by
  have hv := v.isLt
  unfold hiHalf
  rw [BitVec.toNat_setWidth, BitVec.toNat_ushiftRight, Nat.shiftRight_eq_div_pow]
  omega

/-- The low half has the higher powers. -/
theorem value_halves (v : BitVec 128) :
    value poly v = crcX poly ^ 64 * value poly (loHalf v) + value poly (hiHalf v) := by
  have hsplit : v.toNat = v.toNat % 2 ^ 64 + 2 ^ 64 * (v.toNat / 2 ^ 64) := by omega
  unfold value
  rw [toNat_loHalf, toNat_hiHalf, ← natValue_add (l := 128) rfl (Nat.mod_lt _ (by norm_num)),
    ← hsplit]

/-- The halves of a sum. -/
theorem hiHalf_xor (a b : BitVec 128) : hiHalf (a ^^^ b) = hiHalf a ^^^ hiHalf b := by
  unfold hiHalf
  rw [BitVec.ushiftRight_xor_distrib, BitVec.setWidth_xor]

@[simp] theorem loHalf_append (a b : BitVec 64) : loHalf (a ++ b) = b := by
  apply BitVec.eq_of_toNat_eq
  rw [toNat_loHalf, toNat_append_eq, Nat.add_mul_mod_self_left, Nat.mod_eq_of_lt b.isLt]

@[simp] theorem hiHalf_append (a b : BitVec 64) : hiHalf (a ++ b) = a := by
  have hb := b.isLt
  apply BitVec.eq_of_toNat_eq
  rw [toNat_hiHalf, toNat_append_eq]
  omega

/-- The halves of a word that is made of two. -/
theorem loHalf_v2di (lo hi : BitVec 64) : loHalf (v2di lo hi) = lo := loHalf_append hi lo

theorem hiHalf_v2di (lo hi : BitVec 64) : hiHalf (v2di lo hi) = hi := hiHalf_append hi lo

/-- The high half, moved down and up again. -/
theorem value_pslldqi_psrldqi {k : ℕ} (hk : k ≤ 64) (v : BitVec 128) :
    value poly (pslldqi (psrldqi v 64) k) = crcX poly ^ (64 - k) * value poly (hiHalf v) := by
  have hword : pslldqi (psrldqi v 64) k = (hiHalf v).setWidth (64 + 64) <<< k := by
    unfold pslldqi psrldqi hiHalf
    congr 1
    apply BitVec.eq_of_toNat_eq
    have hv := v.isLt
    rw [BitVec.toNat_setWidth, BitVec.toNat_setWidth, BitVec.toNat_ushiftRight,
      Nat.shiftRight_eq_div_pow]
    omega
  rw [hword]
  exact value_shifted (hiHalf v) hk

/-- The halves of a half. -/
theorem value_words (W : BitVec 64) :
    value poly W = crcX poly ^ 32 * value poly (W.setWidth 32)
      + value poly ((W >>> 32).setWidth 32) := by
  have hsplit : (W >>> 32).setWidth 32 ++ W.setWidth 32 = W := by
    apply BitVec.eq_of_toNat_eq
    have hW := W.isLt
    rw [toNat_append_eq, BitVec.toNat_setWidth, BitVec.toNat_setWidth, BitVec.toNat_ushiftRight,
      Nat.shiftRight_eq_div_pow]
    omega
  rw [← value_append, hsplit]

/-- The product of two words of 32 bits has no more than 64. -/
theorem loHalf_clmul (a b : BitVec 32) :
    loHalf (clmul (a.setWidth 64) (b.setWidth 64)) = clmul a b := by
  apply BitVec.eq_of_toNat_eq
  rw [toNat_loHalf, toNat_clmul_setWidth a b (by norm_num) (by norm_num)]
  exact Nat.mod_eq_of_lt (clmul a b).isLt

theorem loHalf_xor (a b : BitVec 128) : loHalf (a ^^^ b) = loHalf a ^^^ loHalf b := by
  unfold loHalf
  rw [BitVec.setWidth_xor]

theorem xor_and_distrib {n : ℕ} (a b c : BitVec n) :
    (a ^^^ b) &&& c = (a &&& c) ^^^ (b &&& c) := by
  apply BitVec.eq_of_getLsbD_eq
  intro i _
  rw [BitVec.getLsbD_and, BitVec.getLsbD_xor, BitVec.getLsbD_xor, BitVec.getLsbD_and,
    BitVec.getLsbD_and, Bool.and_xor_distrib_right]

/-! ## Clear low bits -/

/-- The lowest `k` bits are clear. -/
def LowClear {n : ℕ} (k : ℕ) (a : BitVec n) : Prop := 2 ^ k ∣ a.toNat

/-- Low bits stay clear in sums, and add up in products. -/
theorem LowClear.xor {n k : ℕ} {a b : BitVec n} (ha : LowClear k a) (hb : LowClear k b) :
    LowClear k (a ^^^ b) := by
  unfold LowClear at *
  rw [Nat.dvd_iff_mod_eq_zero] at *
  rw [BitVec.toNat_xor, Nat.xor_mod_two_pow, ha, hb]
  rfl

theorem LowClear.clmul {n m p q : ℕ} {a : BitVec n} {b : BitVec m} (ha : LowClear p a)
    (hb : LowClear q b) : LowClear (p + q) (clmul a b) := by
  have hbits : ∀ k ≤ m, LowClear (p + q) (clmulBits a b k) := by
    intro k hk
    induction k with
    | zero =>
      show 2 ^ (p + q) ∣ 0
      exact Nat.dvd_zero _
    | succ k ih =>
      apply (ih (by omega)).xor
      split_ifs with hbit
      · -- a bit that is set is not one of the lowest `q`
        have hqk : q ≤ k := by
          by_contra hlt
          obtain ⟨c, hc⟩ := hb
          rw [← BitVec.testBit_toNat, hc, Nat.testBit_two_pow_mul, decide_eq_false (by omega),
            Bool.false_and] at hbit
          exact Bool.false_ne_true hbit
        unfold LowClear
        rw [toNat_shifted a (by omega), mul_comm, pow_add]
        exact Nat.mul_dvd_mul ha (Nat.pow_dvd_pow 2 hqk)
      · show 2 ^ (p + q) ∣ 0
        exact Nat.dvd_zero _
  exact hbits m le_rfl

theorem LowClear.loHalf {k : ℕ} (hk : k ≤ 64) {v : BitVec 128} (h : LowClear k v) :
    LowClear k (loHalf v) := by
  unfold LowClear at *
  rw [toNat_loHalf]
  exact (Nat.dvd_mod_iff (Nat.pow_dvd_pow 2 hk)).mpr h

/-- A shift to the left clears low bits. -/
theorem LowClear.pslldqi {k : ℕ} (hk : k ≤ 128) (v : BitVec 128) : LowClear k (pslldqi v k) := by
  unfold LowClear CLib.pslldqi
  rw [BitVec.toNat_shiftLeft, Nat.shiftLeft_eq]
  exact (Nat.dvd_mod_iff (Nat.pow_dvd_pow 2 hk)).mpr (Nat.dvd_mul_left _ _)

theorem LowClear.zero {n : ℕ} (a : BitVec n) : LowClear 0 a := by
  unfold LowClear
  rw [pow_zero]
  exact Nat.one_dvd _

theorem LowClear.mono {n k l : ℕ} {a : BitVec n} (h : LowClear l a) (hk : k ≤ l) : LowClear k a :=
  (Nat.pow_dvd_pow 2 hk).trans h

theorem LowClear.append_zero {n m : ℕ} (a : BitVec n) : LowClear m (a ++ 0#m) := by
  unfold LowClear
  rw [toNat_append_eq, BitVec.toNat_zero, zero_add]
  exact Nat.dvd_mul_right _ _

/-- A word whose low half is clear is its high half. -/
theorem value_of_lowClear {v : BitVec 128} (h : LowClear 64 v) :
    value poly v = value poly (hiHalf v) := by
  have hlo : loHalf v = 0#64 := by
    apply BitVec.eq_of_toNat_eq
    rw [toNat_loHalf]
    exact Nat.mod_eq_zero_of_dvd h
  rw [value_halves, hlo, value_zero, mul_zero, zero_add]

/-- A word of 64 bits whose low half is clear. -/
theorem value_append_zero (c : BitVec 32) : value poly (c ++ 0#32) = value poly c := by
  rw [value_append, value_zero, mul_zero, zero_add]

/-! ## Folding -/

variable {K : BitVec 128} {k : ℕ}

/-- The halves of a constant that moves a word by `k` bits. -/
structure Folds (poly : BitVec w) (K : BitVec 128) (k : ℕ) : Prop where
  lo : value poly (loHalf K) = crcX poly ^ (k + 63)
  hi : crcX poly * value poly (hiHalf K) = crcX poly ^ k

/-- **A fold**: the two products are the word, moved by `k` bits. -/
theorem Folds.value_eq (h : Folds poly K k) (D : BitVec 128) :
    value poly (pclmulqdq D K 0x00) + value poly (pclmulqdq D K 0x11)
      = crcX poly ^ k * value poly D := by
  have hlo : pclmulqdq D K 0x00 = clmul (loHalf D) (loHalf K) := rfl
  have hhi : pclmulqdq D K 0x11 = clmul (hiHalf D) (hiHalf K) := rfl
  rw [hlo, hhi, value_clmul, value_clmul, h.lo, value_halves D]
  linear_combination value poly (hiHalf D) * h.hi

/-- The same with the constant in front. -/
theorem Folds.value_eq' (h : Folds poly K k) (D : BitVec 128) :
    value poly (pclmulqdq K D 0x11) + value poly (pclmulqdq K D 0x00)
      = crcX poly ^ k * value poly D := by
  have hlo : pclmulqdq K D 0x00 = clmul (loHalf K) (loHalf D) := rfl
  have hhi : pclmulqdq K D 0x11 = clmul (hiHalf K) (hiHalf D) := rfl
  rw [hlo, hhi, value_clmul, value_clmul, h.lo, value_halves D]
  linear_combination value poly (hiHalf D) * h.hi

/-- **The reduction to a half**: the low half is moved over the high one. -/
theorem value_hiHalf_fold {D P : BitVec 128} (hP : LowClear 64 P)
    (hvalue : value poly P = crcX poly ^ 64 * value poly (loHalf D)) :
    value poly (hiHalf (D ^^^ P)) = value poly D := by
  rw [hiHalf_xor, value_xor, ← value_of_lowClear hP, hvalue, value_halves D]
  ring

/-! ## Bytes -/

/-- The word that is loaded from 16 bytes. -/
def ofBytes (bs : Bytes) : BitVec 128 := BitVec.ofNat 128 (leWord bs)

/-- The bytes of a word as they lie in memory. -/
def toBytes (v : BitVec 128) : Bytes := leBytes 16 v.toNat

/-- `pshufb`: the byte of `a` that a byte of `ctl` selects, or 0. -/
def pshufb (a ctl : BitVec 128) : BitVec 128 :=
  ofBytes ((toBytes ctl).map fun c =>
    if 128 ≤ c.toNat then 0 else (toBytes a).getD (c.toNat % 16) 0)

@[simp] theorem length_toBytes (v : BitVec 128) : (toBytes v).length = 16 := length_leBytes 16 _

/-- Words and bytes are the same: a round trip both ways. -/
theorem leBytes_leWord (bs : Bytes) : leBytes bs.length (leWord bs) = bs := by
  induction bs with
  | nil => rfl
  | cons b bs ih =>
    have hb := b.toNat_lt
    have hhead : UInt8.ofNat (b.toNat + 256 * leWord bs) = b := by
      apply UInt8.toNat_inj.mp
      rw [UInt8.toNat_ofNat']
      omega
    have htail : (b.toNat + 256 * leWord bs) / 256 = leWord bs := by omega
    rw [List.length_cons, leWord_cons, leBytes, hhead, htail, ih]

theorem toBytes_ofBytes {bs : Bytes} (h : bs.length = 16) : toBytes (ofBytes bs) = bs := by
  have hlt := leWord_lt bs
  rw [h] at hlt
  unfold toBytes ofBytes
  rw [BitVec.toNat_ofNat, Nat.mod_eq_of_lt hlt, ← h, leBytes_leWord]

theorem ofBytes_toBytes (v : BitVec 128) : ofBytes (toBytes v) = v := by
  apply BitVec.eq_of_toNat_eq
  unfold ofBytes toBytes
  rw [BitVec.toNat_ofNat, leWord_leBytes, show 256 ^ 16 = 2 ^ 128 from rfl,
    Nat.mod_mod, Nat.mod_eq_of_lt v.isLt]

/-- The value of a word is that of its bytes. -/
theorem value_eq_bytesValue (v : BitVec 128) : value poly v = bytesValue poly (toBytes v) := by
  have h : value poly (ofBytes (toBytes v)) = bytesValue poly (toBytes v) :=
    value_ofNat_leWord (by rw [length_toBytes])
  rwa [ofBytes_toBytes] at h

/-- A bit of a string. -/
theorem testBit_leWord (bs : Bytes) {j : ℕ} (hj : j < 8) (i : ℕ) :
    (leWord bs).testBit (8 * i + j) = (bs.getD i 0).toNat.testBit j := by
  induction bs generalizing i with
  | nil => simp
  | cons b bs ih =>
    have hb : b.toNat < 2 ^ 8 := b.toNat_lt
    rw [leWord_cons, add_comm b.toNat, show 256 = 2 ^ 8 from rfl, Nat.testBit_two_pow_mul_add _ hb]
    cases i with
    | zero =>
      rw [if_pos (by omega), List.getD_cons_zero, mul_zero, zero_add]
    | succ i =>
      rw [if_neg (by omega), List.getD_cons_succ, ← ih]
      congr 1
      omega

/-- A byte of a word. -/
theorem testBit_toBytes (v : BitVec 128) {j : ℕ} (hj : j < 8) (i : ℕ) :
    ((toBytes v).getD i 0).toNat.testBit j = v.toNat.testBit (8 * i + j) := by
  have hword : leWord (toBytes v) = v.toNat := by
    unfold toBytes
    rw [leWord_leBytes]
    exact Nat.mod_eq_of_lt v.isLt
  rw [← testBit_leWord _ hj, hword]

/-- An operation on bits goes byte by byte. -/
theorem toBytes_and (a b : BitVec 128) :
    toBytes (a &&& b) = List.zipWith (· &&& ·) (toBytes a) (toBytes b) := by
  apply List.ext_getElem
  · rw [List.length_zipWith, length_toBytes, length_toBytes, length_toBytes, min_self]
  · intro i hi hi'
    rw [List.getElem_zipWith]
    rw [length_toBytes] at hi
    have hget (v : BitVec 128) (hlt : i < (toBytes v).length) :
        (toBytes v)[i] = (toBytes v).getD i 0 := (List.getD_eq_getElem _ _ hlt).symm
    rw [hget, hget, hget]
    apply UInt8.toNat_inj.mp
    rw [UInt8.toNat_and]
    apply Nat.eq_of_testBit_eq
    intro j
    rw [Nat.testBit_and]
    by_cases hj : j < 8
    · rw [testBit_toBytes _ hj, testBit_toBytes _ hj, testBit_toBytes _ hj, BitVec.toNat_and,
        Nat.testBit_and]
    · have hbyte (v : BitVec 128) : ((toBytes v).getD i 0).toNat.testBit j = false :=
        Nat.testBit_lt_two_pow
          (lt_of_lt_of_le (UInt8.toNat_lt _) (Nat.pow_le_pow_right two_pos (by omega)))
      rw [hbyte, hbyte, hbyte, Bool.and_false]

/-! ## Moves by bytes -/

/-- The bytes move up in memory by `k` places. -/
def bytesUp (k : ℕ) (v : BitVec 128) : BitVec 128 :=
  ofBytes (List.replicate k 0 ++ (toBytes v).take (16 - k))

/-- The bytes move down in memory by `k` places. -/
def bytesDown (k : ℕ) (v : BitVec 128) : BitVec 128 :=
  ofBytes ((toBytes v).drop k ++ List.replicate k 0)

/-- The bytes of a word that was moved by bytes. -/
theorem toBytes_bytesUp {k : ℕ} (hk : k ≤ 16) (v : BitVec 128) :
    toBytes (bytesUp k v) = List.replicate k 0 ++ (toBytes v).take (16 - k) := by
  apply toBytes_ofBytes
  rw [List.length_append, List.length_replicate, List.length_take, length_toBytes]
  omega

theorem toBytes_bytesDown {k : ℕ} (hk : k ≤ 16) (v : BitVec 128) :
    toBytes (bytesDown k v) = (toBytes v).drop k ++ List.replicate k 0 := by
  apply toBytes_ofBytes
  rw [List.length_append, List.length_replicate, List.length_drop, length_toBytes]
  omega

/-- The values of such words. -/
theorem value_bytesUp {k : ℕ} (hk : k ≤ 16) (v : BitVec 128) :
    value poly (bytesUp k v) = bytesValue poly ((toBytes v).take (16 - k)) := by
  rw [value_eq_bytesValue, toBytes_bytesUp hk, bytesValue_replicate_append]

theorem value_bytesDown {k : ℕ} (hk : k ≤ 16) (v : BitVec 128) :
    value poly (bytesDown k v) = crcX poly ^ (8 * k) * bytesValue poly ((toBytes v).drop k) := by
  rw [value_eq_bytesValue, toBytes_bytesDown hk, bytesValue_append_replicate]

/-- **A word that is moved over two.** -/
theorem value_bytesUp_bytesDown (poly : BitVec w) {k : ℕ} (hk : k ≤ 16) (v : BitVec 128) :
    crcX poly ^ 128 * value poly (bytesUp (16 - k) v) + value poly (bytesDown k v)
      = crcX poly ^ (8 * k) * value poly v := by
  have hsplit : value poly v = crcX poly ^ (8 * (16 - k)) * bytesValue poly ((toBytes v).take k)
      + bytesValue poly ((toBytes v).drop k) := by
    have h : bytesValue poly ((toBytes v).take k ++ (toBytes v).drop k) = _ := bytesValue_append _ _
    rwa [List.take_append_drop, List.length_drop, length_toBytes, ← value_eq_bytesValue] at h
  have hpow : crcX poly ^ 128 = crcX poly ^ (8 * k) * crcX poly ^ (8 * (16 - k)) := by
    rw [← pow_add]
    congr 1
    omega
  rw [value_bytesUp (by omega), value_bytesDown hk, hsplit, hpow, show 16 - (16 - k) = k by omega]
  ring

theorem map_getD_range (bs : Bytes) (k : ℕ) {n : ℕ} (hn : k + n ≤ bs.length) :
    (List.range n).map (fun i => bs.getD (k + i) 0) = (bs.drop k).take n := by
  apply List.ext_getElem
  · rw [List.length_map, List.length_range, List.length_take, List.length_drop]
    omega
  · intro i hi _
    rw [List.length_map, List.length_range] at hi
    rw [List.getElem_map, List.getElem_range, List.getElem_take, List.getElem_drop,
      List.getD_eq_getElem _ _ (by omega)]

/-- The shuffle that moves the bytes up. -/
theorem pshufb_up {k : ℕ} (hk : k ≤ 16) (v : BitVec 128) :
    pshufb v (ofBytes (List.replicate k 255 ++ (List.range (16 - k)).map UInt8.ofNat))
      = bytesUp k v := by
  have hlen : (List.replicate k 255 ++ (List.range (16 - k)).map UInt8.ofNat).length = 16 := by
    rw [List.length_append, List.length_replicate, List.length_map, List.length_range]
    omega
  have hmap : (List.range (16 - k)).map (fun i =>
      if 128 ≤ (UInt8.ofNat i).toNat then 0 else (toBytes v).getD ((UInt8.ofNat i).toNat % 16) 0)
      = (List.range (16 - k)).map (fun i => (toBytes v).getD (0 + i) 0) := by
    apply List.map_congr_left
    intro i hi
    rw [List.mem_range] at hi
    rw [UInt8.toNat_ofNat', if_neg (by omega), zero_add]
    congr 1
    omega
  unfold pshufb bytesUp
  rw [toBytes_ofBytes hlen, List.map_append, List.map_replicate, List.map_map]
  congr 2
  show (List.range (16 - k)).map _ = _
  rw [show ((toBytes v).take (16 - k)) = ((toBytes v).drop 0).take (16 - k) from rfl,
    ← map_getD_range _ _ (by rw [length_toBytes]; omega), ← hmap]
  rfl

/-- The shuffle that moves the bytes down. -/
theorem pshufb_down {k : ℕ} (hk : k ≤ 16) (v : BitVec 128) :
    pshufb v (ofBytes ((List.range (16 - k)).map (fun i => UInt8.ofNat (k + i))
        ++ List.replicate k 255)) = bytesDown k v := by
  have hlen : ((List.range (16 - k)).map (fun i => UInt8.ofNat (k + i))
      ++ List.replicate k 255).length = 16 := by
    rw [List.length_append, List.length_replicate, List.length_map, List.length_range]
    omega
  have hmap : (List.range (16 - k)).map (fun i =>
      if 128 ≤ (UInt8.ofNat (k + i)).toNat then 0
        else (toBytes v).getD ((UInt8.ofNat (k + i)).toNat % 16) 0)
      = (List.range (16 - k)).map (fun i => (toBytes v).getD (k + i) 0) := by
    apply List.map_congr_left
    intro i hi
    rw [List.mem_range] at hi
    rw [UInt8.toNat_ofNat', if_neg (by omega)]
    congr 1
    omega
  have htake : ((toBytes v).drop k).take (16 - k) = (toBytes v).drop k := by
    apply List.take_of_length_le
    rw [List.length_drop, length_toBytes]
  unfold pshufb bytesDown
  rw [toBytes_ofBytes hlen, List.map_append, List.map_replicate, List.map_map]
  congr 2
  show (List.range (16 - k)).map _ = _
  rw [← htake, ← map_getD_range _ _ (by rw [length_toBytes]; omega), ← hmap]
  rfl

/-- Masks of ones and of zeros. -/
theorem zipWith_and_ones (bs : Bytes) :
    List.zipWith (· &&& ·) bs (List.replicate bs.length 255) = bs := by
  induction bs with
  | nil => rfl
  | cons b bs ih =>
    have hb : b &&& 255 = b := UInt8.and_neg_one
    rw [List.length_cons, List.replicate_succ, List.zipWith_cons_cons, ih, hb]

theorem zipWith_and_zeros (bs : Bytes) :
    List.zipWith (· &&& ·) bs (List.replicate bs.length 0) = List.replicate bs.length 0 := by
  induction bs with
  | nil => rfl
  | cons b bs ih =>
    rw [List.length_cons, List.replicate_succ, List.zipWith_cons_cons, ih, UInt8.and_zero]

/-- The first `k` bytes are cleared. -/
theorem toBytes_and_ones {k : ℕ} (hk : k ≤ 16) (v : BitVec 128) :
    toBytes (v &&& bytesUp k (BitVec.allOnes 128)) = List.replicate k 0 ++ (toBytes v).drop k := by
  have hones : toBytes (BitVec.allOnes 128) = List.replicate 16 255 := by decide
  have hlow : ((toBytes v).take k).length = k := by
    rw [List.length_take, length_toBytes]
    omega
  have hhigh : ((toBytes v).drop k).length = 16 - k := by
    rw [List.length_drop, length_toBytes]
  have hzeros := zipWith_and_zeros ((toBytes v).take k)
  have hkept := zipWith_and_ones ((toBytes v).drop k)
  rw [hlow] at hzeros
  rw [hhigh] at hkept
  have hlen : ((toBytes v).take k).length = (List.replicate k (0 : UInt8)).length := by
    rw [hlow, List.length_replicate]
  have hand : List.zipWith (· &&& ·) ((toBytes v).take k ++ (toBytes v).drop k)
      (List.replicate k 0 ++ List.replicate (16 - k) 255)
      = List.zipWith (· &&& ·) ((toBytes v).take k) (List.replicate k 0)
        ++ List.zipWith (· &&& ·) ((toBytes v).drop k) (List.replicate (16 - k) 255) :=
    List.zipWith_append hlen
  rw [hzeros, hkept, List.take_append_drop] at hand
  rw [toBytes_and, toBytes_bytesUp hk, hones, List.take_replicate, min_eq_left (by omega), hand]

/-! ## Memory -/

/-- The `n` bytes from the address `p` on. -/
def bytesAt (mem : ℕ → UInt8) (p n : ℕ) : Bytes := (List.range n).map fun i => mem (p + i)

/-- The word at the address `p`. -/
def load (mem : ℕ → UInt8) (p : ℕ) : BitVec 128 := ofBytes (bytesAt mem p 16)

@[simp] theorem length_bytesAt (mem : ℕ → UInt8) (p n : ℕ) : (bytesAt mem p n).length = n := by
  unfold bytesAt
  rw [List.length_map, List.length_range]

/-- Bytes of the memory, one run after another. -/
theorem bytesAt_add (mem : ℕ → UInt8) (p m n : ℕ) :
    bytesAt mem p (m + n) = bytesAt mem p m ++ bytesAt mem (p + m) n := by
  unfold bytesAt
  rw [List.range_add, List.map_append, List.map_map]
  congr 1
  apply List.map_congr_left
  intro i _
  show mem (p + (m + i)) = mem (p + m + i)
  rw [add_assoc]

/-- What is loaded are sixteen bytes of the memory. -/
theorem toBytes_load (mem : ℕ → UInt8) (p : ℕ) : toBytes (load mem p) = bytesAt mem p 16 :=
  toBytes_ofBytes (length_bytesAt mem p 16)

theorem value_load (mem : ℕ → UInt8) (p : ℕ) :
    value poly (load mem p) = bytesValue poly (bytesAt mem p 16) := by
  rw [value_eq_bytesValue, toBytes_load]

theorem take_bytesAt (mem : ℕ → UInt8) (p : ℕ) {k n : ℕ} (hk : k ≤ n) :
    (bytesAt mem p n).take k = bytesAt mem p k := by
  obtain ⟨m, rfl⟩ := Nat.exists_eq_add_of_le hk
  rw [bytesAt_add, List.take_left' (length_bytesAt mem p k)]

theorem drop_bytesAt (mem : ℕ → UInt8) (p : ℕ) {k n : ℕ} (hk : k ≤ n) :
    (bytesAt mem p n).drop k = bytesAt mem (p + k) (n - k) := by
  obtain ⟨m, rfl⟩ := Nat.exists_eq_add_of_le hk
  rw [bytesAt_add, List.drop_left' (length_bytesAt mem p k), Nat.add_sub_cancel_left]

end CLib

