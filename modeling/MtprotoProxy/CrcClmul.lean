/-
# The CRC-32 with carry-less multiplications

`crc32_partial_clmul` folds a string 32 bytes at a time with carry-less products by powers of `x`,
and reduces what is left to a remainder.  The string lies anywhere in memory: the words at its ends
are loaded whole, and masks cut off the bytes around it.

In the ring of remainders the head, the loop and each of the tails is one equation about the class
of the words `D` and `E`, and the equations together give the remainder of
`crc32_partial_generic`.
-/
import MtprotoProxy.Crc32
import MtprotoProxy.SseWords

namespace MtprotoProxy

open CLib

/-! ## The code -/

def crc32ReflectedX319 : BitVec 64 := 0x9570d49500000000
def crc32ReflectedX255 : BitVec 64 := 0x01b5fd1d00000000
def crc32ReflectedX191 : BitVec 64 := 0x65673b4600000000
def crc32ReflectedX127 : BitVec 64 := 0x9ba54c6f00000000
def crc32ReflectedX95 : BitVec 64 := 0xccaa009e00000000
def crc32ReflectedX63 : BitVec 64 := 0xb8bc676500000000

def crc32K256 : BitVec 128 := v2di crc32ReflectedX319 crc32ReflectedX255
def crc32K128 : BitVec 128 := v2di crc32ReflectedX191 crc32ReflectedX127
def crc32K64 : BitVec 128 := v2di crc32ReflectedX95 crc32ReflectedX63

def mask : Bytes :=
  List.replicate 16 0 ++ List.replicate 16 255
    ++ [0, 1, 2, 3, 4, 5, 6, 7, 8, 9, 10, 11, 12, 13, 14, 15] ++ List.replicate 16 255

/-- The word at `mask + n`. -/
def maskWord (n : ℕ) : BitVec 128 := ofBytes ((mask.drop n).take 16)

/-- The loop of `crcXX_partial_clmul`, 32 bytes a round. -/
def clmulLoop (mem : ℕ → UInt8) (K256 : BitVec 128) :
    ℕ → ℕ → BitVec 128 → BitVec 128 → ℕ × BitVec 128 × BitVec 128
  | 0, q, D, E => (q, D, E)
  | x + 1, q, D, E =>
    let G := load mem q ^^^ pclmulqdq D K256 0x00
    let H := load mem (q + 16) ^^^ pclmulqdq E K256 0x00
    let D := pclmulqdq D K256 0x11
    let E := pclmulqdq E K256 0x11
    clmulLoop mem K256 x (q + 32) (D ^^^ G) (E ^^^ H)

/-- `crcXX_partial_clmul`. -/
def crcXXPartialClmul (mem : ℕ → UInt8) (q len : ℕ) (D E K256 K128 : BitVec 128) : BitVec 128 :=
  let (q, D, E) := clmulLoop mem K256 (len / 32) q D E
  let (q, D) :=
    if len &&& 16 ≠ 0 then
      let G := pclmulqdq D K256 0x00
      let H := pclmulqdq E K128 0x00
      let D := pclmulqdq D K256 0x11
      let E := pclmulqdq E K128 0x11
      (q + 16, D ^^^ (load mem q ^^^ G ^^^ H ^^^ E))
    else
      let G := pclmulqdq D K128 0x00
      let D := pclmulqdq D K128 0x11
      (q, D ^^^ (G ^^^ E))
  let len := len % 16
  if len ≠ 0 then
    let E := pshufb D (maskWord (32 + len))
    let H := maskWord (16 + len)
    let D := pshufb D H
    let E := E ^^^ pshufb (load mem q) H
    let G := pclmulqdq D K128 0x00
    let D := pclmulqdq D K128 0x11
    D ^^^ (G ^^^ E)
  else D

/-- The first two words of `crc32_partial_clmul`, with the start value added. -/
def clmulHead (mem : ℕ → UInt8) (data : ℕ) (crc : BitVec 32) : BitVec 128 × BitVec 128 :=
  let q := data - data % 16
  let o := 32 - data % 16
  let D := load mem q
  let E := load mem (q + 16)
  let C := crc.setWidth 128
  let H := maskWord o
  let G := pshufb (BitVec.allOnes 128) H
  let D := (D ^^^ pshufb C H) &&& G
  let E := if o ≤ 19 then E ^^^ pshufb C (maskWord (16 + o)) else E
  (D, E)

/-- The reduction at the end of `crc32_partial_clmul`. -/
def clmulReduce (D : BitVec 128) : BitVec 32 :=
  let D := pslldqi (psrldqi D 64) 32 ^^^ pclmulqdq D crc32K64 0x00
  let D := D ^^^ pclmulqdq D crc32K64 0x10
  let D := punpckhqdq D D
  let lo : BitVec 32 := (loHalf D).setWidth 32
  let hi : BitVec 32 := (loHalf D >>> 32).setWidth 32
  crc32Table0.getD (lo &&& 0xff).toNat 0
    ^^^ crc32Table1.getD ((lo &&& 0xff00) >>> 8).toNat 0
    ^^^ crc32Table2.getD ((lo &&& 0xff0000) >>> 16).toNat 0
    ^^^ crc32Table.getD (lo >>> 24).toNat 0 ^^^ hi

/-- `crc32_partial_clmul` on the `len` bytes at `data`. -/
def crc32PartialClmul (mem : ℕ → UInt8) (data len : ℕ) (crc : BitVec 32) : BitVec 32 :=
  if len < 40 then crc32PartialGeneric (bytesAt mem data len) len crc
  else
    let q := data - data % 16
    let o := 32 - data % 16
    let (D, E) := clmulHead mem data crc
    clmulReduce (crcXXPartialClmul mem (q + 32) (len - o) D E crc32K256 crc32K128)

/-! ## The masks -/

theorem maskWord_up {k : ℕ} (hk : k ≤ 16) (v : BitVec 128) :
    pshufb v (maskWord (16 + k)) = bytesUp (16 - k) v := by
  have hmask : ∀ k ≤ 16, (mask.drop (16 + k)).take 16
      = List.replicate (16 - k) 255 ++ (List.range (16 - (16 - k))).map UInt8.ofNat := by decide
  unfold maskWord
  rw [hmask k hk, pshufb_up (by omega)]

theorem maskWord_down {k : ℕ} (hk : k ≤ 16) (v : BitVec 128) :
    pshufb v (maskWord (32 + k)) = bytesDown k v := by
  have hmask : ∀ k ≤ 16, (mask.drop (32 + k)).take 16
      = (List.range (16 - k)).map (fun i => UInt8.ofNat (k + i)) ++ List.replicate k 255 := by decide
  unfold maskWord
  rw [hmask k hk, pshufb_down hk]

/-! ## Folding -/

section Fold

variable {w : ℕ} {poly : BitVec w}
variable {mem : ℕ → UInt8} {K256 K128 : BitVec 128} {q : ℕ} {D E : BitVec 128}

/-- The class that `D` and `E` stand for together. -/
noncomputable def pairValue (poly : BitVec w) (D E : BitVec 128) : CrcRing poly :=
  crcX poly ^ 128 * value poly D + value poly E

/-- What the loop has when it has gone through `x` rounds. -/
theorem clmulLoop_spec (mem : ℕ → UInt8) (h : Folds poly K256 256) (x : ℕ) (q : ℕ) (D E : BitVec 128) :
    ∃ D' E', clmulLoop mem K256 x q D E = (q + 32 * x, D', E') ∧
      pairValue poly D' E' = crcX poly ^ (8 * (32 * x)) * pairValue poly D E
        + bytesValue poly (bytesAt mem q (32 * x)) := by
  induction x generalizing q D E with
  | zero =>
    refine ⟨D, E, rfl, ?_⟩
    have hnil : bytesAt mem q (32 * 0) = [] := rfl
    rw [hnil, bytesValue_nil, mul_zero, mul_zero, pow_zero, one_mul, add_zero]
  | succ x ih =>
    obtain ⟨D', E', hrun, hvalue⟩ := ih (q + 32)
      (pclmulqdq D K256 0x11 ^^^ (load mem q ^^^ pclmulqdq D K256 0x00))
      (pclmulqdq E K256 0x11 ^^^ (load mem (q + 16) ^^^ pclmulqdq E K256 0x00))
    have hD := h.value_eq D
    have hE := h.value_eq E
    have hbytes : bytesValue poly (bytesAt mem q (32 * (x + 1)))
        = crcX poly ^ (8 * (32 * x)) * (crcX poly ^ 128 * value poly (load mem q)
            + value poly (load mem (q + 16)))
          + bytesValue poly (bytesAt mem (q + 32) (32 * x)) := by
      rw [show 32 * (x + 1) = 16 + 16 + 32 * x by ring, bytesAt_add, bytesValue_append, bytesAt_add,
        bytesValue_append, value_load, value_load, length_bytesAt, length_bytesAt]
    refine ⟨D', E', ?_, ?_⟩
    · show clmulLoop mem K256 x (q + 32) _ _ = _
      rw [hrun]
      congr 1
      ring
    · rw [hvalue, hbytes]
      unfold pairValue
      rw [value_xor, value_xor, value_xor, value_xor]
      linear_combination crcX poly ^ (8 * (32 * x)) * (crcX poly ^ 128 * hD + hE)

/-- The last full word, or none. -/
theorem clmulWord_value (h256 : Folds poly K256 256) (h128 : Folds poly K128 128) :
    value poly (pclmulqdq D K256 0x11 ^^^ (load mem q ^^^ pclmulqdq D K256 0x00
        ^^^ pclmulqdq E K128 0x00 ^^^ pclmulqdq E K128 0x11))
      = crcX poly ^ (8 * 16) * pairValue poly D E + bytesValue poly (bytesAt mem q 16) := by
  have hD := h256.value_eq D
  have hE := h128.value_eq E
  unfold pairValue
  rw [value_xor, value_xor, value_xor, value_xor, value_load]
  linear_combination hD + hE

theorem clmulNoWord_value (h128 : Folds poly K128 128) :
    value poly (pclmulqdq D K128 0x11 ^^^ (pclmulqdq D K128 0x00 ^^^ E)) = pairValue poly D E := by
  have hD := h128.value_eq D
  unfold pairValue
  rw [value_xor, value_xor]
  linear_combination hD

/-- The last bytes. -/
theorem clmulTail_pairValue {t : ℕ} (ht : t ≤ 16) :
    pairValue poly (pshufb D (maskWord (16 + t)))
        (pshufb D (maskWord (32 + t)) ^^^ pshufb (load mem q) (maskWord (16 + t)))
      = crcX poly ^ (8 * t) * value poly D + bytesValue poly (bytesAt mem q t) := by
  have hbytes : (toBytes (load mem q)).take (16 - (16 - t)) = bytesAt mem q t := by
    rw [toBytes_load, take_bytesAt mem q (by omega), show 16 - (16 - t) = t by omega]
  unfold pairValue
  rw [maskWord_up ht, maskWord_up ht, maskWord_down ht, value_xor, ← add_assoc,
    value_bytesUp_bytesDown poly ht, value_bytesUp (by omega), hbytes]

/-- **`crcXX_partial_clmul`**, in the ring. -/
theorem value_crcXXPartialClmul (h256 : Folds poly K256 256) (h128 : Folds poly K128 128)
    (len : ℕ) :
    value poly (crcXXPartialClmul mem q len D E K256 K128)
      = crcX poly ^ (8 * len) * pairValue poly D E + bytesValue poly (bytesAt mem q len) := by
  have hjoin (c : CrcRing poly) (p m n : ℕ) :
      crcX poly ^ (8 * n) * (crcX poly ^ (8 * m) * c + bytesValue poly (bytesAt mem p m))
          + bytesValue poly (bytesAt mem (p + m) n)
        = crcX poly ^ (8 * (m + n)) * c + bytesValue poly (bytesAt mem p (m + n)) := by
    rw [bytesAt_add, bytesValue_append, length_bytesAt]
    ring
  obtain ⟨D₁, E₁, hrun, hloop⟩ := clmulLoop_spec mem h256 (len / 32) q D E
  set n₁ := 32 * (len / 32) with hn₁
  set n₂ := n₁ + 16 * (len / 16 % 2) with hn₂
  -- the word before the last bytes
  obtain ⟨D₂, hword, hvalue⟩ : ∃ D₂, (if len &&& 16 ≠ 0 then
        (q + n₁ + 16, pclmulqdq D₁ K256 0x11 ^^^ (load mem (q + n₁) ^^^ pclmulqdq D₁ K256 0x00
          ^^^ pclmulqdq E₁ K128 0x00 ^^^ pclmulqdq E₁ K128 0x11))
      else (q + n₁, pclmulqdq D₁ K128 0x11 ^^^ (pclmulqdq D₁ K128 0x00 ^^^ E₁))) = (q + n₂, D₂) ∧
      value poly D₂ = crcX poly ^ (8 * n₂) * pairValue poly D E
        + bytesValue poly (bytesAt mem q n₂) := by
    have hbit := and_pow_ne_zero len 4
    split_ifs with hset
    · have hone : len / 16 % 2 = 1 := hbit.mp hset
      have hnext : n₂ = n₁ + 16 := by rw [hn₂, hone, mul_one]
      refine ⟨_, by rw [hnext, ← add_assoc], ?_⟩
      rw [clmulWord_value h256 h128, hloop, hjoin, hnext]
    · have hnone : len / 16 % 2 = 0 := by
        have := mt hbit.mpr hset
        omega
      have hsame : n₂ = n₁ := by rw [hn₂, hnone, mul_zero, add_zero]
      refine ⟨_, by rw [hsame], ?_⟩
      rw [clmulNoWord_value h128, hloop, hsame]
  have hlen : n₂ + len % 16 = len := by omega
  unfold crcXXPartialClmul
  rw [hrun]
  dsimp only
  rw [hword]
  dsimp only
  split_ifs with hrest
  · rw [clmulNoWord_value h128, clmulTail_pairValue (by omega), hvalue, hjoin, hlen]
  · rw [hvalue, show n₂ = len by omega]

end Fold

/-! ## The head -/

/-- The bytes behind the start value are clear. -/
theorem value_bytesDown_crc {k : ℕ} (hk : 4 ≤ k) (hk' : k ≤ 16) (crc : BitVec 32) :
    value crcPoly (bytesDown k (crc.setWidth 128)) = 0 := by
  have hcrc : leWord (toBytes (crc.setWidth 128)) < 2 ^ 32 := by
    unfold toBytes
    rw [leWord_leBytes, BitVec.toNat_setWidth]
    have := crc.isLt
    omega
  have hsplit := leWord_append ((toBytes (crc.setWidth 128)).take k)
    ((toBytes (crc.setWidth 128)).drop k)
  rw [List.take_append_drop, List.length_take, length_toBytes, min_eq_left hk'] at hsplit
  have hpow : 2 ^ 32 ≤ 2 ^ (8 * k) := Nat.pow_le_pow_right two_pos (by omega)
  have hzero : leWord ((toBytes (crc.setWidth 128)).drop k) = 0 := by
    by_contra hne
    have hle : 2 ^ (8 * k) ≤ 2 ^ (8 * k) * leWord ((toBytes (crc.setWidth 128)).drop k) :=
      Nat.le_mul_of_pos_right _ (Nat.pos_of_ne_zero hne)
    omega
  rw [value_bytesDown hk']
  unfold bytesValue
  rw [hzero, natValue_zero, mul_zero]

/-- **The head**: the bytes from `data` on to the end of the second word, after the start value. -/
theorem pairValue_clmulHead (mem : ℕ → UInt8) (data : ℕ) (crc : BitVec 32) :
    pairValue crcPoly (clmulHead mem data crc).1 (clmulHead mem data crc).2
      = crcX crcPoly ^ (8 * (28 - data % 16)) * value crcPoly crc
        + bytesValue crcPoly (bytesAt mem data (32 - data % 16)) := by
  have hlt : data % 16 < 16 := Nat.mod_lt _ (by norm_num)
  have hC := value_setWidth crcPoly 96 crc
  have hdata : data - data % 16 + data % 16 = data := by omega
  have hmask : 32 - data % 16 = 16 + (16 - data % 16) := by omega
  have hmask' : 16 + (32 - data % 16) = 32 + (16 - data % 16) := by omega
  unfold clmulHead
  dsimp only
  rw [hmask', hmask, maskWord_up (by omega), maskWord_up (by omega), maskWord_down (by omega)]
  generalize data % 16 = a at hlt hdata ⊢
  generalize data - a = q at hdata ⊢
  subst hdata
  have hback : 16 - (16 - a) = a := by omega
  rw [hback]
  -- the first word: its bytes before `data` are cleared
  have hword (v : BitVec 128) : value crcPoly (v &&& bytesUp a (BitVec.allOnes 128))
      = bytesValue crcPoly ((toBytes v).drop a) := by
    rw [value_eq_bytesValue, toBytes_and_ones (by omega), bytesValue_replicate_append]
  have hD : value crcPoly ((load mem q ^^^ bytesUp a (crc.setWidth 128))
        &&& bytesUp a (BitVec.allOnes 128))
      = bytesValue crcPoly (bytesAt mem (q + a) (16 - a))
        + value crcPoly (bytesUp a (crc.setWidth 128)) := by
    have hdrop : (toBytes (bytesUp a (crc.setWidth 128))).drop a
        = (toBytes (crc.setWidth 128)).take (16 - a) := by
      rw [toBytes_bytesUp (by omega), List.drop_left' List.length_replicate]
    rw [xor_and_distrib, value_xor, hword, hword, toBytes_load, drop_bytesAt mem q (by omega),
      hdrop, value_bytesUp (by omega)]
  -- the second word: of the start value it has what the first one has no place for
  have hE : value crcPoly (if 16 + (16 - a) ≤ 19
        then load mem (q + 16) ^^^ bytesDown (16 - a) (crc.setWidth 128) else load mem (q + 16))
      = bytesValue crcPoly (bytesAt mem (q + 16) 16)
        + value crcPoly (bytesDown (16 - a) (crc.setWidth 128)) := by
    split_ifs with hfew
    · rw [value_xor, value_load]
    · rw [value_bytesDown_crc (by omega) (by omega), add_zero, value_load]
  have hmoved := value_bytesUp_bytesDown crcPoly (by omega : 16 - a ≤ 16)
    (crc.setWidth 128)
  rw [hback, hC] at hmoved
  have hbytes : bytesValue crcPoly (bytesAt mem (q + a) (16 + (16 - a)))
      = crcX crcPoly ^ 128 * bytesValue crcPoly (bytesAt mem (q + a) (16 - a))
        + bytesValue crcPoly (bytesAt mem (q + 16) 16) := by
    rw [add_comm 16, bytesAt_add, bytesValue_append, length_bytesAt, add_assoc,
      show a + (16 - a) = 16 by omega]
  have hpow : crcX crcPoly ^ (8 * (28 - a))
      = crcX crcPoly ^ (8 * (16 - a)) * crcX crcPoly ^ 96 := by
    rw [← pow_add]
    congr 1
    omega
  unfold pairValue
  rw [hD, hE, hbytes, hpow]
  linear_combination hmoved

/-! ## The reduction -/

/-- Powers of `x`, bit by bit. -/
def crcPower (k : ℕ) : BitVec 32 := crcShifts crcPoly k (BitVec.twoPow 32 31)

theorem value_crcPower (k : ℕ) : value crcPoly (crcPower k) = crcX crcPoly ^ k := by
  have hone : value crcPoly (BitVec.twoPow 32 (32 - 1 - 0)) = crcX crcPoly ^ 0 :=
    value_twoPow (by norm_num)
  unfold crcPower
  rw [value_crcShifts]
  exact (congrArg _ hone).trans (mul_one _)

theorem crc32Reflected_eq :
    crc32ReflectedX319 = crcPower 319 ++ 0#32 ∧ crc32ReflectedX255 = crcPower 255 ++ 0#32 ∧
    crc32ReflectedX191 = crcPower 191 ++ 0#32 ∧ crc32ReflectedX127 = crcPower 127 ++ 0#32 ∧
    crc32ReflectedX95 = crcPower 95 ++ 0#32 ∧ crc32ReflectedX63 = crcPower 63 ++ 0#32 := by
  decide +kernel

theorem crc32K256_folds : Folds crcPoly crc32K256 256 := by
  obtain ⟨hlo, hhi, -⟩ := crc32Reflected_eq
  constructor
  · unfold crc32K256
    rw [loHalf_v2di, hlo, value_append_zero, value_crcPower]
  · unfold crc32K256
    rw [hiHalf_v2di, hhi, value_append_zero, value_crcPower, ← pow_succ']

theorem crc32K128_folds : Folds crcPoly crc32K128 128 := by
  obtain ⟨-, -, hlo, hhi, -⟩ := crc32Reflected_eq
  constructor
  · unfold crc32K128
    rw [loHalf_v2di, hlo, value_append_zero, value_crcPower]
  · unfold crc32K128
    rw [hiHalf_v2di, hhi, value_append_zero, value_crcPower, ← pow_succ']

/-- The two words of the last half: the tables move the low one over the high one. -/
theorem value_lastWords (W : BitVec 64) :
    value crcPoly (crc32Tables.doOne (W.setWidth 32) 0 ^^^ (W >>> 32).setWidth 32)
      = value crcPoly W := by
  rw [value_xor, crc32Tables.doOne_eq_shifts, value_crcShifts, value_words W]
  congr 3
  exact BitVec.xor_zero

/-- **The reduction** multiplies by `x ^ 32`. -/
theorem value_clmulReduce (D : BitVec 128) :
    value crcPoly (clmulReduce D) = crcX crcPoly ^ 32 * value crcPoly D := by
  obtain ⟨-, -, -, -, h95, h63⟩ := crc32Reflected_eq
  -- 128 bits to 96: the low 32 bits are clear from here on
  set D₁ := pslldqi (psrldqi D 64) 32 ^^^ pclmulqdq D crc32K64 0x00 with hD₁
  have hfirst : pclmulqdq D crc32K64 0x00 = clmul (loHalf D) crc32ReflectedX95 := by
    show clmul (loHalf D) (loHalf crc32K64) = _
    rw [crc32K64, loHalf_v2di]
  have hvalue₁ : value crcPoly D₁ = crcX crcPoly ^ 32 * value crcPoly D := by
    rw [hD₁, value_xor, value_pslldqi_psrldqi (by norm_num), hfirst, value_clmul, h95,
      value_append_zero, value_crcPower, value_halves D]
    ring
  have hclear₁ : LowClear 32 (loHalf D₁) := by
    have hproduct : LowClear (0 + 32) (clmul (loHalf D) crc32ReflectedX95) := by
      apply (LowClear.zero _).clmul
      rw [h95]
      exact LowClear.append_zero _
    rw [zero_add, ← hfirst] at hproduct
    exact ((LowClear.pslldqi (by norm_num) _).xor hproduct).loHalf (by norm_num)
  -- 96 bits to 64: the product has nothing in the low half
  set P := pclmulqdq D₁ crc32K64 0x10 with hP
  have hsecond : P = clmul (loHalf D₁) crc32ReflectedX63 := by
    show clmul (loHalf D₁) (hiHalf crc32K64) = _
    rw [crc32K64, hiHalf_v2di]
  have hclear₂ : LowClear 64 P := by
    rw [hsecond, h63]
    exact hclear₁.clmul (LowClear.append_zero (crcPower 63))
  have hPvalue : value crcPoly P = crcX crcPoly ^ 64 * value crcPoly (loHalf D₁) := by
    rw [hsecond, value_clmul, h63, value_append_zero, value_crcPower]
    ring
  have hvalue₂ := value_hiHalf_fold hclear₂ hPvalue
  have hlast := value_lastWords (hiHalf (D₁ ^^^ P))
  have hreduce : clmulReduce D = crc32Tables.doOne ((hiHalf (D₁ ^^^ P)).setWidth 32) 0
      ^^^ (hiHalf (D₁ ^^^ P) >>> 32).setWidth 32 := by
    have hzero (x : BitVec 32) : x ^^^ 0 = x := BitVec.xor_zero
    unfold clmulReduce FourTables.doOne
    simp only [punpckhqdq, loHalf_append, hzero]
    rfl
  rw [hreduce, hlast, hvalue₂, hvalue₁]

/-! ## The whole -/

/-- **`crc32_partial_clmul` is the bit-by-bit CRC**, wherever the bytes lie. -/
theorem crc32PartialClmul_eq (mem : ℕ → UInt8) (data len : ℕ) (crc : BitVec 32) :
    crc32PartialClmul mem data len crc = crc32Bits crc (bytesAt mem data len) := by
  unfold crc32PartialClmul
  split_ifs with hshort
  · rw [crc32PartialGeneric_eq crc (by rw [length_bytesAt]),
      List.take_of_length_le (by rw [length_bytesAt])]
  · have hlt : data % 16 < 16 := Nat.mod_lt _ (by norm_num)
    have hq : data - data % 16 + 32 = data + (32 - data % 16) := by omega
    have hlen : len = 32 - data % 16 + (len - (32 - data % 16)) := by omega
    have hlen' : 8 * (len - (32 - data % 16)) + 8 * (28 - data % 16) + 32 = 8 * len := by omega
    have hbytes : bytesValue crcPoly (bytesAt mem data len)
        = crcX crcPoly ^ (8 * (len - (32 - data % 16)))
            * bytesValue crcPoly (bytesAt mem data (32 - data % 16))
          + bytesValue crcPoly
              (bytesAt mem (data + (32 - data % 16)) (len - (32 - data % 16))) := by
      conv_lhs => rw [hlen, bytesAt_add, bytesValue_append, length_bytesAt]
    apply value_injective crcPoly
    dsimp only
    rw [crc32Bits, value_crcBytes, length_bytesAt, value_clmulReduce,
      value_crcXXPartialClmul crc32K256_folds crc32K128_folds, pairValue_clmulHead, hq, hbytes,
      ← hlen', pow_add, pow_add]
    ring

/-- **The two ways to calculate a CRC-32 agree**, whatever lies around the bytes. -/
theorem crc32PartialClmul_eq_generic (mem : ℕ → UInt8) (data len : ℕ) (crc : BitVec 32) :
    crc32PartialClmul mem data len crc
      = crc32PartialGeneric (bytesAt mem data len) len crc := by
  rw [crc32PartialClmul_eq, crc32PartialGeneric_eq crc (by rw [length_bytesAt]),
    List.take_of_length_le (by rw [length_bytesAt])]

end MtprotoProxy
