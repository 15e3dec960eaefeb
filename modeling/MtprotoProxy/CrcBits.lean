/-
# Reflected cyclic redundancy checks

The bit-by-bit CRC of a polynomial whose bits are reflected, over words of any width: the remainder
moves one place to the right for each bit of the message, and the polynomial is added where the
bit that falls out differs from that of the message.

A shift of the remainder is linear, so that a table of the shifts of a byte replaces eight of them
(`crcShifts_split`), and a message may be cut into pieces anywhere (`crcBytes_append`).

This file names nothing of the proxy.
-/
import MtprotoProxy.CInt

namespace CLib

variable {w : ℕ}

/-! ## The definition -/

/-- The remainder `c` moves one place, and the polynomial is added for the bit that falls out. -/
def crcShift (poly c : BitVec w) : BitVec w :=
  if c.getLsbD 0 then (c >>> 1) ^^^ poly else c >>> 1

/-- One bit of the message. -/
def crcBit (poly c : BitVec w) (b : Bool) : BitVec w :=
  if (c.getLsbD 0).xor b then (c >>> 1) ^^^ poly else c >>> 1

/-- The bits of a byte, the lowest first. -/
def byteBits (b : UInt8) : List Bool := (List.range 8).map b.toBitVec.getLsbD

/-- The remainder after a byte. -/
def crcByte (poly c : BitVec w) (b : UInt8) : BitVec w := (byteBits b).foldl (crcBit poly) c

/-- The remainder after a string. -/
def crcBytes (poly c : BitVec w) (bs : Bytes) : BitVec w := bs.foldl (crcByte poly) c

theorem crcBytes_append (poly c : BitVec w) (bs cs : Bytes) :
    crcBytes poly c (bs ++ cs) = crcBytes poly (crcBytes poly c bs) cs :=
  List.foldl_append

/-- A string in pieces. -/
theorem foldl_crcBytes (poly c : BitVec w) (pieces : List Bytes) :
    pieces.foldl (crcBytes poly) c = crcBytes poly c pieces.flatten := by
  induction pieces generalizing c with
  | nil => rfl
  | cons piece pieces ih =>
    rw [List.foldl_cons, List.flatten_cons, crcBytes_append]
    exact ih _

/-! ## Linearity -/

theorem crcShift_xor (poly a b : BitVec w) :
    crcShift poly (a ^^^ b) = crcShift poly a ^^^ crcShift poly b := by
  unfold crcShift
  rw [BitVec.getLsbD_xor, BitVec.ushiftRight_xor_distrib]
  cases a.getLsbD 0 <;> cases b.getLsbD 0
  · rfl
  · exact BitVec.xor_assoc _ _ _
  · change a >>> 1 ^^^ b >>> 1 ^^^ poly = a >>> 1 ^^^ poly ^^^ b >>> 1
    ac_rfl
  · change a >>> 1 ^^^ b >>> 1 = a >>> 1 ^^^ poly ^^^ (b >>> 1 ^^^ poly)
    have hcancel : a >>> 1 ^^^ poly ^^^ (b >>> 1 ^^^ poly)
        = a >>> 1 ^^^ b >>> 1 ^^^ (poly ^^^ poly) := by ac_rfl
    rw [hcancel, BitVec.xor_self, BitVec.xor_zero]

/-- `n` shifts. -/
def crcShifts (poly : BitVec w) (n : ℕ) (c : BitVec w) : BitVec w := (crcShift poly)^[n] c

theorem crcShifts_xor (poly : BitVec w) (n : ℕ) (a b : BitVec w) :
    crcShifts poly n (a ^^^ b) = crcShifts poly n a ^^^ crcShifts poly n b := by
  induction n generalizing a b with
  | zero => rfl
  | succ n ih =>
    have hstep := crcShift_xor poly a b
    unfold crcShifts at *
    rw [Function.iterate_succ_apply, Function.iterate_succ_apply, Function.iterate_succ_apply,
      hstep, ih]

theorem crcShifts_add (poly : BitVec w) (m n : ℕ) (c : BitVec w) :
    crcShifts poly (m + n) c = crcShifts poly m (crcShifts poly n c) :=
  Function.iterate_add_apply _ m n c

/-- Bits that are clear fall out without a trace. -/
theorem crcShifts_of_low {poly c : BitVec w} {n : ℕ} (h : ∀ i < n, c.getLsbD i = false) :
    crcShifts poly n c = c >>> n := by
  induction n with
  | zero => exact (BitVec.ushiftRight_zero c).symm
  | succ n ih =>
    have hlow : (c >>> n).getLsbD 0 = false := by
      rw [BitVec.getLsbD_ushiftRight, Nat.add_zero]
      exact h n (Nat.lt_succ_self n)
    have hprev := ih (fun i hi => h i (Nat.lt_succ_of_lt hi))
    unfold crcShifts at *
    rw [Function.iterate_succ_apply', hprev, crcShift, hlow, if_neg Bool.false_ne_true,
      ← BitVec.shiftRight_add]

theorem crcBit_eq (poly c : BitVec w) (b : Bool) :
    crcBit poly c b = crcShift poly c ^^^ crcBit poly 0#w b := by
  unfold crcBit crcShift
  rw [BitVec.getLsbD_zero, BitVec.zero_ushiftRight, Bool.false_xor]
  cases c.getLsbD 0 <;> cases b
  · exact (BitVec.xor_zero).symm
  · change c >>> 1 ^^^ poly = c >>> 1 ^^^ (0#w ^^^ poly)
    rw [BitVec.zero_xor]
  · exact (BitVec.xor_zero).symm
  · change c >>> 1 = c >>> 1 ^^^ poly ^^^ (0#w ^^^ poly)
    rw [BitVec.zero_xor, BitVec.xor_assoc, BitVec.xor_self, BitVec.xor_zero]

/-- What the remainder was, and what the message adds, are apart. -/
theorem foldl_crcBit (poly c : BitVec w) (bits : List Bool) :
    bits.foldl (crcBit poly) c
      = crcShifts poly bits.length c ^^^ bits.foldl (crcBit poly) 0#w := by
  induction bits generalizing c with
  | nil => exact (BitVec.xor_zero).symm
  | cons b bits ih =>
    have hsucc (x : BitVec w) :
        crcShifts poly (bits.length + 1) x = crcShifts poly bits.length (crcShift poly x) :=
      Function.iterate_succ_apply _ _ _
    rw [List.foldl_cons, List.foldl_cons, ih, ih (crcBit poly 0#w b), crcBit_eq, crcShifts_xor,
      List.length_cons, hsucc, BitVec.xor_assoc]

/-! ## Tables -/

/-- The low byte and the rest of a word. -/
theorem xor_low_high (c : BitVec w) : c = (c &&& 255#w) ^^^ (c &&& ~~~255#w) := by
  apply BitVec.eq_of_getLsbD_eq
  intro i hi
  rw [BitVec.getLsbD_xor, BitVec.getLsbD_and, BitVec.getLsbD_and, BitVec.getLsbD_not,
    decide_eq_true hi]
  cases c.getLsbD i <;> cases (255#w).getLsbD i <;> rfl

theorem getLsbD_255 (i : ℕ) : (255#w).getLsbD i = (decide (i < w) && decide (i < 8)) := by
  rw [BitVec.getLsbD_ofNat, show (255 : ℕ) = 2 ^ 8 - 1 from rfl, Nat.testBit_two_pow_sub_one]

/-- **Eight shifts**: those of the low byte, and the rest of the word moved. -/
theorem crcShifts_eight (poly c : BitVec w) :
    crcShifts poly 8 c = crcShifts poly 8 (c &&& 255#w) ^^^ (c >>> 8) := by
  have hhigh : crcShifts poly 8 (c &&& ~~~255#w) = (c &&& ~~~255#w) >>> 8 := by
    apply crcShifts_of_low
    intro i hi
    rw [BitVec.getLsbD_and, BitVec.getLsbD_not, getLsbD_255, decide_eq_true hi]
    cases c.getLsbD i <;> cases decide (i < w) <;> rfl
  have hmoved : (c &&& ~~~255#w) >>> 8 = c >>> 8 := by
    apply BitVec.eq_of_getLsbD_eq
    intro i _
    rw [BitVec.getLsbD_ushiftRight, BitVec.getLsbD_ushiftRight, BitVec.getLsbD_and,
      BitVec.getLsbD_not, getLsbD_255, decide_eq_false (by omega : ¬ 8 + i < 8), Bool.and_false,
      Bool.not_false, Bool.and_true]
    by_cases hi : 8 + i < w
    · rw [decide_eq_true hi, Bool.and_true]
    · rw [BitVec.getLsbD_of_ge c (8 + i) (by omega), Bool.false_and]
  have hsplit := congrArg (crcShifts poly 8) (xor_low_high c)
  rwa [crcShifts_xor, hhigh, hmoved] at hsplit

/-- **A byte at a time**: the shifts of the low byte, and those of the rest from the next byte on. -/
theorem crcShifts_split (poly c : BitVec w) (n : ℕ) :
    crcShifts poly (n + 8) c
      = crcShifts poly (n + 8) (c &&& 255#w) ^^^ crcShifts poly n (c >>> 8) := by
  rw [crcShifts_add, crcShifts_add, crcShifts_eight, crcShifts_xor]

/-- A byte of the message is a word that the remainder is added to before eight shifts, when it is
so for the remainder 0. -/
theorem crcByte_eq {poly : BitVec w} {b : UInt8}
    (h : crcByte poly 0#w b = crcShifts poly 8 (b.toBitVec.setWidth w)) (c : BitVec w) :
    crcByte poly c b = crcShifts poly 8 (c ^^^ b.toBitVec.setWidth w) := by
  have hlinear := foldl_crcBit poly c (byteBits b)
  unfold crcByte at *
  rw [hlinear, h, crcShifts_xor]
  rfl

end CLib
