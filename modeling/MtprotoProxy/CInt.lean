/-
# Fixed-width integers and byte words of C

The arithmetic that a C program compiled with `-fwrapv` sees: an `int` is an
integer of `ℤ` brought back into `[-2^31, 2^31)` by `wrap32`, a `long long` is
an `Int64`, and words are assembled from bytes in little-endian order.

This file names nothing of the proxy; it only rests on `Int.bmod` and `Int64`.
-/
import Mathlib

namespace CLib

/-- A byte string in memory. -/
abbrev Bytes : Type := List UInt8

/-! ## `int` -/

/-- The value an `int` holds after an operation whose exact result is `x`. -/
def wrap32 (x : ℤ) : ℤ := Int.bmod x (2 ^ 32)

/-- The range of an `int`. -/
def IsInt32 (x : ℤ) : Prop := -2 ^ 31 ≤ x ∧ x < 2 ^ 31

instance (x : ℤ) : Decidable (IsInt32 x) := inferInstanceAs (Decidable (_ ∧ _))

/-- Wrapping always lands in the range of an `int`. -/
theorem isInt32_wrap32 (x : ℤ) : IsInt32 (wrap32 x) := by
  unfold IsInt32 wrap32
  have hlo := Int.le_bmod (x := x) (m := 2 ^ 32) (by norm_num)
  have hhi := Int.bmod_lt (x := x) (m := 2 ^ 32) (by norm_num)
  norm_num at hlo hhi ⊢
  omega

/-- Wrapping does nothing to a value that fits. -/
theorem wrap32_of_isInt32 {x : ℤ} (h : IsInt32 x) : wrap32 x = x := by
  unfold wrap32
  obtain ⟨hlo, hhi⟩ := h
  apply Int.bmod_eq_of_le <;> norm_num <;> omega

/-- Wrapping a value less than one period above the range subtracts a period. -/
theorem wrap32_of_ge {x : ℤ} (hlo : 2 ^ 31 ≤ x) (hhi : x < 2 ^ 32 + 2 ^ 31) :
    wrap32 x = x - 2 ^ 32 := by
  have hshift : wrap32 x = wrap32 (x - 2 ^ 32) := by
    unfold wrap32
    exact (Int.sub_bmod_right x (2 ^ 32)).symm
  rw [hshift]
  apply wrap32_of_isInt32
  constructor <;> omega

/-! ## `long long` -/

/-- Adding two `long long` values whose sum fits gives the exact sum. -/
theorem toInt_add_of_lt {a b : Int64} (hlo : -2 ^ 63 ≤ a.toInt + b.toInt)
    (hhi : a.toInt + b.toInt < 2 ^ 63) : (a + b).toInt = a.toInt + b.toInt := by
  rw [Int64.toInt_add]
  apply Int.bmod_eq_of_le <;> norm_num <;> omega

/-! ## Words of memory -/

/-- The unsigned word stored in little-endian order by the bytes `b`. -/
def leWord : Bytes → ℕ
  | [] => 0
  | b :: bs => b.toNat + 256 * leWord bs

@[simp] theorem leWord_nil : leWord [] = 0 := rfl

@[simp] theorem leWord_cons (b : UInt8) (bs : Bytes) :
    leWord (b :: bs) = b.toNat + 256 * leWord bs := rfl

/-- The unsigned 32-bit word at the start of `bs`. -/
def le32 (bs : Bytes) : ℕ := leWord (bs.take 4)

/-- The `n` bytes that store the word `x` in little-endian order. -/
def leBytes : ℕ → ℕ → Bytes
  | 0, _ => []
  | n + 1, x => UInt8.ofNat x :: leBytes n (x / 256)

@[simp] theorem length_leBytes (n x : ℕ) : (leBytes n x).length = n := by
  induction n generalizing x with
  | zero => rfl
  | succ n ih => simp [leBytes, ih]

/-- **A word that was stored is read back**, modulo the size of the word. -/
theorem leWord_leBytes (n x : ℕ) : leWord (leBytes n x) = x % 256 ^ n := by
  induction n generalizing x with
  | zero => simp [leBytes, Nat.mod_one]
  | succ n ih =>
    rw [leBytes, leWord_cons, ih, pow_succ, Nat.mul_comm (256 ^ n) 256, Nat.mod_mul]
    simp

/-- A 32-bit word that was stored in front of other bytes is read back. -/
theorem le32_leBytes {x : ℕ} (h : x < 2 ^ 32) (rest : Bytes) :
    le32 (leBytes 4 x ++ rest) = x := by
  rw [le32, List.take_append_of_le_length (by simp), List.take_of_length_le (by simp),
    leWord_leBytes]
  exact Nat.mod_eq_of_lt h

/-- Read an unsigned 32-bit word as an `int`. -/
def asInt32 (w : ℕ) : ℤ := wrap32 w

/-- The signed 16-bit value (`short`) at the start of `bs`. -/
def leShort (bs : Bytes) : ℤ := Int.bmod (leWord (bs.take 2)) (2 ^ 16)

/-- The byte at offset `i`; `0` outside the buffer. -/
def byteAt (bs : Bytes) (i : ℕ) : UInt8 := bs.getD i 0

/-- The `n` bytes at offset `i`. -/
def slice (bs : Bytes) (i n : ℕ) : Bytes := (bs.drop i).take n

theorem length_slice (bs : Bytes) (i n : ℕ) (h : i + n ≤ bs.length) :
    (slice bs i n).length = n := by
  unfold slice
  rw [List.length_take, List.length_drop]
  omega

/-- `memcpy (dst + i, src, |src|)`: the bytes from offset `i` on are replaced. -/
def memcpyAt (dst : Bytes) (i : ℕ) (src : Bytes) : Bytes :=
  dst.take i ++ src ++ dst.drop (i + src.length)

end CLib
