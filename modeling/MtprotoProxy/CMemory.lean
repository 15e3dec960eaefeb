/-
# Writes into an array

`writeAt m i data` writes bytes into an array and is `none` where a byte would fall outside;
`memmoveAt` and `memsetAt` are `memmove` and `memset` within one array.  The rules say what a write
does to an array that is given in three pieces.
-/
import MtprotoProxy.CInt
import MtprotoProxy.Runs

namespace CLib

/-- The bytes `data` are written at offset `i`; `none` where one would be outside of the array. -/
def writeAt (m : Bytes) (i : ℕ) (data : Bytes) : Option Bytes :=
  if i + data.length ≤ m.length then some (memcpyAt m i data) else none

/-- `memmove (m + dst, m + src, n)`; `none` where a byte is outside of the array. -/
def memmoveAt (m : Bytes) (dst src n : ℕ) : Option Bytes :=
  if src + n ≤ m.length then writeAt m dst (slice m src n) else none

/-- `memset (m + i, c, n)`. -/
def memsetAt (m : Bytes) (i : ℕ) (c : UInt8) (n : ℕ) : Option Bytes :=
  writeAt m i (List.replicate n c)

/-- **A write replaces a piece** of the same length. -/
theorem writeAt_append {a b c data : Bytes} {i : ℕ} (hi : a.length = i)
    (hlen : b.length = data.length) : writeAt (a ++ b ++ c) i data = some (a ++ data ++ c) := by
  subst hi
  unfold writeAt memcpyAt
  rw [if_pos (by simp only [List.length_append]; omega)]
  congr 1
  rw [List.append_assoc a b c, List.take_left, ← hlen, ← List.drop_drop, List.drop_left,
    List.drop_left]

theorem length_of_writeAt {m m' data : Bytes} {i : ℕ} (h : writeAt m i data = some m') :
    m'.length = m.length := by
  unfold writeAt at h
  split at h
  · rw [← Option.some.inj h]
    unfold memcpyAt
    simp only [List.length_append, List.length_take, List.length_drop]
    omega
  · exact absurd h (by simp)

/-- A write inside the array succeeds. -/
theorem writeAt_isSome {m data : Bytes} {i : ℕ} (h : i + data.length ≤ m.length) :
    ∃ m', writeAt m i data = some m' ∧ m'.length = m.length := by
  have hwrite : writeAt m i data = some (memcpyAt m i data) := if_pos h
  exact ⟨_, hwrite, length_of_writeAt hwrite⟩

/-- **Opening a gap** with `memmove` and `memset`: the bytes from `i` on move up by the length of
what is behind them. -/
theorem openGap {a b c : Bytes} {i g n : ℕ} (hi : a.length = i) (hn : b.length = n)
    (hg : c.length = g) :
    (do
      let m ← memmoveAt (a ++ b ++ c) (i + g) i n
      memsetAt m i 0 g) = some (a ++ List.replicate g 0 ++ b) := by
  subst hi hn hg
  have hslice : slice (a ++ b ++ c) a.length b.length = b := by
    unfold slice
    rw [List.append_assoc, List.drop_left, List.take_left]
  -- the array in three pieces: up to the new place of `b`, the place, nothing
  obtain ⟨d, e, hde, hd, he⟩ : ∃ d e, b ++ c = d ++ e ∧ d.length = c.length ∧
      e.length = b.length :=
    ⟨(b ++ c).take c.length, (b ++ c).drop c.length, (List.take_append_drop _ _).symm,
      by simp, by simp⟩
  have hmove : memmoveAt (a ++ b ++ c) (a.length + c.length) a.length b.length
      = some (a ++ d ++ b) := by
    unfold memmoveAt
    rw [if_pos (by simp), hslice, List.append_assoc, hde, ← List.append_assoc]
    have hwrite := @writeAt_append (a ++ d) e [] b (a.length + c.length) (by simp [hd]) he
    simpa using hwrite
  have hset : memsetAt (a ++ d ++ b) a.length 0 c.length
      = some (a ++ List.replicate c.length 0 ++ b) :=
    writeAt_append rfl (by simp [hd])
  rw [hmove, some_bind, hset]

end CLib
