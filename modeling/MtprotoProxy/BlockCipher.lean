/-
# Ciphers on whole blocks

A cipher takes a block and gives a block of the same size, and its state may change with every
block.  `crypt` puts the whole blocks of a text through it, one after another.  A text that comes in
pieces is put through it by `feed`, which keeps the bytes behind the last whole block for the next
piece: the pieces do not matter (`feed_append`).

This file names nothing of the proxy.
-/
import MtprotoProxy.CInt

namespace CLib

/-- A cipher with states `κ` on blocks of `n` bytes. -/
structure BlockCipher (κ : Type) (n : ℕ) where
  block : κ → Bytes → κ × Bytes
  length_block : ∀ k b, b.length = n → (block k b).2.length = n

/-- The bytes of the whole blocks among `len` bytes. -/
def wholeBytes (n len : ℕ) : ℕ := len / n * n

section WholeBytes

variable {n a b : ℕ}

/-- The bytes of the whole blocks. -/
theorem wholeBytes_le (n len : ℕ) : wholeBytes n len ≤ len := Nat.div_mul_le_self len n

theorem wholeBytes_add (hn : 0 < n) (h : n ∣ a) : wholeBytes n (a + b) = a + wholeBytes n b := by
  obtain ⟨m, rfl⟩ := h
  unfold wholeBytes
  rw [Nat.mul_add_div hn, Nat.add_mul, Nat.mul_comm m n]

theorem wholeBytes_of_dvd (h : n ∣ a) : wholeBytes n a = a := Nat.div_mul_cancel h

theorem wholeBytes_of_lt (h : a < n) : wholeBytes n a = 0 := by
  unfold wholeBytes
  rw [Nat.div_eq_of_lt h, Nat.zero_mul]

theorem dvd_wholeBytes (n len : ℕ) : n ∣ wholeBytes n len := Nat.dvd_mul_left n (len / n)

theorem sub_wholeBytes_lt (hn : 0 < n) (len : ℕ) : len - wholeBytes n len < n := by
  have hmod := Nat.mod_lt len hn
  have hdiv := Nat.div_add_mod' len n
  unfold wholeBytes
  omega

end WholeBytes

namespace BlockCipher

variable {κ : Type} {n : ℕ} (C : BlockCipher κ n)

/-- The first `m` blocks of a text. -/
def blocks : ℕ → κ → Bytes → κ × Bytes
  | 0, k, _ => (k, [])
  | m + 1, k, bs =>
    let r := C.block k (bs.take n)
    let r' := blocks m r.1 (bs.drop n)
    (r'.1, r.2 ++ r'.2)

/-- The whole blocks of a text. -/
def crypt (k : κ) (bs : Bytes) : κ × Bytes := C.blocks (bs.length / n) k bs

/-- A piece of a text: the state and the bytes that wait for the rest of their block, before and
after it, and what comes out. -/
def feed (st : κ × Bytes) (data : Bytes) : (κ × Bytes) × Bytes :=
  let s := st.2 ++ data
  let r := C.crypt st.1 s
  ((r.1, s.drop (wholeBytes n s.length)), r.2)

/-! ## Blocks -/

/-- Blocks keep their length. -/
theorem length_blocks {m : ℕ} {k : κ} {bs : Bytes} (h : m * n ≤ bs.length) :
    (C.blocks m k bs).2.length = m * n := by
  induction m generalizing k bs with
  | zero => rw [Nat.zero_mul]; rfl
  | succ m ih =>
    rw [Nat.succ_mul] at h ⊢
    have hblock : (C.block k (bs.take n)).2.length = n := by
      apply C.length_block k _
      rw [List.length_take]
      omega
    have hrest : m * n ≤ (bs.drop n).length := by
      rw [List.length_drop]
      omega
    rw [blocks, List.length_append, hblock, ih hrest, Nat.add_comm]

/-- The bytes behind the blocks do not matter. -/
theorem blocks_append {m : ℕ} {k : κ} {a b : Bytes} (h : m * n ≤ a.length) :
    C.blocks m k (a ++ b) = C.blocks m k a := by
  induction m generalizing k a with
  | zero => rfl
  | succ m ih =>
    rw [Nat.succ_mul] at h
    have hrest : m * n ≤ (a.drop n).length := by
      rw [List.length_drop]
      omega
    simp only [blocks]
    rw [List.take_append_of_le_length (by omega), List.drop_append_of_le_length (by omega),
      ih hrest]

/-- Blocks are done one after the other. -/
theorem blocks_add (m m' : ℕ) (k : κ) (bs : Bytes) :
    C.blocks (m + m') k bs = ((C.blocks m' (C.blocks m k bs).1 (bs.drop (m * n))).1,
      (C.blocks m k bs).2 ++ (C.blocks m' (C.blocks m k bs).1 (bs.drop (m * n))).2) := by
  induction m generalizing k bs with
  | zero => rw [Nat.zero_add, Nat.zero_mul, List.drop_zero]; rfl
  | succ m ih =>
    have hdrop : bs.drop ((m + 1) * n) = (bs.drop n).drop (m * n) := by
      rw [List.drop_drop, Nat.succ_mul, Nat.add_comm]
    rw [Nat.succ_add, blocks, ih, hdrop, blocks, List.append_assoc]

/-! ## Texts -/

variable {C}

theorem length_crypt (k : κ) (bs : Bytes) : (C.crypt k bs).2.length = wholeBytes n bs.length :=
  C.length_blocks (wholeBytes_le n bs.length)

/-- Less than a block is left alone. -/
theorem crypt_of_lt {k : κ} {bs : Bytes} (h : bs.length < n) : C.crypt k bs = (k, []) := by
  unfold crypt
  rw [Nat.div_eq_of_lt h]
  rfl

/-- **Whole blocks first, and then the rest.** -/
theorem crypt_append (hn : 0 < n) {k : κ} {a b : Bytes} (h : n ∣ a.length) :
    C.crypt k (a ++ b) = ((C.crypt (C.crypt k a).1 b).1,
      (C.crypt k a).2 ++ (C.crypt (C.crypt k a).1 b).2) := by
  obtain ⟨m, hm⟩ := h
  have hdiv : a.length / n = m := by rw [hm, Nat.mul_div_cancel_left m hn]
  have hlen : m * n = a.length := by rw [hm, Nat.mul_comm]
  have hsum : (a ++ b).length / n = m + b.length / n := by
    rw [List.length_append, hm, Nat.mul_add_div hn]
  unfold crypt
  rw [hsum, hdiv, blocks_add, hlen, List.drop_left, blocks_append C hlen.le]

/-- The bytes behind the last whole block do not matter. -/
theorem crypt_take (hn : 0 < n) (k : κ) (bs : Bytes) :
    C.crypt k (bs.take (wholeBytes n bs.length)) = C.crypt k bs := by
  have hlen : (bs.take (wholeBytes n bs.length)).length = wholeBytes n bs.length :=
    List.length_take_of_le (wholeBytes_le n bs.length)
  have hrest : (bs.drop (wholeBytes n bs.length)).length < n := by
    rw [List.length_drop]
    exact sub_wholeBytes_lt hn bs.length
  have hdvd : n ∣ (bs.take (wholeBytes n bs.length)).length := by
    rw [hlen]
    exact dvd_wholeBytes n bs.length
  have happ := crypt_append (C := C) (k := k) (b := bs.drop (wholeBytes n bs.length)) hn hdvd
  rw [List.take_append_drop, crypt_of_lt hrest, List.append_nil] at happ
  exact happ.symm

/-! ## Pieces -/

/-- **The pieces of a text do not matter.** -/
theorem feed_append (hn : 0 < n) (st : κ × Bytes) (a b : Bytes) :
    C.feed st (a ++ b) = ((C.feed (C.feed st a).1 b).1,
      (C.feed st a).2 ++ (C.feed (C.feed st a).1 b).2) := by
  obtain ⟨k, pending⟩ := st
  unfold feed
  dsimp only
  rw [← List.append_assoc]
  generalize pending ++ a = s
  -- the whole blocks of the first piece, and what waits
  obtain ⟨w, rest, rfl, hw, hwhole⟩ : ∃ w rest, s = w ++ rest ∧ n ∣ w.length ∧
      wholeBytes n s.length = w.length := by
    have hlen : (s.take (wholeBytes n s.length)).length = wholeBytes n s.length :=
      List.length_take_of_le (wholeBytes_le n s.length)
    refine ⟨_, _, (List.take_append_drop (wholeBytes n s.length) s).symm, ?_, hlen.symm⟩
    rw [hlen]
    exact dvd_wholeBytes n s.length
  have hfirst : C.crypt k (w ++ rest) = C.crypt k w := by
    have htake := crypt_take (C := C) hn k (w ++ rest)
    rw [hwhole, List.take_left] at htake
    exact htake.symm
  rw [hwhole, List.drop_left, hfirst, List.append_assoc, crypt_append hn hw, List.length_append,
    wholeBytes_add hn hw, ← List.drop_drop, List.drop_left]

/-- A piece that does not fill the block waits. -/
theorem feed_of_lt {k : κ} {pending data : Bytes} (h : (pending ++ data).length < n) :
    C.feed (k, pending) data = ((k, pending ++ data), []) := by
  unfold feed
  dsimp only
  rw [crypt_of_lt h, wholeBytes_of_lt h, List.drop_zero]

/-- A piece up to the end of a block. -/
theorem feed_of_dvd {k : κ} {pending data : Bytes} (h : n ∣ (pending ++ data).length) :
    C.feed (k, pending) data
      = (((C.crypt k (pending ++ data)).1, []), (C.crypt k (pending ++ data)).2) := by
  unfold feed
  dsimp only
  rw [wholeBytes_of_dvd h, List.drop_length]

/-- Less than a block waits. -/
theorem length_feed_lt (hn : 0 < n) (st : κ × Bytes) (data : Bytes) :
    (C.feed st data).1.2.length < n := by
  unfold feed
  rw [List.length_drop]
  exact sub_wholeBytes_lt hn (st.2 ++ data).length

end BlockCipher

end CLib
