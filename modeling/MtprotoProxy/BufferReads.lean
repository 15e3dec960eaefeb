/-
# Reads from a buffer

Reads of a byte, of a range (as `memcmp` and `memcpy` make them) and of a two-byte length that
are checked against the length of the buffer, and how a buffer is put together from the ranges
that are read.
-/
import MtprotoProxy.ExtLists
import MtprotoProxy.DomainProbe

namespace MtprotoProxy

open CLib

/-! ## Checked reads -/

/-- `bs[i]`. -/
def fetchByte (bs : Bytes) (i : ℕ) : Except Fault UInt8 := do
  require (i < bs.length) .badPointer
  return byteAt bs i

/-- The `n` bytes from `bs + i` on. -/
def fetchSlice (bs : Bytes) (i n : ℕ) : Except Fault Bytes := do
  require (i + n ≤ bs.length) .badPointer
  return slice bs i n

/-- `read_length`. -/
def fetchLength (bs : Bytes) (i : ℕ) : Except Fault ℕ := do
  let hi ← fetchByte bs i
  let lo ← fetchByte bs (i + 1)
  return hi.toNat * 256 + lo.toNat

theorem fetchByte_ok {bs : Bytes} {i : ℕ} (h : i < bs.length) :
    fetchByte bs i = .ok (byteAt bs i) := by
  unfold fetchByte
  rw [require_ok h, ok_bind, pure_eq_ok]

theorem fetchSlice_ok {bs : Bytes} {i n : ℕ} (h : i + n ≤ bs.length) :
    fetchSlice bs i n = .ok (slice bs i n) := by
  unfold fetchSlice
  rw [require_ok h, ok_bind, pure_eq_ok]

theorem fetchLength_ok {bs : Bytes} {i : ℕ} (h : i + 2 ≤ bs.length) :
    fetchLength bs i = .ok (readLength bs i) := by
  unfold fetchLength readLength
  rw [fetchByte_ok (by omega), ok_bind, fetchByte_ok (by omega), ok_bind, pure_eq_ok]

/-- A check that gives the answer `none`, in both versions of a function. -/
theorem reject_eq {α : Type} {c : Prop} [Decidable c] {x : Except Fault (Option α)} {y : Option α}
    (h : ¬ c → x = .ok y) :
    (if c then return none else x) = .ok (if c then none else y) := by
  by_cases hc : c
  · rw [if_pos hc, if_pos hc]
    rfl
  · rw [if_neg hc, if_neg hc]
    exact h hc

/-! ## Ranges one after the other -/

/-- **A buffer is cut** where its first part ends. -/
theorem cut_drop {bs a rest : Bytes} {i n : ℕ} (h : bs.drop i = a ++ rest) (ha : a.length = n) :
    slice bs i n = a ∧ bs.drop (i + n) = rest := by
  unfold slice
  rw [← List.drop_drop, h, ← ha]
  exact ⟨List.take_left, List.drop_left⟩

/-- It is put together again from a range and what is behind it. -/
theorem slice_append_drop (bs : Bytes) (i n : ℕ) :
    slice bs i n ++ bs.drop (i + n) = bs.drop i := by
  unfold slice
  rw [← List.drop_drop, List.take_append_drop]

theorem join_drop {bs a rest : Bytes} {i n : ℕ} (ha : slice bs i n = a)
    (hrest : bs.drop (i + n) = rest) : bs.drop i = a ++ rest := by
  rw [← slice_append_drop bs i n, ha, hrest]

/-- Two ranges side by side. -/
theorem slice_add (bs : Bytes) (i n k : ℕ) :
    slice bs i (n + k) = slice bs i n ++ slice bs (i + n) k := by
  unfold slice
  rw [List.take_add, List.drop_drop]

/-- The two bytes of a length. -/
def lengthBytes (n : ℕ) : Bytes := [UInt8.ofNat (n / 256), UInt8.ofNat (n % 256)]

@[simp] theorem length_lengthBytes (n : ℕ) : (lengthBytes n).length = 2 := rfl

theorem byteAt_eq_slice {bs : Bytes} {i : ℕ} {b : UInt8} (h : slice bs i 1 = [b]) :
    byteAt bs i = b := by
  unfold slice at h
  unfold byteAt
  rw [List.getD_eq_getElem?_getD, ← List.head?_drop]
  cases hdrop : bs.drop i with
  | nil =>
    rw [hdrop] at h
    exact absurd h (by simp)
  | cons c rest =>
    rw [hdrop] at h
    exact (List.cons.inj h).1

/-- A range of one byte. -/
theorem slice_one {bs : Bytes} {i : ℕ} (h : i < bs.length) : slice bs i 1 = [byteAt bs i] := by
  unfold slice byteAt
  rw [List.drop_eq_getElem_cons h, List.getD_eq_getElem _ _ h]
  rfl

/-- A range of two bytes holds the length that is read there. -/
theorem slice_eq_lengthBytes_iff {bs : Bytes} {i n : ℕ} (hbs : i + 2 ≤ bs.length)
    (hn : n < 2 ^ 16) : slice bs i 2 = lengthBytes n ↔ readLength bs i = n := by
  have hbytes : slice bs i 2 = [byteAt bs i, byteAt bs (i + 1)] := by
    unfold slice byteAt
    rw [List.drop_eq_getElem_cons (by omega), List.drop_eq_getElem_cons (by omega),
      List.getD_eq_getElem _ _ (by omega), List.getD_eq_getElem _ _ (by omega)]
    rfl
  have hhi := (byteAt bs i).toNat_lt
  have hlo := (byteAt bs (i + 1)).toNat_lt
  rw [hbytes, lengthBytes]
  simp only [List.cons.injEq, and_true, ← UInt8.toNat_inj, UInt8.toNat_ofNat']
  unfold readLength
  omega

/-! ## Extensions -/

/-- An extension of a hello message: an id, and the length of the body. -/
def extension (id : ℕ) (body : Bytes) : Bytes :=
  lengthBytes id ++ (lengthBytes body.length ++ body)

theorem length_extension (id : ℕ) (body : Bytes) :
    (extension id body).length = 4 + body.length := by
  simp only [extension, List.length_append, length_lengthBytes]
  omega

/-- **The fields of an extension,** and what is behind it. -/
theorem cut_extension {bs body rest : Bytes} {pos id : ℕ} (hid : id < 2 ^ 16)
    (hbody : body.length < 2 ^ 16) (h : bs.drop pos = extension id body ++ rest) :
    readLength bs pos = id ∧ readLength bs (pos + 2) = body.length ∧
      slice bs (pos + 4) body.length = body ∧ bs.drop (pos + 4 + body.length) = rest := by
  have hroom : pos + 4 + body.length ≤ bs.length := by
    have hlen := congrArg List.length h
    rw [List.length_drop, List.length_append, length_extension] at hlen
    omega
  unfold extension at h
  rw [List.append_assoc, List.append_assoc] at h
  obtain ⟨hid', h₂⟩ := cut_drop h (length_lengthBytes id)
  obtain ⟨hlen', h₄⟩ := cut_drop h₂ (length_lengthBytes body.length)
  obtain ⟨hbody', hrest⟩ := cut_drop h₄ rfl
  exact ⟨(slice_eq_lengthBytes_iff (by omega) hid).mp hid',
    (slice_eq_lengthBytes_iff (by omega) hbody).mp hlen', hbody', hrest⟩

/-- An extension is put together from its fields. -/
theorem extension_append_drop {bs : Bytes} {pos id length : ℕ} (hid : readLength bs pos = id)
    (hlength : readLength bs (pos + 2) = length) (hroom : pos + 4 + length ≤ bs.length) :
    extension id (slice bs (pos + 4) length) ++ bs.drop (pos + 4 + length) = bs.drop pos := by
  have hid' := hid ▸ readLength_lt bs pos
  have hlength' := hlength ▸ readLength_lt bs (pos + 2)
  unfold extension
  rw [length_slice _ _ _ hroom, ← (slice_eq_lengthBytes_iff (by omega) hid').mpr hid,
    ← (slice_eq_lengthBytes_iff (by omega) hlength').mpr hlength, List.append_assoc,
    List.append_assoc, slice_append_drop, slice_append_drop, slice_append_drop]

end MtprotoProxy
