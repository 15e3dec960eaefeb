/-
# Strings are stored and fetched

The writing half of the serialization layer, as far as strings go: `tls_string` puts them behind
each other into a string or a message, with their lengths in front and zero bytes up to a multiple
of four behind.  `tlf_string` takes them from there.

* `tl_strings_round_trip`: the strings come back in their order, and `tlf_string` does not return
  a string that is not well formed.

Both sides ask for four bytes where a string starts.  A string that starts elsewhere than at a
multiple of four may be shorter than this (`not_tl_strings_round_trip`).
-/
import MtprotoProxy.MsgTlString
import MtprotoProxy.TlBytes

namespace MtprotoProxy

open CLib

/-! ## Storing -/

/-- The messages, and an output. -/
abbrev TlOutM : Type → Type := StateT (MsgState × TlOut) Option

/-- `store_raw_data`: `memcpy`, or `rwm_push_data`. -/
def storeRawData (bs : Bytes) : TlOutM Unit := fun X =>
  match X.2.buffer with
  | .str w => some ((), X.1, { X.2 with buffer := .str (w ++ bs) })
  | .rawMsg k => (X.1.step (.pushData k bs)).map (fun r => ((), r.1, X.2))

/-- `assert (tls_check (tlio_out, size) >= 0)`. -/
def tlsRoom (size : ℤ) : TlOutM Unit := fun X =>
  if X.2.remaining < size then none else some ((), X)

/-- `__tls_raw_data`. -/
def tlsPutRawData (bs : Bytes) : TlOutM Unit := do
  storeRawData bs
  fun X => some ((), X.1, { X.2 with
    pos := X.2.pos + bs.length, remaining := X.2.remaining - bs.length })

def tlsStringLen (len : ℕ) : TlOutM Unit := do
  tlsRoom 4
  if len < 254 then tlsPutRawData (leBytes 1 len)
  else
    assert (len < 2 ^ 24)
    -- `(len << 8) + 0xfe`
    tlsPutRawData (leBytes 4 (len * 256 + 0xfe))

def tlsPad : TlOutM Unit := do
  tlsRoom 0
  fun X => tlsPutRawData (slice (leBytes 4 0) 0 (-X.2.pos % 4).toNat) X

def tlsStringData (s : Bytes) : TlOutM Unit := do
  tlsRoom s.length
  tlsPutRawData s
  tlsPad

def tlsString (s : Bytes) : TlOutM Unit := do
  tlsStringLen s.length
  tlsStringData s

/-- One string after the other. -/
def tlsStrings : List Bytes → TlOutM Unit
  | [] => pure ()
  | s :: ss => do
    tlsString s
    tlsStrings ss

/-- They are fetched, each with a bound of its own. -/
def tlfStrings {ι : Type} (M : TlInMethods ι) : List ℤ → TlM ι (List (ℤ × Bytes))
  | [] => pure []
  | maxLen :: rest => do
    let x ← tlfString M maxLen
    let xs ← tlfStrings M rest
    pure (x :: xs)

/-! ## The strings in their places -/

/-- Strings behind each other, from the place `pos` on. -/
def tlStringsAt : ℕ → List Bytes → Bytes
  | _, [] => []
  | pos, s :: ss => tlStringAt pos s ++ tlStringsAt (pos + (tlStringAt pos s).length) ss

/-- There is room for all of them, padding included, and for four bytes where each one starts. -/
def TlRoomy : ℕ → ℤ → List Bytes → Prop
  | _, _, [] => True
  | pos, room, s :: ss => 4 ≤ room ∧ (tlStringAt pos s).length ≤ room ∧
    TlRoomy (pos + (tlStringAt pos s).length) (room - (tlStringAt pos s).length) ss

/-- The output holds the bytes `w`, and has the place and the room for more. -/
def OutHas (w : Bytes) (pos : ℕ) (room : ℤ) (X : MsgState × TlOut) : Prop :=
  X.2.pos = pos ∧ X.2.remaining = room ∧
    match X.2.buffer with
    | .str v => v = w
    | .rawMsg k => ∃ A, Refines X.1 A ∧ A.cell k = some w

theorem length_tlStringAt (pos : ℕ) (s : Bytes) : (tlStringAt pos s).length
    = (tlLength s.length).length + s.length
      + (4 - (pos + ((tlLength s.length).length + s.length)) % 4) % 4 := by
  unfold tlStringAt
  rw [List.length_append, List.length_append, length_tlZeros]

theorem length_tlLength (n : ℕ) : (tlLength n).length = if n < 0xfe then 1 else 4 := by
  unfold tlLength
  split_ifs
  · exact length_leBytes 1 n
  · exact congrArg (· + 1) (length_leBytes 3 n)

/-- A string that starts at a multiple of four takes four bytes or more, and ends at one. -/
theorem roomy_of_aligned {pos : ℕ} {room : ℤ} {strs : List Bytes} (hpos : pos % 4 = 0)
    (hroom : (tlStringsAt pos strs).length ≤ room) : TlRoomy pos room strs := by
  induction strs generalizing pos room with
  | nil => exact trivial
  | cons s ss ih =>
    have hlen := length_tlStringAt pos s
    have hone : 1 ≤ (tlLength s.length).length := by
      rw [length_tlLength]
      split_ifs <;> omega
    rw [tlStringsAt, List.length_append] at hroom
    exact ⟨by omega, by omega, ih (by omega) (by omega)⟩

/-! ## The bytes of an output -/

section Storing

variable {w : Bytes} {pos : ℕ} {room : ℤ}

theorem tlsRoom_returns {n : ℤ} (hn : n ≤ room) :
    Returns (OutHas w pos room) (tlsRoom n) (tlsRoom n) (fun _ => OutHas w pos room) := by
  rintro X ⟨hpos, rfl, hw⟩
  have hrun : tlsRoom n X = some ((), X) := if_neg (not_lt.mpr hn)
  exact ⟨(), X, hrun, hrun, hpos, rfl, hw⟩

theorem tlsPutRawData_returns (bs : Bytes) :
    Returns (OutHas w pos room) (tlsPutRawData bs) (tlsPutRawData bs)
      (fun _ => OutHas (w ++ bs) (pos + bs.length) (room - bs.length)) := by
  rintro ⟨S, ⟨buffer, p, r⟩⟩ ⟨hpos, rfl, hw⟩
  dsimp only at hpos
  subst hpos
  cases buffer with
  | str v =>
    obtain rfl : v = w := hw
    exact ⟨(), _, rfl, rfl, (Nat.cast_add pos bs.length).symm, rfl, rfl⟩
  | rawMsg k =>
    obtain ⟨A, hA, hk⟩ := hw
    obtain ⟨S', hstep, hS'⟩ := hA.push hk bs
    have hstore : storeRawData bs (S, ⟨.rawMsg k, pos, r⟩) = some ((), S', ⟨.rawMsg k, pos, r⟩) := by
      change (S.step (.pushData k bs)).map _ = _
      rw [hstep, Option.map_some]
    have hrun : tlsPutRawData bs (S, ⟨.rawMsg k, pos, r⟩)
        = some ((), S', ⟨.rawMsg k, (pos : ℤ) + bs.length, r - bs.length⟩) := by
      change (storeRawData bs (S, ⟨.rawMsg k, pos, r⟩)).bind _ = _
      rw [hstore]
      rfl
    exact ⟨(), _, hrun, hrun, (Nat.cast_add pos bs.length).symm, rfl, _, hS',
      Store.cell_put_self hk _⟩

/-- **The length** of a string is stored. -/
theorem tlsStringLen_returns {n : ℕ} (hn : n < 2 ^ 24) (hroom : 4 ≤ room) :
    Returns (OutHas w pos room) (tlsStringLen n) (tlsStringLen n)
      (fun _ => OutHas (w ++ tlLength n) (pos + (tlLength n).length)
        (room - (tlLength n).length)) := by
  refine (tlsRoom_returns hroom).bind (fun _ => ?_)
  unfold tlLength
  split_ifs
  · exact tlsPutRawData_returns (leBytes 1 n)
  · have hbytes : leBytes 4 (n * 256 + 0xfe) = 0xfe :: leBytes 3 n := by
      have hhigh : (n * 256 + 0xfe) / 256 = n := by omega
      have hlow : UInt8.ofNat (n * 256 + 0xfe) = 0xfe := by
        apply UInt8.toNat.inj
        rw [UInt8.toNat_ofNat']
        change (n * 256 + 0xfe) % 256 = 0xfe
        omega
      rw [leBytes, hhigh, hlow]
    refine (Returns.assert hn).bind (fun _ => ?_)
    rw [hbytes]
    exact tlsPutRawData_returns _

/-- **The padding** is stored. -/
theorem tlsPad_returns (hroom : 0 ≤ room) :
    Returns (OutHas w pos room) tlsPad tlsPad
      (fun _ => OutHas (w ++ tlZeros pos) (pos + (tlZeros pos).length)
        (room - (tlZeros pos).length)) := by
  refine (tlsRoom_returns hroom).bind (fun _ X hX => ?_)
  have hpad : (-X.2.pos % 4).toNat = (4 - pos % 4) % 4 := by
    rw [hX.1]
    omega
  have hzeros : slice (leBytes 4 0) 0 (-X.2.pos % 4).toNat = tlZeros pos := by
    rw [hpad]
    exact MsgHeap.slice_zero_word (by omega)
  rw [hzeros]
  exact tlsPutRawData_returns (tlZeros pos) X hX

/-- **`tls_string`** stores a string. -/
theorem tlsString_returns {s : Bytes} (hs : s.length < 2 ^ 24) (hfour : 4 ≤ room)
    (hroom : (tlStringAt pos s).length ≤ room) :
    Returns (OutHas w pos room) (tlsString s) (tlsString s)
      (fun _ => OutHas (w ++ tlStringAt pos s) (pos + (tlStringAt pos s).length)
        (room - (tlStringAt pos s).length)) := by
  have hlen := length_tlStringAt pos s
  refine (tlsStringLen_returns hs hfour).bind (fun _ => ?_)
  refine (tlsRoom_returns (by omega)).bind (fun _ => ?_)
  refine (tlsPutRawData_returns s).bind (fun _ => ?_)
  refine (tlsPad_returns (by omega)).post (fun _ X hX => ?_)
  have hplace : pos + (tlLength s.length).length + s.length
      = pos + (tlLength s.length ++ s).length := by
    rw [List.length_append, Nat.add_assoc]
  have hbytes : w ++ tlLength s.length ++ s ++ tlZeros (pos + (tlLength s.length ++ s).length)
      = w ++ tlStringAt pos s := by
    unfold tlStringAt
    simp only [List.append_assoc]
  have hlength : (tlStringAt pos s).length = (tlLength s.length).length + s.length
      + (tlZeros (pos + (tlLength s.length ++ s).length)).length := by
    unfold tlStringAt
    rw [List.length_append, List.length_append]
  have hnext : pos + (tlLength s.length ++ s).length
      + (tlZeros (pos + (tlLength s.length ++ s).length)).length
      = pos + (tlStringAt pos s).length := by omega
  have hleft : room - ((tlLength s.length).length : ℤ) - s.length
      - (tlZeros (pos + (tlLength s.length ++ s).length)).length
      = room - (tlStringAt pos s).length := by omega
  rw [hplace, hbytes, hnext, hleft] at hX
  exact hX

/-- **All strings** are stored, by induction. -/
theorem tlsStrings_returns {strs : List Bytes} (hs : ∀ s ∈ strs, s.length < 2 ^ 24)
    (hroom : TlRoomy pos room strs) :
    Returns (OutHas w pos room) (tlsStrings strs) (tlsStrings strs)
      (fun _ => OutHas (w ++ tlStringsAt pos strs) (pos + (tlStringsAt pos strs).length)
        (room - (tlStringsAt pos strs).length)) := by
  induction strs generalizing w pos room with
  | nil =>
    refine Returns.pure (fun X hX => ?_)
    rw [tlStringsAt, List.append_nil, List.length_nil, Nat.cast_zero, sub_zero]
    exact hX
  | cons s ss ih =>
    rw [List.forall_mem_cons] at hs
    obtain ⟨hfour, hfits, hrest⟩ := hroom
    refine (tlsString_returns hs.1 hfour hfits).bind (fun _ => ?_)
    refine (ih hs.2 hrest).post (fun _ X hX => ?_)
    rw [tlStringsAt, List.length_append, ← List.append_assoc, ← Nat.add_assoc, Nat.cast_add,
      ← sub_sub]
    exact hX

end Storing

/-- How many bytes the length at the start takes, and the length. -/
def tlHead (bs : Bytes) : ℕ × ℕ :=
  if leWord (bs.take 1) = 0xfe then (4, leWord ((bs.drop 1).take 3)) else (1, leWord (bs.take 1))

theorem tlHead_tlLength {n : ℕ} (hn : n < 2 ^ 24) (bs : Bytes) :
    leWord ((tlLength n ++ bs).take 1) ≠ 0xff ∧
      tlHead (tlLength n ++ bs) = ((tlLength n).length, n) := by
  unfold tlHead tlLength
  by_cases hshort : n < 0xfe
  · have htake : (leBytes 1 n ++ bs).take 1 = leBytes 1 n := rfl
    have hword : leWord (leBytes 1 n) = n := by
      rw [leWord_leBytes]
      omega
    rw [if_pos hshort, htake, hword, if_neg (by omega), length_leBytes]
    exact ⟨by omega, rfl⟩
  · have htake : (0xfe :: leBytes 3 n ++ bs).take 1 = [0xfe] := rfl
    have hdrop : (0xfe :: leBytes 3 n ++ bs).drop 1 = leBytes 3 n ++ bs := rfl
    have hword : leWord (leBytes 3 n) = n := (leWord_leBytes 3 n).trans (Nat.mod_eq_of_lt hn)
    rw [if_neg hshort, htake, hdrop, List.take_left' (length_leBytes 3 n), hword,
      if_pos (by decide),
      List.length_cons, length_leBytes]
    exact ⟨by decide, rfl⟩

/-- Only zero bytes have the value zero. -/
theorem leWord_eq_zero {bs : Bytes} : leWord bs = 0 ↔ ∀ b ∈ bs, b = 0 := by
  induction bs with
  | nil => simp
  | cons b bs ih =>
    rw [leWord_cons, List.forall_mem_cons, ← ih, Nat.add_eq_zero_iff, Nat.mul_eq_zero,
      ← UInt8.toNat_inj]
    simp

/-- The bytes at the place `pos` are not a string of at most `maxLen` bytes with its padding. -/
def BadString (pos maxLen : ℤ) (bs : Bytes) : Prop :=
  leWord (bs.take 1) = 0xff ∨ maxLen < (tlHead bs).2 ∨
    (bs.drop (tlHead bs).1).length < (tlHead bs).2 ∨
    ∃ b ∈ (bs.drop ((tlHead bs).1 + (tlHead bs).2)).take
      (-(pos + ((tlHead bs).1 + (tlHead bs).2 : ℕ)) % 4).toNat, b ≠ 0

/-! ## Fetching -/

section Fetching

variable {ι : Type} {M : TlInMethods ι} {Has : TlState ι → Bytes → Prop} {c : TlIn} {bs : Bytes}

/-- A length within the bounds. -/
theorem tlfStringBound_returns {n : ℕ} {maxLen : ℤ} (hmax : n ≤ maxLen) (hn : n ≤ bs.length) :
    Returns (TlLeft Has c bs) (tlfStringBound maxLen n) (tlfStringBound maxLen n)
      (fun l X => l = n ∧ TlLeft Has c bs X) := by
  refine tlIn_returns (fun X hX => ?_)
  have hlen := hX.2.1
  rw [if_neg (by omega), if_neg (by omega)]
  exact ⟨n, X, rfl, rfl, rfl, hX⟩

variable (hM : TlReader M Has)
include hM

/-- **The length** of a string is read, if it does not start with `0xff`, and then checked. -/
theorem tlfStringLen_head {maxLen : ℤ} {Q : ℤ → TlState ι → Prop} (herror : c.error = none)
    (hfour : 4 ≤ bs.length) (hff : leWord (bs.take 1) ≠ 0xff)
    (hbound : Returns (TlLeft Has (c.advance (tlHead bs).1) (bs.drop (tlHead bs).1))
      (tlfStringBound maxLen (tlHead bs).2) (tlfStringBound maxLen (tlHead bs).2) Q) :
    Returns (TlLeft Has c bs) (tlfStringLen M maxLen) (tlfStringLen M maxLen) Q := by
  have hN := SameWithin.refl M
  apply check_returns (n := 4) hM herror hfour
  refine (takeRawData_returns (n := 1) hM hN (by omega)).bind
    (fun x => Returns.given (fun hx => ?_))
  rw [hx, if_neg (by omega)]
  unfold tlHead at hbound
  unfold tlfStringLenRest
  by_cases hlong : leWord (bs.take 1) = 0xfe
  · rw [if_pos hlong] at hbound
    rw [if_pos (by omega), bind_assoc]
    have hthree : 3 ≤ (bs.drop 1).length := by
      rw [List.length_drop]
      omega
    refine (takeRawData_returns (n := 3) hM hN hthree).bind (fun y => Returns.given (fun hy => ?_))
    rw [hy, pure_bind, List.drop_drop, TlIn.advance_advance]
    exact hbound
  · rw [if_neg hlong] at hbound
    rw [if_neg (by omega), pure_bind]
    exact hbound

/-- **The length** of a string is fetched. -/
theorem tlfStringLen_returns {n : ℕ} {maxLen : ℤ} (herror : c.error = none) (hn : n < 2 ^ 24)
    (hmax : n ≤ maxLen) (hbs : n ≤ bs.length) (hfour : 4 ≤ (tlLength n ++ bs).length) :
    Returns (TlLeft Has c (tlLength n ++ bs)) (tlfStringLen M maxLen) (tlfStringLen M maxLen)
      (fun l X => l = n ∧ TlLeft Has (c.advance (tlLength n).length) bs X) := by
  obtain ⟨hff, hhead⟩ := tlHead_tlLength hn bs
  apply tlfStringLen_head hM herror hfour hff
  rw [hhead, List.drop_left]
  exact tlfStringBound_returns hmax hbs

/-- **The padding** is fetched. -/
theorem tlfPad_returns {pos : ℕ} (herror : c.error = none) (hpos : c.pos % 4 = pos % 4) :
    Returns (TlLeft Has c (tlZeros pos ++ bs)) (tlfPad M) (tlfPad M)
      (fun r X => 0 ≤ r ∧ TlLeft Has (c.advance (tlZeros pos).length) bs X) := by
  apply tlIn_returns
  have hpad : -c.pos % 4 = (tlZeros pos).length := by
    rw [length_tlZeros]
    omega
  dsimp only
  rw [hpad]
  refine check_returns hM herror (by rw [List.length_append]; omega) (fun X hX => ?_)
  have hlen := hX.2.1
  rw [List.length_append] at hlen
  refine (Returns.assert (by omega)).bind (fun _ => ?_) X hX
  refine (takeRawData_returns hM (SameWithin.refl M) (by rw [List.length_append]; omega)).bind
    (fun t => Returns.given (fun ht => ?_))
  have hzero : leWord t = 0 := by
    rw [ht, List.take_left, leWord_eq_zero]
    exact fun b hb => List.eq_of_mem_replicate hb
  rw [hzero, if_pos rfl, List.drop_left]
  exact Returns.pure (fun X hX => ⟨Int.natCast_nonneg _, hX⟩)

/-- **The bytes** of a string are fetched, and the padding. -/
theorem tlfStringData_returns {pos : ℕ} {s : Bytes} (herror : c.error = none)
    (hpos : c.pos % 4 = pos % 4) :
    Returns (TlLeft Has c (s ++ (tlZeros (pos + s.length) ++ bs))) (tlfStringData M s.length)
      (tlfStringData M s.length)
      (fun r X => r = ((s.length : ℤ), s) ∧
        TlLeft Has (c.advance ((s.length + (tlZeros (pos + s.length)).length : ℕ) : ℤ)) bs X) := by
  apply check_returns hM herror (by rw [List.length_append]; omega)
  refine (takeRawData_returns hM (SameWithin.refl M) (by rw [List.length_append]; omega)).bind
    (fun t => Returns.given (fun ht => ?_))
  rw [List.take_left] at ht
  rw [List.drop_left, ht, ← TlIn.advance_advance]
  have hnext : (c.advance s.length).pos % 4 = (pos + s.length : ℕ) % 4 := by
    change (c.pos + s.length) % 4 = _
    omega
  have herror' : (c.advance s.length).error = none := herror
  refine (tlfPad_returns hM herror' hnext).bind (fun pad => Returns.given (fun hpad => ?_))
  rw [if_neg (not_lt.mpr hpad)]
  exact Returns.pure (fun X hX => ⟨rfl, hX⟩)

/-- **`tlf_string`** fetches a string that was stored. -/
theorem tlfString_returns {pos : ℕ} {s : Bytes} {maxLen : ℤ} (herror : c.error = none)
    (hpos : c.pos % 4 = pos % 4) (hs : s.length < 2 ^ 24) (hmax : s.length ≤ maxLen)
    (hfour : 4 ≤ (tlStringAt pos s ++ bs).length) :
    Returns (TlLeft Has c (tlStringAt pos s ++ bs)) (tlfString M maxLen) (tlfString M maxLen)
      (fun r X => r = ((s.length : ℤ), s) ∧
        TlLeft Has (c.advance (tlStringAt pos s).length) bs X) := by
  have hplace : pos + (tlLength s.length ++ s).length = pos + (tlLength s.length).length + s.length := by
    rw [List.length_append, Nat.add_assoc]
  have hlength : (tlStringAt pos s).length = (tlLength s.length).length
      + (s.length + (tlZeros (pos + (tlLength s.length).length + s.length)).length) := by
    unfold tlStringAt
    rw [hplace, List.length_append, List.length_append, Nat.add_assoc]
  have hbytes : tlStringAt pos s ++ bs = tlLength s.length
      ++ (s ++ (tlZeros (pos + (tlLength s.length).length + s.length) ++ bs)) := by
    unfold tlStringAt
    rw [hplace]
    simp only [List.append_assoc]
  rw [hbytes] at hfour ⊢
  rw [hlength, ← TlIn.advance_advance]
  refine (tlfStringLen_returns hM herror hs hmax ?_ hfour).bind
    (fun l => Returns.given (fun hl => ?_))
  · rw [List.length_append]
    omega
  · have hnext : (c.advance (tlLength s.length).length).pos % 4
        = (pos + (tlLength s.length).length : ℕ) % 4 := by
      change (c.pos + (tlLength s.length).length) % 4 = _
      omega
    rw [hl, if_neg (not_lt.mpr (Int.natCast_nonneg _))]
    have herror' : (c.advance (tlLength s.length).length).error = none := herror
    refine (tlfStringData_returns hM herror' hnext).bind (fun r => Returns.given (fun hr => ?_))
    rw [hr]
    refine Returns.pure (fun X hX => ⟨?_, hX⟩)
    rw [if_neg (not_lt.mpr (Int.natCast_nonneg _))]

/-- **All strings** are fetched, by induction; each bound is at least the length. -/
theorem tlfStrings_returns {pos : ℕ} {strs : List Bytes} {maxLens : List ℤ}
    (herror : c.error = none) (hpos : c.pos % 4 = pos % 4) (hs : ∀ s ∈ strs, s.length < 2 ^ 24)
    (hmax : List.Forall₂ (fun s maxLen => (List.length s : ℤ) ≤ maxLen) strs maxLens)
    (hroom : TlRoomy pos (tlStringsAt pos strs ++ bs).length strs) :
    Returns (TlLeft Has c (tlStringsAt pos strs ++ bs)) (tlfStrings M maxLens)
      (tlfStrings M maxLens)
      (fun r X => r = strs.map (fun s => ((s.length : ℤ), s)) ∧
        TlLeft Has (c.advance (tlStringsAt pos strs).length) bs X) := by
  induction hmax generalizing c pos with
  | nil =>
    refine Returns.pure (fun X hX => ⟨rfl, ?_⟩)
    rw [tlStringsAt, List.length_nil, TlIn.advance_zero]
    exact hX
  | @cons s maxLen ss maxLens hs₀ _ ih =>
    rw [List.forall_mem_cons] at hs
    rw [tlStringsAt, List.append_assoc] at hroom ⊢
    obtain ⟨hfour, hfits, hrest⟩ := hroom
    refine (tlfString_returns hM herror hpos hs.1 hs₀ (by omega)).bind
      (fun x => Returns.given (fun hx => ?_))
    have hnext : (c.advance (tlStringAt pos s).length).pos % 4
        = (pos + (tlStringAt pos s).length : ℕ) % 4 := by
      change (c.pos + (tlStringAt pos s).length) % 4 = _
      omega
    have hleft : (((tlStringAt pos s
        ++ (tlStringsAt (pos + (tlStringAt pos s).length) ss ++ bs)).length : ℕ) : ℤ)
        - (tlStringAt pos s).length
        = (tlStringsAt (pos + (tlStringAt pos s).length) ss ++ bs).length := by
      rw [List.length_append]
      omega
    rw [hleft] at hrest
    rw [List.length_append, ← TlIn.advance_advance]
    have herror' : (c.advance (tlStringAt pos s).length).error = none := herror
    refine (ih herror' hnext hs.2 hrest).bind (fun xs => Returns.given (fun hxs => ?_))
    exact Returns.pure (fun X hX => ⟨by rw [hx, hxs, List.map_cons], hX⟩)

end Fetching

/-! ## What is not a string -/

section Errors

variable {ι : Type} {M : TlInMethods ι} {Has : TlState ι → Bytes → Prop} {c : TlIn} {bs : Bytes}

/-- An operation fails: it returns `a`, and there is an error. -/
def Fails {α : Type} (a : α) : α → TlState ι → Prop := fun r X => r = a ∧ X.cur.error.isSome

theorem pure_fails {α : Type} {a : α} (h : c.error.isSome) : Returns (TlLeft Has c bs)
    (pure a : TlM ι α) (pure a : TlM ι α) (Fails a) :=
  Returns.pure (fun _ hX => ⟨rfl, hX.1 ▸ h⟩)

variable (hM : TlReader M Has)
include hM

theorem setError_fails {α : Type} (errnum : ℤ) (text : String) (a : α) : Returns (TlLeft Has c bs)
    (do
      tlfSetError errnum text
      pure a : TlM ι α)
    (do
      tlfSetError errnum text
      pure a : TlM ι α) (Fails a) :=
  (setError_returns hM errnum text a).post
    (fun _ _ hX => ⟨hX.1, hX.2.1 ▸ c.setError_isSome errnum text⟩)

/-- A length that is not within the bounds. -/
theorem tlfStringBound_fails {n : ℕ} {maxLen : ℤ} (hbad : maxLen < n ∨ bs.length < n) :
    Returns (TlLeft Has c bs) (tlfStringBound maxLen n) (tlfStringBound maxLen n) (Fails (-1)) := by
  apply tlIn_returns
  by_cases hmax : maxLen < n
  · rw [if_pos hmax]
    exact setError_fails hM _ _ _
  · rw [if_neg hmax]
    refine Returns.ite (fun _ => setError_fails hM _ _ _) (fun hn X hX => ?_)
    have hlen := hX.2.1
    omega

/-- Padding that is not zero, or not there. -/
theorem tlfPad_fails (hbad : ∃ b ∈ bs.take (-c.pos % 4).toNat, b ≠ 0) :
    Returns (TlLeft Has c bs) (tlfPad M) (tlfPad M) (Fails (-1)) := by
  apply tlIn_returns
  generalize hk : (-c.pos % 4).toNat = k at hbad
  have hpad : -c.pos % 4 = k := by omega
  dsimp only
  rw [hpad]
  by_cases hfail : c.error.isSome ∨ c.remaining < k
  · exact check_fails_returns hM hfail (pure_fails (TlIn.check_isSome hfail (Int.natCast_nonneg k)))
  · push Not at hfail
    intro X hX
    have hlen := hX.2.1
    have hle : k ≤ bs.length := by omega
    refine check_returns hM (Option.not_isSome_iff_eq_none.mp hfail.1) hle ?_ X hX
    refine (Returns.assert hfail.2).bind (fun _ => ?_)
    refine (takeRawData_returns hM (SameWithin.refl M) hle).bind
      (fun t => Returns.given (fun ht => ?_))
    have hne : leWord t ≠ 0 := by
      rw [ht, Ne, leWord_eq_zero]
      push Not
      exact hbad
    rw [if_neg (by omega)]
    exact setError_fails hM _ _ _

/-- A string whose padding is not zero. -/
theorem tlfStringData_fails {n : ℕ} (herror : c.error = none) (hn : n ≤ bs.length)
    (hbad : ∃ b ∈ (bs.drop n).take (-(c.pos + n) % 4).toNat, b ≠ 0) :
    Returns (TlLeft Has c bs) (tlfStringData M n) (tlfStringData M n)
      (fun r X => r.1 = -1 ∧ X.cur.error.isSome) := by
  apply check_returns hM herror hn
  refine (takeRawData_returns hM (SameWithin.refl M) hn).bind (fun t => Returns.given (fun _ => ?_))
  refine (tlfPad_fails hM hbad).bind (fun r => Returns.given (fun hr => ?_))
  rw [hr, if_pos (by decide)]
  exact Returns.pure (fun _ hX => ⟨rfl, hX⟩)

omit hM in
/-- A string whose length fails. -/
theorem tlfString_fails_of_len {maxLen : ℤ}
    (h : Returns (TlLeft Has c bs) (tlfStringLen M maxLen) (tlfStringLen M maxLen) (Fails (-1))) :
    Returns (TlLeft Has c bs) (tlfString M maxLen) (tlfString M maxLen)
      (fun r X => r.1 = -1 ∧ X.cur.error.isSome) := by
  refine h.bind (fun l => Returns.given (fun hl => ?_))
  rw [hl, if_pos (by decide)]
  exact Returns.pure (fun _ hX => ⟨rfl, hX⟩)

/-- What the first bytes say is a length within the bounds, but the padding is not zero. -/
theorem tlfString_fails_of_pad {maxLen : ℤ} (herror : c.error = none) (hfour : 4 ≤ bs.length)
    (hff : leWord (bs.take 1) ≠ 0xff) (hmax : (tlHead bs).2 ≤ maxLen)
    (hn : (tlHead bs).2 ≤ (bs.drop (tlHead bs).1).length)
    (hbad : ∃ b ∈ (bs.drop ((tlHead bs).1 + (tlHead bs).2)).take
      (-(c.pos + ((tlHead bs).1 + (tlHead bs).2 : ℕ)) % 4).toNat, b ≠ 0) :
    Returns (TlLeft Has c bs) (tlfString M maxLen) (tlfString M maxLen)
      (fun r X => r.1 = -1 ∧ X.cur.error.isSome) := by
  have herror' : (c.advance (tlHead bs).1).error = none := herror
  have hpad : ∃ b ∈ ((bs.drop (tlHead bs).1).drop (tlHead bs).2).take
      (-((c.advance (tlHead bs).1).pos + (tlHead bs).2) % 4).toNat, b ≠ 0 := by
    change ∃ b ∈ ((bs.drop (tlHead bs).1).drop (tlHead bs).2).take
      (-(c.pos + (tlHead bs).1 + (tlHead bs).2) % 4).toNat, b ≠ 0
    rwa [List.drop_drop, add_assoc, ← Nat.cast_add]
  refine (tlfStringLen_head hM herror hfour hff (tlfStringBound_returns hmax hn)).bind
    (fun l => Returns.given (fun hl => ?_))
  rw [hl, if_neg (not_lt.mpr (Int.natCast_nonneg _))]
  apply (tlfStringData_fails hM herror' hn hpad).bind
  rintro ⟨r, t⟩
  refine Returns.given (fun hr => ?_)
  obtain rfl : r = -1 := hr
  exact Returns.pure (fun _ hX => ⟨rfl, hX⟩)

/-- **`tlf_string` fails** on bytes that are not a string. -/
theorem tlfString_fails {maxLen : ℤ} (hbad : BadString c.pos maxLen bs) :
    Returns (TlLeft Has c bs) (tlfString M maxLen) (tlfString M maxLen)
      (fun r X => r.1 = -1 ∧ X.cur.error.isSome) := by
  by_cases hfail : c.error.isSome ∨ c.remaining < (4 : ℕ)
  · refine tlfString_fails_of_len (check_fails_returns (n := 4) hM hfail ?_)
    exact pure_fails (TlIn.check_isSome hfail (by decide))
  · push Not at hfail
    have herror := Option.not_isSome_iff_eq_none.mp hfail.1
    intro X hX
    have hlen := hX.2.1
    have hfour : 4 ≤ bs.length := by omega
    refine (?_ : Returns (TlLeft Has c bs) (tlfString M maxLen) (tlfString M maxLen) _) X hX
    by_cases hff : leWord (bs.take 1) = 0xff
    · refine tlfString_fails_of_len (check_returns (n := 4) hM herror hfour ?_)
      refine (takeRawData_returns (n := 1) hM (SameWithin.refl M) (by omega)).bind
        (fun x => Returns.given (fun hx => ?_))
      rw [hx, if_pos (by omega)]
      exact setError_fails hM _ _ _
    · by_cases hlong : maxLen < (tlHead bs).2 ∨ (bs.drop (tlHead bs).1).length < (tlHead bs).2
      · exact tlfString_fails_of_len
          (tlfStringLen_head hM herror hfour hff (tlfStringBound_fails hM hlong))
      · push Not at hlong
        apply tlfString_fails_of_pad hM herror hfour hff hlong.1 hlong.2
        rcases hbad with h | h | h | h
        · exact absurd h hff
        · exact absurd h (not_lt.mpr hlong.1)
        · exact absurd h (not_lt.mpr hlong.2)
        · exact h

end Errors

/-! ## There and back -/

/-- Strings are stored behind what an output holds, at the place `pos`. -/
def TlStored (strs : List Bytes) (pos : ℕ) (room : ℤ) : Prop :=
  ∀ w, Returns (OutHas w pos room) (tlsStrings strs) (tlsStrings strs)
    (fun _ => OutHas (w ++ tlStringsAt pos strs) (pos + (tlStringsAt pos strs).length)
      (room - (tlStringsAt pos strs).length))

/-- Strings are fetched from the start of an input, and exactly the bytes that were stored are
taken. -/
def TlFetched {ι : Type} (M : TlInMethods ι) (Has : TlState ι → Bytes → Prop) (strs : List Bytes)
    (maxLens : List ℤ) (pos : ℕ) : Prop :=
  ∀ (c : TlIn) (rest : Bytes), c.error = none → c.pos % 4 = pos % 4 →
    TlRoomy pos (tlStringsAt pos strs ++ rest).length strs →
    Returns (TlLeft Has c (tlStringsAt pos strs ++ rest)) (tlfStrings M maxLens)
      (tlfStrings M maxLens)
      (fun r X => r = strs.map (fun s => ((s.length : ℤ), s)) ∧
        TlLeft Has (c.advance (tlStringsAt pos strs).length) rest X)

/-- What is not a string is refused with an error. -/
def TlRefused {ι : Type} (M : TlInMethods ι) (Has : TlState ι → Bytes → Prop) : Prop :=
  ∀ (c : TlIn) (maxLen : ℤ) (bs : Bytes), BadString c.pos maxLen bs →
    Returns (TlLeft Has c bs) (tlfString M maxLen) (tlfString M maxLen)
      (fun r X => r.1 = -1 ∧ X.cur.error.isSome)

/-- **Strings are stored and fetched**, when there is room for them, for which it is enough at a
multiple of four that the bytes fit: an output of either kind gets them behind each other, and an
input of either kind gives them back, at a place that is the same modulo four.  What is not a string
is not returned as one. -/
theorem tl_strings_round_trip (strs : List Bytes) (maxLens : List ℤ) (pos : ℕ) (room : ℤ)
    (hs : ∀ s ∈ strs, s.length < 2 ^ 24)
    (hmax : List.Forall₂ (fun s maxLen => (List.length s : ℤ) ≤ maxLen) strs maxLens)
    (hroom : TlRoomy pos room strs ∨ pos % 4 = 0 ∧ (tlStringsAt pos strs).length ≤ room) :
    TlStored strs pos room ∧
    (∀ s, TlFetched (tlInStrMethods s) (StrHas s) strs maxLens pos) ∧
    TlFetched tlInRawMsgMethods MessageHas strs maxLens pos ∧
    (∀ s, TlRefused (tlInStrMethods s) (StrHas s)) ∧ TlRefused tlInRawMsgMethods MessageHas := by
  have hfits := hroom.elim id (fun h => roomy_of_aligned h.1 h.2)
  refine ⟨fun w => tlsStrings_returns hs hfits, fun s c rest herror hpos hinput => ?_,
    fun c rest herror hpos hinput => ?_, fun s c maxLen bs hbad => ?_, fun c maxLen bs hbad => ?_⟩
  · exact tlfStrings_returns (strReader s) herror hpos hs hmax hinput
  · exact tlfStrings_returns messageReader herror hpos hs hmax hinput
  · exact tlfString_fails (strReader s) hbad
  · exact tlfString_fails messageReader hbad

/-- Three bytes and no bytes, at the start of eight. -/
theorem tl_strings_round_trip_two :
    TlStored [[1, 2, 3], []] 0 8 ∧
    (∀ s, TlFetched (tlInStrMethods s) (StrHas s) [[1, 2, 3], []] [3, 0] 0) ∧
    TlFetched tlInRawMsgMethods MessageHas [[1, 2, 3], []] [3, 0] 0 ∧
    (∀ s, TlRefused (tlInStrMethods s) (StrHas s)) ∧ TlRefused tlInRawMsgMethods MessageHas :=
  tl_strings_round_trip [[1, 2, 3], []] [3, 0] 0 8 (by decide)
    (.cons (by decide) (.cons (by decide) .nil)) (.inr ⟨rfl, by decide⟩)

/-- At the place 3 a string without bytes takes one byte.  It is not stored where there is room for
one byte, and where it is, it is not fetched from the end of an input. -/
theorem not_tl_strings_round_trip : (tlStringsAt 3 [[]]).length = 1 ∧
    tlsStrings [[]] (MsgState.start (fun _ _ => 0), ⟨.str [0, 0, 0], 3, 1⟩) = none ∧
    ∃ X Y, tlsStrings [[]] (MsgState.start (fun _ _ => 0), ⟨.str [0, 0, 0], 3, 4⟩)
        = some ((), X) ∧ X.2.buffer = .str [0, 0, 0, 0] ∧
      tlfSkip (tlInStrMethods [0, 0, 0, 0]) 3 (tlfInitStr X.1 X.2 4) = some (3, Y) ∧
      (tlfString (tlInStrMethods [0, 0, 0, 0]) 0 Y).map Prod.fst = some (-1, []) := by
  exact ⟨rfl, rfl, _, _, rfl, rfl, rfl, rfl⟩

end MtprotoProxy
