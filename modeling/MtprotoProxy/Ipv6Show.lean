/-
# Printing IPv6 addresses

`conv_ipv6_internal` and `show_ipv6` from `net/net-events.c`, and that `parse_text_ipv6` reads what
they print.

The printer looks for the longest run of zero groups that a nonzero group follows (`zeroScan`), and
leaves it out; a run at the end is left out only when the whole address is zero.  Every text but
that of an IPv4-mapped address is a text form of the address (`ipv6Text_printed`).

The texts are written piece by piece, each with its zero, into a buffer at a pointer; a byte
outside of the buffer is `none`.  A text takes at most 40 bytes with its zero, so that `show_ipv6`,
which starts again at the front of its 256 bytes when the pointer is behind the first 200, never
leaves them.
-/
import MtprotoProxy.Ipv6Text
import MtprotoProxy.Runs

namespace MtprotoProxy

open CLib Runs

/-! ## The code -/

/-- `a[i]` of the sixteen bytes as eight little-endian shorts. -/
def shortAt (a : Bytes) (i : ℕ) : ℕ := (byteAt a (2 * i)).toNat + 256 * (byteAt a (2 * i + 1)).toNat

/-- The argument `const unsigned short a[8]`. -/
def shorts (a : Bytes) : List ℕ := (List.range 8).map (shortAt a)

/-- `ntohs`. -/
def ntohs (x : ℕ) : ℕ := x % 256 * 256 + x / 256

/-- The first loop, from the group `i` on: the zeros at the end, and the end and the length of the
longest run of zeros that is followed by a nonzero group. -/
def zeroScan : List ℕ → ℕ → ℕ → ℕ → ℕ → ℕ × ℕ × ℕ
  | [], _, j, k, l => (j, k, l)
  | x :: a, i, j, k, l =>
    if x ≠ 0 then
      if l < j then zeroScan a (i + 1) 0 i j else zeroScan a (i + 1) 0 k l
    else zeroScan a (i + 1) (j + 1) k l

/-- `ptr += sprintf (ptr, ..)`: the text and its zero. -/
def sprintfAt (text : Bytes) (w : Bytes × ℕ) : Option (Bytes × ℕ) := do
  let buf ← writeAt w.1 w.2 (text ++ [0])
  some (buf, w.2 + text.length)

/-- A loop that prints a group after the other. -/
def printAll (text : ℕ → Bytes) : List ℕ → Bytes × ℕ → Option (Bytes × ℕ)
  | [], w => some w
  | x :: a, w => do printAll text a (← sprintfAt (text x) w)

/-- `"::ffff:%d.%d.%d.%d"`. -/
def mappedText (a : List ℕ) : Bytes :=
  "::ffff:".toUTF8.toList ++ fmtNat (a.getD 6 0 % 256) ++ [46] ++ fmtNat (a.getD 6 0 / 256) ++ [46]
    ++ fmtNat (a.getD 7 0 % 256) ++ [46] ++ fmtNat (a.getD 7 0 / 256)

/-- The branch of `conv_ipv6_internal` that leaves out the `l` zeros before `k`. -/
def printRun (a : List ℕ) (k l : ℕ) (w : Bytes × ℕ) : Option (Bytes × ℕ) := do
  let w ← printAll (fun x => fmtHex (ntohs x) ++ [58]) (a.take (k - l)) w
  let w ← (if k - l = 0 ∨ k = 8 then (writeAt w.1 w.2 [58]).map (fun b => (b, w.2 + 1)) else some w)
  printAll (fun x => 58 :: fmtHex (ntohs x)) (a.drop k) w

/-- The branch of `conv_ipv6_internal` that prints all groups. -/
def printGroups (a : List ℕ) (w : Bytes × ℕ) : Option (Bytes × ℕ) := do
  let w ← printAll (fun x => fmtHex (ntohs x) ++ [58]) (a.take 7) w
  sprintfAt (fmtHex (ntohs (a.getD 7 0))) w

/-- `conv_ipv6_internal`: the buffer, and the length of the text. -/
def convIpv6Internal (a : List ℕ) (buf : Bytes) (ptr : ℕ) : Option (Bytes × ℕ) := do
  let (j, k, l) := zeroScan a 0 0 0 0
  if j = 8 then
    let buf ← writeAt buf ptr [58, 58, 0]
    some (buf, 2)
  else if l = 5 ∧ a.getD 5 0 = 0xffff then
    let w ← sprintfAt (mappedText a) (buf, ptr)
    some (w.1, w.2 - ptr)
  else if l ≠ 0 then
    let w ← printRun a k l (buf, ptr)
    some (w.1, w.2 - ptr)
  else
    let w ← printGroups a (buf, ptr)
    some (w.1, w.2 - ptr)

/-- The static variables of `show_ipv6`. -/
structure ShowBuffer where
  abuf : Bytes
  ptr : ℕ

/-- They are zeros and `abuf` at first. -/
def ShowBuffer.start : ShowBuffer := ⟨List.replicate 256 0, 0⟩

/-- `show_ipv6`: the static variables, and the offset of the text in `abuf`. -/
def showIpv6 (b : ShowBuffer) (a : Ipv6Bytes) : Option (ShowBuffer × ℕ) := do
  let res := if 200 < b.ptr then 0 else b.ptr
  let (abuf, n) ← convIpv6Internal (shorts a.val) b.abuf res
  some (⟨abuf, res + (n + 1)⟩, res)

/-! ## The runs of zeros -/

/-- **What the scan finds**: `j` zeros at the end, and a run of `l` zeros before `k`. -/
theorem zeroScan_spec : ∀ {a P : List ℕ} {j k l j' k' l' : ℕ},
    zeroScan a P.length j k l = (j', k', l') →
    j ≤ P.length → P.drop (P.length - j) = List.replicate j 0 →
    l ≤ k → (l = 0 ∨ k < P.length) → (P.drop (k - l)).take l = List.replicate l 0 →
    j' ≤ (P ++ a).length ∧ (P ++ a).drop ((P ++ a).length - j') = List.replicate j' 0 ∧
      l' ≤ k' ∧ (l' = 0 ∨ k' < (P ++ a).length) ∧
      ((P ++ a).drop (k' - l')).take l' = List.replicate l' 0 := by
  intro a
  induction a with
  | nil =>
    intro P j k l j' k' l' h hj hz hlk hk hrun
    obtain ⟨rfl, rfl, rfl⟩ : j = j' ∧ k = k' ∧ l = l' := by simpa [zeroScan] using h
    rw [List.append_nil]
    exact ⟨hj, hz, hlk, hk, hrun⟩
  | cons x a ih =>
    intro P j k l j' k' l' h hj hz hlk hk hrun
    have hlen : (P ++ [x]).length = P.length + 1 := by rw [List.length_append]; rfl
    have happ : P ++ x :: a = (P ++ [x]) ++ a := by simp
    rw [happ]
    -- a run that was found stays where it is
    have hkeep : ((P ++ [x]).drop (k - l)).take l = List.replicate l 0 := by
      rcases hk with rfl | hk
      · rfl
      · rw [List.drop_append_of_le_length (by omega), List.take_append_of_le_length, hrun]
        rw [List.length_drop]
        omega
    rw [zeroScan, ← hlen] at h
    split at h
    · have hnone : (P ++ [x]).drop ((P ++ [x]).length - 0) = List.replicate 0 0 := by simp
      split at h
      · apply ih h (Nat.zero_le _) hnone (by omega) (Or.inr (by omega))
        rw [List.drop_append_of_le_length (by omega), hz]
        simp
      · refine ih h (Nat.zero_le _) hnone hlk ?_ hkeep
        rcases hk with hk | hk
        · exact Or.inl hk
        · exact Or.inr (by omega)
    · rename_i hx
      rw [not_not] at hx
      refine ih h (by omega) ?_ hlk ?_ hkeep
      · rw [hlen, Nat.add_sub_add_right, List.drop_append_of_le_length (by omega), hz, hx,
          List.replicate_succ']
      · rcases hk with hk | hk
        · exact Or.inl hk
        · exact Or.inr (by omega)

/-- The groups of an address around the run that is left out. -/
theorem zeroScan_split {a : List ℕ} {j k l : ℕ} (h : zeroScan a 0 0 0 0 = (j, k, l)) :
    (j = a.length → a = List.replicate a.length 0) ∧ l ≤ k ∧ (l = 0 ∨ k < a.length) ∧
      (l ≠ 0 → a = a.take (k - l) ++ List.replicate l 0 ++ a.drop k) := by
  obtain ⟨hj, hz, hlk, hk, hrun⟩ := @zeroScan_spec a [] 0 0 0 j k l h le_rfl rfl le_rfl
    (Or.inl rfl) rfl
  rw [List.nil_append] at hj hz hk hrun
  refine ⟨?_, hlk, hk, ?_⟩
  · rintro rfl
    simpa using hz
  · intro hl
    rw [← hrun, List.append_assoc]
    have hdrop : a.drop k = (a.drop (k - l)).drop l := by
      rw [List.drop_drop]
      congr 1
      omega
    rw [hdrop, List.take_append_drop, List.take_append_drop]

/-! ## Writing piece by piece -/

/-- **The text `T` has been written** behind `A`, and the buffer has `room` bytes after it. -/
structure Written (A T : Bytes) (room : ℕ) (w : Bytes × ℕ) : Prop where
  ptr : w.2 = A.length + T.length
  buf : ∃ D, w.1 = A ++ T ++ D ∧ D.length = room

/-- A zero follows the text. -/
def Ended (w : Bytes × ℕ) : Prop := ∃ D, w.1.drop w.2 = 0 :: D

theorem Written.start (buf : Bytes) {ptr : ℕ} (h : ptr ≤ buf.length) :
    Written (buf.take ptr) [] (buf.length - ptr) (buf, ptr) where
  ptr := by simp [h]
  buf := ⟨buf.drop ptr, by simp, by simp⟩

theorem Written.length {A T : Bytes} {room : ℕ} {w : Bytes × ℕ} (h : Written A T room w) :
    w.1.length = A.length + T.length + room := by
  obtain ⟨D, hD, hlen⟩ := h.buf
  rw [hD, List.length_append, List.length_append, hlen]

/-- Bytes are written behind the text. -/
theorem Written.write {A T : Bytes} {room : ℕ} {w : Bytes × ℕ} (h : Written A T room w)
    (data : Bytes) (hroom : data.length ≤ room) :
    ∃ D, writeAt w.1 w.2 data = some (A ++ T ++ data ++ D) ∧ D.length = room - data.length := by
  obtain ⟨D, hD, hlen⟩ := h.buf
  refine ⟨D.drop data.length, ?_, by rw [List.length_drop, hlen]⟩
  have hwrite := @writeAt_append (A ++ T) (D.take data.length) (D.drop data.length) data w.2
    (by rw [List.length_append, h.ptr]) (by rw [List.length_take, hlen, min_eq_left hroom])
  rw [List.append_assoc (A ++ T), List.take_append_drop, ← hD] at hwrite
  exact hwrite

/-- **`sprintf`** writes its text and a zero. -/
theorem Written.sprintf {A T : Bytes} {room : ℕ} {w : Bytes × ℕ} (h : Written A T room w)
    (text : Bytes) (hroom : text.length < room) :
    ∃ w', sprintfAt text w = some w' ∧ Written A (T ++ text) (room - text.length) w' ∧ Ended w' := by
  obtain ⟨D, hwrite, hD⟩ := h.write (text ++ [0])
    (by rw [List.length_append, List.length_singleton]; omega)
  rw [List.length_append, List.length_singleton] at hD
  refine ⟨(A ++ T ++ (text ++ [0]) ++ D, w.2 + text.length), ?_, ⟨?_, 0 :: D, ?_, ?_⟩, D, ?_⟩
  · unfold sprintfAt
    rw [hwrite, some_bind]
  · rw [List.length_append, h.ptr, Nat.add_assoc]
  · simp
  · rw [List.length_cons, hD]
    omega
  · have hptr : w.2 + text.length = (A ++ T ++ text).length := by
      simp only [List.length_append, h.ptr]
    have hbuf : A ++ T ++ (text ++ [0]) ++ D = (A ++ T ++ text) ++ 0 :: D := by simp
    show (A ++ T ++ (text ++ [0]) ++ D).drop (w.2 + text.length) = 0 :: D
    rw [hbuf, hptr, List.drop_left]

/-- **A loop of `sprintf`** writes the texts one after the other. -/
theorem Written.printAll {A : Bytes} (text : ℕ → Bytes) : ∀ (a : List ℕ) {T : Bytes} {room : ℕ}
    {w : Bytes × ℕ}, Written A T room w → (a.flatMap text).length < room →
    ∃ w', MtprotoProxy.printAll text a w = some w' ∧
      Written A (T ++ a.flatMap text) (room - (a.flatMap text).length) w' ∧ (a ≠ [] → Ended w') := by
  intro a
  induction a with
  | nil =>
    intro T room w h _
    refine ⟨w, rfl, ?_, fun h => absurd rfl h⟩
    simpa using h
  | cons x a ih =>
    intro T room w h hroom
    rw [List.flatMap_cons, List.length_append] at hroom
    obtain ⟨w₁, hw₁, h₁, hend₁⟩ := h.sprintf (text x) (by omega)
    obtain ⟨w₂, hw₂, h₂, hend₂⟩ := ih h₁ (by omega)
    refine ⟨w₂, ?_, ?_, fun _ => ?_⟩
    · rw [MtprotoProxy.printAll, hw₁, some_bind, hw₂]
    · rw [List.flatMap_cons, List.length_append, ← List.append_assoc, ← Nat.sub_sub]
      exact h₂
    · cases a with
      | nil =>
        obtain rfl : w₁ = w₂ := Option.some.inj hw₂
        exact hend₁
      | cons y a => exact hend₂ (List.cons_ne_nil y a)

/-! ## The text of an address -/

/-- A group in hexadecimal digits. -/
def groupText (x : ℕ) : Bytes := fmtHex (ntohs x)

/-- The text that is printed for an address with the run of `l` zeros before `k` left out. -/
def printedText (a : List ℕ) (k l : ℕ) : Bytes :=
  (a.take (k - l)).flatMap (fun x => groupText x ++ [58])
    ++ (if k - l = 0 then [58] else [])
    ++ (a.drop k).flatMap (fun x => 58 :: groupText x)

theorem ntohs_lt {x : ℕ} (h : x < 65536) : ntohs x < 16 ^ 4 := by
  unfold ntohs
  omega

theorem isGroup_groupText {x : ℕ} (h : x < 65536) : IsGroup (groupText x) :=
  ⟨fmtHex_ne_nil _, length_fmtHex_le (by norm_num) (ntohs_lt h),
    fun _ hc => isXdigit_of_mem_fmtHex hc⟩

/-- The text forms of groups: with a colon behind each, and in front of each. -/
theorem flatMap_colon_behind {a : List ℕ} (hne : a ≠ []) :
    a.flatMap (fun x => groupText x ++ [58]) = joinGroups (a.map groupText) ++ [58] := by
  induction a with
  | nil => exact absurd rfl hne
  | cons x a ih =>
    cases a with
    | nil => simp [joinGroups]
    | cons y a =>
      rw [List.flatMap_cons, ih (List.cons_ne_nil y a), List.map_cons, List.map_cons,
        joinGroups_cons, joinGroups_cons]
      simp

theorem flatMap_colon_front {a : List ℕ} (hne : a ≠ []) :
    a.flatMap (fun x => 58 :: groupText x) = 58 :: joinGroups (a.map groupText) := by
  obtain ⟨x, a, rfl⟩ := List.exists_cons_of_ne_nil hne
  rw [List.map_cons, joinGroups_cons, List.flatMap_cons, List.flatMap_map]
  rfl

theorem map_hexValue_groupText (a : List ℕ) :
    (a.map groupText).map hexValue = a.map ntohs := by
  rw [List.map_map]
  exact List.map_congr_left (fun x _ => hexValue_fmtHex (ntohs x))

theorem length_flatMap_le {f : ℕ → Bytes} {a : List ℕ} {m : ℕ} (h : ∀ x ∈ a, (f x).length ≤ m) :
    (a.flatMap f).length ≤ m * a.length := by
  induction a with
  | nil => simp
  | cons x a ih =>
    have hx := h x List.mem_cons_self
    have ha := ih (fun y hy => h y (List.mem_cons_of_mem _ hy))
    rw [List.flatMap_cons, List.length_append, List.length_cons, Nat.mul_succ]
    omega

section Text

variable {a : List ℕ} {k l : ℕ}

/-- **The text with a run left out is a text form** of the address. -/
theorem ipv6Text_printed (ha : ∀ x ∈ a, x < 65536) (hlen : a.length = 8) (hlk : l ≤ k)
    (hk : k < 8) (hl : l ≠ 0)
    (hsplit : a = a.take (k - l) ++ List.replicate l 0 ++ a.drop k) :
    Ipv6Text (printedText a k l) (a.map ntohs) := by
  set L := a.take (k - l) with hL
  set R := a.drop k with hR
  have hRne : R ≠ [] := by
    rw [← List.length_pos_iff, hR, List.length_drop]
    omega
  have hlenL : L.length = k - l := by
    rw [hL, List.length_take]
    omega
  have hlenR : R.length = 8 - k := by rw [hR, List.length_drop, hlen]
  have hform := @Ipv6Text.gap (L.map groupText) (R.map groupText)
    (by
      intro g hg
      obtain ⟨x, hx, rfl⟩ := List.mem_map.mp hg
      exact isGroup_groupText (ha x (List.mem_of_mem_take hx)))
    (by
      intro g hg
      obtain ⟨x, hx, rfl⟩ := List.mem_map.mp hg
      exact isGroup_groupText (ha x (List.mem_of_mem_drop hx)))
    (by rw [List.length_map, List.length_map]; omega)
  have hvalues : a.map ntohs = (L.map groupText).map hexValue
      ++ List.replicate (8 - ((L.map groupText).length + (R.map groupText).length)) 0
      ++ (R.map groupText).map hexValue := by
    rw [List.length_map, List.length_map, hlenL, hlenR, map_hexValue_groupText,
      map_hexValue_groupText, show 8 - (k - l + (8 - k)) = l by omega]
    conv_lhs => rw [hsplit]
    rw [List.map_append, List.map_append, List.map_replicate]
    rfl
  have htext : printedText a k l
      = joinGroups (L.map groupText) ++ [58, 58] ++ joinGroups (R.map groupText) := by
    unfold printedText
    rw [← hL, ← hR, flatMap_colon_front hRne]
    by_cases hzero : k - l = 0
    · have hnil : L = [] := List.length_eq_zero_iff.mp (by omega)
      rw [if_pos hzero, hnil]
      rfl
    · have hne : L ≠ [] := by
        rw [← List.length_pos_iff]
        omega
      rw [if_neg hzero, flatMap_colon_behind hne]
      simp
  rw [htext, hvalues]
  exact hform

/-- Eight groups are a text form. -/
theorem ipv6Text_all (ha : ∀ x ∈ a, x < 65536) (hlen : a.length = 8) :
    Ipv6Text ((a.take 7).flatMap (fun x => groupText x ++ [58]) ++ groupText (a.getD 7 0))
      (a.map ntohs) := by
  have hform := @Ipv6Text.full (a.map groupText)
    (by
      intro g hg
      obtain ⟨x, hx, rfl⟩ := List.mem_map.mp hg
      exact isGroup_groupText (ha x hx))
    (by rw [List.length_map, hlen])
  have hlast : a = a.take 7 ++ [a.getD 7 0] := by
    have hdrop : a.drop 7 = [a.getD 7 0] := by
      rw [List.drop_eq_getElem_cons (by omega), List.drop_of_length_le (by omega),
        List.getD_eq_getElem _ _ (by omega)]
    rw [← hdrop, List.take_append_drop]
  have hne : a.take 7 ≠ [] := by
    rw [← List.length_pos_iff, List.length_take]
    omega
  rw [map_hexValue_groupText] at hform
  have htext : (a.take 7).flatMap (fun x => groupText x ++ [58]) ++ groupText (a.getD 7 0)
      = joinGroups (a.map groupText) := by
    obtain ⟨x, t, hxt⟩ := List.exists_cons_of_ne_nil hne
    conv_rhs => rw [hlast]
    rw [flatMap_colon_behind hne, List.map_append, hxt, List.map_cons, List.cons_append,
      joinGroups_cons, joinGroups_cons, List.flatMap_append]
    simp
  rw [htext]
  exact hform

end Text

/-! ## The bytes of an address -/

/-- The address is IPv4-mapped: ten zero bytes and two bytes of ones. -/
def IsMapped (a : Bytes) : Prop := a.take 12 = List.replicate 10 0 ++ [255, 255]

instance (a : Bytes) : Decidable (IsMapped a) := inferInstanceAs (Decidable (_ = _))

theorem length_shorts (a : Bytes) : (shorts a).length = 8 := by
  rw [shorts, List.length_map, List.length_range]

theorem shorts_lt {a : Bytes} {x : ℕ} (h : x ∈ shorts a) : x < 65536 := by
  obtain ⟨i, -, rfl⟩ := List.mem_map.mp h
  unfold shortAt
  have h₁ := (byteAt a (2 * i)).toNat_lt
  have h₂ := (byteAt a (2 * i + 1)).toNat_lt
  omega

/-- Bytes, two at a time. -/
theorem pairs_range : ∀ {n : ℕ} {a : Bytes}, a.length = 2 * n →
    (List.range n).flatMap (fun i => [byteAt a (2 * i), byteAt a (2 * i + 1)]) = a := by
  intro n
  induction n with
  | zero =>
    intro a h
    rw [List.length_eq_zero_iff.mp h]
    rfl
  | succ n ih =>
    intro a h
    obtain ⟨x, y, a, rfl⟩ : ∃ x y a', a = x :: y :: a' := by
      match a, h with
      | x :: y :: a', _ => exact ⟨x, y, a', rfl⟩
    rw [List.range_succ_eq_map, List.flatMap_cons, List.flatMap_map]
    have hrest := ih (a := a) (by simpa [Nat.mul_succ] using h)
    have hshift : ∀ i, byteAt (x :: y :: a) (2 * Nat.succ i) = byteAt a (2 * i) ∧
        byteAt (x :: y :: a) (2 * Nat.succ i + 1) = byteAt a (2 * i + 1) := fun i => ⟨rfl, rfl⟩
    simp only [(hshift _).1, (hshift _).2, hrest]
    rfl

/-- **The groups of an address are its bytes** in network order. -/
theorem groupBytes_shorts (a : Ipv6Bytes) : groupBytes ((shorts a.val).map ntohs) = a.val := by
  have hpair : ∀ i, groupBytes [ntohs (shortAt a.val i)]
      = [byteAt a.val (2 * i), byteAt a.val (2 * i + 1)] := by
    intro i
    have hval : ntohs (shortAt a.val i)
        = (byteAt a.val (2 * i)).toNat * 256 + (byteAt a.val (2 * i + 1)).toNat := by
      have h₁ := (byteAt a.val (2 * i)).toNat_lt
      unfold ntohs shortAt
      rw [Nat.add_mul_mod_self_left, Nat.mod_eq_of_lt h₁, Nat.add_mul_div_left _ _ (by norm_num),
        Nat.div_eq_of_lt h₁, Nat.zero_add]
    have h₂ := (byteAt a.val (2 * i + 1)).toNat_lt
    have hhi : ntohs (shortAt a.val i) / 256 = (byteAt a.val (2 * i)).toNat := by omega
    have hlo : UInt8.ofNat (ntohs (shortAt a.val i)) = byteAt a.val (2 * i + 1) := by
      apply UInt8.toNat.inj
      rw [UInt8.toNat_ofNat']
      omega
    show [UInt8.ofNat (ntohs (shortAt a.val i) / 256), UInt8.ofNat (ntohs (shortAt a.val i))] = _
    rw [hhi, hlo, UInt8.ofNat_toNat]
  rw [shorts, List.map_map, groupBytes, List.flatMap_map]
  refine (List.flatMap_congr (fun i _ => hpair i)).trans (pairs_range ?_)
  rw [a.property]

/-- The branch for IPv4-mapped addresses is taken for those only. -/
theorem isMapped_of_scan {a : Ipv6Bytes} {j k l : ℕ}
    (h : zeroScan (shorts a.val) 0 0 0 0 = (j, k, l)) (hl : l = 5)
    (h5 : (shorts a.val).getD 5 0 = 0xffff) : IsMapped a.val := by
  obtain ⟨-, hlk, hk, hsplit⟩ := zeroScan_split h
  rw [length_shorts] at hk
  have hrun := hsplit (by omega)
  have hzero : ∀ i, k - 5 ≤ i → i < k → (shorts a.val).getD i 0 = 0 := by
    intro i h1 h2
    have hL : ((shorts a.val).take (k - l)).length = k - l := by
      rw [List.length_take, length_shorts]
      omega
    rw [hrun, List.append_assoc, List.getD_append_right _ _ _ _ (by omega), List.getD_append _ _ _ _
      (by rw [hL, List.length_replicate]; omega), List.getD_eq_getElem?_getD,
      List.getElem?_replicate]
    split <;> rfl
  have hk5 : k = 5 := by
    by_contra hne
    have := hzero 5 (by omega) (by omega)
    omega
  have hshort : ∀ i < 8, (shorts a.val).getD i 0 = shortAt a.val i := by
    intro i hi
    rw [shorts, List.getD_eq_getElem _ _ (by simpa using hi), List.getElem_map,
      List.getElem_range]
  have hbyte : ∀ i, i < 5 → [byteAt a.val (2 * i), byteAt a.val (2 * i + 1)] = [0, 0] := by
    intro i hi
    have h0 := hzero i (by omega) (by omega)
    rw [hshort i (by omega), shortAt] at h0
    have hlo : byteAt a.val (2 * i) = 0 := UInt8.toNat.inj (by show _ = 0; omega)
    have hhi : byteAt a.val (2 * i + 1) = 0 := UInt8.toNat.inj (by show _ = 0; omega)
    rw [hlo, hhi]
  have hones : [byteAt a.val (2 * 5), byteAt a.val (2 * 5 + 1)] = [255, 255] := by
    rw [hshort 5 (by norm_num), shortAt] at h5
    have h₁ := (byteAt a.val (2 * 5)).toNat_lt
    have h₂ := (byteAt a.val (2 * 5 + 1)).toNat_lt
    have hlo : byteAt a.val (2 * 5) = 255 := UInt8.toNat.inj (by show _ = 255; omega)
    have hhi : byteAt a.val (2 * 5 + 1) = 255 := UInt8.toNat.inj (by show _ = 255; omega)
    rw [hlo, hhi]
  have htake : ∀ i < 12, byteAt (a.val.take 12) i = byteAt a.val i := by
    intro i hi
    unfold byteAt
    rw [List.getD_eq_getElem?_getD, List.getD_eq_getElem?_getD, List.getElem?_take_of_lt hi]
  have hpairs : (List.range 6).flatMap
      (fun i => [byteAt (a.val.take 12) (2 * i), byteAt (a.val.take 12) (2 * i + 1)])
      = (List.range 6).flatMap (fun i => [byteAt a.val (2 * i), byteAt a.val (2 * i + 1)]) := by
    refine List.flatMap_congr (fun i hi => ?_)
    rw [List.mem_range] at hi
    rw [htake _ (by omega), htake _ (by omega)]
  unfold IsMapped
  rw [← @pairs_range 6 (a.val.take 12) (by rw [List.length_take, a.property]; rfl), hpairs,
    List.range_succ, List.flatMap_append, List.flatMap_singleton, hones,
    List.flatMap_congr (fun i hi => hbyte i (List.mem_range.mp hi))]
  rfl

/-! ## What is printed -/

/-- Decimal digits of a byte. -/
theorem length_fmtNat_byte : ∀ n < 256, (fmtNat n).length ≤ 3 := by
  decide +kernel

/-- A text was printed at `ptr`: its length is counted, a zero is behind it. -/
structure PrintedAt (buf : Bytes) (ptr : ℕ) (text : Bytes) (w : Bytes × ℕ) : Prop where
  length : w.1.length = buf.length
  count : w.2 - ptr = text.length
  drop : ∃ D, w.1.drop ptr = text ++ 0 :: D

/-- What was written and has a zero behind it was printed. -/
theorem Written.printed {buf T : Bytes} {ptr : ℕ} {w : Bytes × ℕ} (hptr : ptr ≤ buf.length)
    (h : Written (buf.take ptr) T (buf.length - ptr - T.length) w) (hend : Ended w)
    (hT : T.length ≤ buf.length - ptr) : PrintedAt buf ptr T w := by
  have htake : (buf.take ptr).length = ptr := by rw [List.length_take, min_eq_left hptr]
  have hw := h.ptr
  have hlen := h.length
  rw [htake] at hw hlen
  obtain ⟨D, hD, -⟩ := h.buf
  have hdrop : w.1.drop ptr = T ++ D := by
    have hleft := @List.drop_left _ (buf.take ptr) (T ++ D)
    rw [htake, ← List.append_assoc, ← hD] at hleft
    exact hleft
  refine ⟨by omega, by omega, ?_⟩
  obtain ⟨E, hE⟩ := hend
  rw [hw, ← List.drop_drop, hdrop, List.drop_left] at hE
  exact ⟨E, by rw [hdrop, hE]⟩

section Branches

variable {s : List ℕ} {buf : Bytes} {ptr k l : ℕ}

/-- The text of an IPv4-mapped address is short. -/
theorem length_mappedText (hs : ∀ x ∈ s, x < 65536) : (mappedText s).length ≤ 22 := by
  have hget : ∀ i, s.getD i 0 < 65536 := by
    intro i
    by_cases hi : i < s.length
    · rw [List.getD_eq_getElem _ _ hi]
      exact hs _ (List.getElem_mem hi)
    · rw [List.getD_eq_default _ _ (by omega)]
      norm_num
  have hprefix : "::ffff:".toUTF8.toList.length = 7 := by decide +kernel
  have h₁ := length_fmtNat_byte (s.getD 6 0 % 256) (Nat.mod_lt _ (by norm_num))
  have h₂ := length_fmtNat_byte (s.getD 6 0 / 256) (by have := hget 6; omega)
  have h₃ := length_fmtNat_byte (s.getD 7 0 % 256) (Nat.mod_lt _ (by norm_num))
  have h₄ := length_fmtNat_byte (s.getD 7 0 / 256) (by have := hget 7; omega)
  unfold mappedText
  simp only [List.length_append, hprefix, List.length_singleton]
  omega

/-- Groups take at most five characters, each with its colon. -/
theorem length_groups_behind (hs : ∀ x ∈ s, x < 65536) (n : ℕ) :
    ((s.take n).flatMap (fun x => groupText x ++ [58])).length ≤ 5 * n := by
  refine (length_flatMap_le (m := 5) (fun x hx => ?_)).trans ?_
  · have := (isGroup_groupText (hs x (List.mem_of_mem_take hx))).2.1
    rw [List.length_append, List.length_singleton]
    omega
  · have := List.length_take_le n s
    omega

theorem length_groups_front (hs : ∀ x ∈ s, x < 65536) (n : ℕ) :
    ((s.drop n).flatMap (fun x => 58 :: groupText x)).length ≤ 5 * (s.length - n) := by
  refine (length_flatMap_le (m := 5) (fun x hx => ?_)).trans ?_
  · have := (isGroup_groupText (hs x (List.mem_of_mem_drop hx))).2.1
    rw [List.length_cons]
    omega
  · rw [List.length_drop]

/-- **All groups are printed.** -/
theorem printGroups_spec (hs : ∀ x ∈ s, x < 65536) (hlen : s.length = 8)
    (hroom : ptr + 40 ≤ buf.length) :
    ∃ w, printGroups s (buf, ptr) = some w ∧
      ((s.take 7).flatMap (fun x => groupText x ++ [58]) ++ groupText (s.getD 7 0)).length ≤ 39 ∧
      PrintedAt buf ptr
        ((s.take 7).flatMap (fun x => groupText x ++ [58]) ++ groupText (s.getD 7 0)) w := by
  have hfront := length_groups_behind hs 7
  have hback : (groupText (s.getD 7 0)).length ≤ 4 := by
    refine (isGroup_groupText (hs _ ?_)).2.1
    rw [List.getD_eq_getElem _ _ (by omega)]
    exact List.getElem_mem _
  have hstart := @Written.start buf ptr (by omega)
  obtain ⟨w₁, hw₁, h₁, -⟩ := Written.printAll (fun x => groupText x ++ [58]) (s.take 7)
    hstart (by omega)
  obtain ⟨w₂, hw₂, h₂, hend⟩ := h₁.sprintf (groupText (s.getD 7 0)) (by omega)
  rw [List.nil_append, Nat.sub_sub _ _ (groupText _).length, ← List.length_append] at h₂
  have htext : ((s.take 7).flatMap (fun x => groupText x ++ [58])
      ++ groupText (s.getD 7 0)).length ≤ 39 := by
    rw [List.length_append]
    omega
  refine ⟨w₂, ?_, htext, h₂.printed (by omega) hend (by omega)⟩
  simp only [groupText] at hw₁ hw₂
  unfold printGroups
  rw [hw₁, some_bind, hw₂]

/-- **The groups around a run are printed.** -/
theorem printRun_spec (hs : ∀ x ∈ s, x < 65536) (hlen : s.length = 8) (hlk : l ≤ k) (hk : k < 8)
    (hl : l ≠ 0) (hroom : ptr + 40 ≤ buf.length) :
    ∃ w, printRun s k l (buf, ptr) = some w ∧ (printedText s k l).length ≤ 39 ∧
      PrintedAt buf ptr (printedText s k l) w := by
  have hfront := length_groups_behind hs (k - l)
  have hback := length_groups_front hs k
  rw [hlen] at hback
  have hstart := @Written.start buf ptr (by omega)
  obtain ⟨w₁, hw₁, h₁, -⟩ := Written.printAll (fun x => groupText x ++ [58])
    (s.take (k - l)) hstart (by omega)
  rw [List.nil_append] at h₁
  set T := (s.take (k - l)).flatMap (fun x => groupText x ++ [58]) with hT
  -- the colon of an address that starts with the run
  obtain ⟨w₂, hw₂, h₂⟩ : ∃ w₂,
      (if k - l = 0 ∨ k = 8 then (writeAt w₁.1 w₁.2 [58]).map (fun b => (b, w₁.2 + 1))
        else some w₁) = some w₂ ∧
      Written (buf.take ptr) (T ++ if k - l = 0 then [58] else [])
        (buf.length - ptr - (T ++ if k - l = 0 then [58] else []).length) w₂ := by
    by_cases hzero : k - l = 0
    · obtain ⟨D, hwrite, hD⟩ := h₁.write [58] (by rw [List.length_singleton]; omega)
      rw [if_pos (Or.inl hzero), if_pos hzero, hwrite]
      refine ⟨_, rfl, ?_, D, by simp, ?_⟩
      · rw [List.length_append, List.length_singleton, ← Nat.add_assoc, ← h₁.ptr]
      · rw [hD, List.length_append, List.length_singleton, Nat.sub_sub]
    · rw [if_neg (by omega), if_neg hzero, List.append_nil]
      exact ⟨w₁, rfl, h₁⟩
  have hcolon : (T ++ if k - l = 0 then ([58] : Bytes) else []).length ≤ 5 * (k - l) + 1 := by
    rw [List.length_append]
    split
    · rw [List.length_singleton]
      omega
    · rw [List.length_nil]
      omega
  obtain ⟨w₃, hw₃, h₃, hend⟩ := Written.printAll (fun x => 58 :: groupText x) (s.drop k) h₂
    (by omega)
  rw [Nat.sub_sub _ _ (List.flatMap _ _).length, ← List.length_append] at h₃
  have hne : s.drop k ≠ [] := by
    rw [← List.length_pos_iff, List.length_drop]
    omega
  have htext : (printedText s k l).length ≤ 39 := by
    unfold printedText
    rw [← hT, List.length_append]
    omega
  refine ⟨w₃, ?_, htext, Written.printed (by omega) h₃ (hend hne) ?_⟩
  · simp only [groupText] at hw₁ hw₃
    unfold printRun
    rw [hw₁, Option.bind_eq_bind, Option.bind_some, hw₂, Option.bind_some, hw₃]
  · exact le_trans htext (by omega)

end Branches

/-- **What `conv_ipv6_internal` prints**: at most 39 characters, behind which it leaves a zero; and a
text form of the address, when the address is not IPv4-mapped. -/
theorem convIpv6Internal_spec (a : Ipv6Bytes) {buf : Bytes} {ptr : ℕ}
    (hroom : ptr + 40 ≤ buf.length) :
    ∃ buf' text, convIpv6Internal (shorts a.val) buf ptr = some (buf', text.length) ∧
      buf'.length = buf.length ∧ text.length ≤ 39 ∧ (∃ D, buf'.drop ptr = text ++ 0 :: D) ∧
      (¬ IsMapped a.val → Ipv6Text text ((shorts a.val).map ntohs)) := by
  obtain ⟨j, k, l, hscan⟩ : ∃ j k l, zeroScan (shorts a.val) 0 0 0 0 = (j, k, l) := ⟨_, _, _, rfl⟩
  obtain ⟨hall, hlk, hk, hsplit⟩ := zeroScan_split hscan
  have hmapped := @isMapped_of_scan a j k l hscan
  have hlen := length_shorts a.val
  have hlt : ∀ x ∈ shorts a.val, x < 65536 := fun x hx => shorts_lt hx
  rw [hlen] at hall hk
  have hstart := @Written.start buf ptr (by omega)
  unfold convIpv6Internal
  simp only [hscan]
  by_cases hj : j = 8
  · -- the zero address
    obtain ⟨w, hw, hwritten, hend⟩ := hstart.sprintf [58, 58] (by simp; omega)
    obtain ⟨buf', hwrite, hw⟩ := Option.bind_eq_some_iff.mp hw
    obtain rfl := Option.some.inj hw
    have hprinted := hwritten.printed (by omega) hend (by simp; omega)
    have hform := @Ipv6Text.gap [] [] (by simp) (by simp) (by norm_num)
    refine ⟨buf', [58, 58], ?_, hprinted.length, by norm_num, hprinted.drop, fun _ => ?_⟩
    · have hwrite' : writeAt buf ptr [58, 58, 0] = some buf' := hwrite
      rw [if_pos hj, hwrite']
      rfl
    · rw [hall hj, List.map_replicate]
      exact hform
  · rw [if_neg hj]
    by_cases hmap : l = 5 ∧ (shorts a.val).getD 5 0 = 0xffff
    · -- an IPv4-mapped address
      have htext := length_mappedText hlt
      obtain ⟨w, hw, hwritten, hend⟩ := hstart.sprintf (mappedText (shorts a.val)) (by omega)
      have hprinted := hwritten.printed (by omega) hend (by rw [List.nil_append]; omega)
      rw [List.nil_append] at hprinted
      refine ⟨w.1, mappedText (shorts a.val), ?_, hprinted.length, by omega, hprinted.drop,
        fun hno => absurd (hmapped hmap.1 hmap.2) hno⟩
      rw [if_pos hmap, hw, some_bind, hprinted.count]
    · rw [if_neg hmap]
      by_cases hl : l = 0
      · obtain ⟨w, hw, htext, hprinted⟩ := printGroups_spec hlt hlen hroom
        refine ⟨w.1, _, ?_, hprinted.length, htext, hprinted.drop, fun _ => ipv6Text_all hlt hlen⟩
        rw [if_neg (not_not.mpr hl), hw, some_bind, hprinted.count]
      · have hk8 : k < 8 := by omega
        obtain ⟨w, hw, htext, hprinted⟩ := printRun_spec hlt hlen hlk hk8 hl hroom
        refine ⟨w.1, _, ?_, hprinted.length, htext, hprinted.drop,
          fun _ => ipv6Text_printed hlt hlen hlk hk8 hl (hsplit hl)⟩
        rw [if_pos hl, hw, some_bind, hprinted.count]

/-! ## Printing and parsing, and the ring buffer -/

/-- A text of an address has no zero in it. -/
theorem zero_notMem_of_ipv6Text {text : Bytes} {vs : List ℕ} (h : Ipv6Text text vs) :
    (0 : UInt8) ∉ text := by
  have hjoin : ∀ gs : List Bytes, (∀ g ∈ gs, IsGroup g) → (0 : UInt8) ∉ joinGroups gs := by
    intro gs hgs hmem
    have hno : ∀ g ∈ gs, (0 : UInt8) ∉ g := by
      intro g hg h0
      exact absurd ((hgs g hg).2.2 0 h0) (by decide)
    cases gs with
    | nil => exact absurd hmem (by simp [joinGroups])
    | cons g gs =>
      rw [joinGroups_cons, List.mem_append] at hmem
      rcases hmem with hmem | hmem
      · exact hno g List.mem_cons_self hmem
      · obtain ⟨g', hg', hmem⟩ := List.mem_flatMap.mp hmem
        rcases List.mem_cons.mp hmem with hmem | hmem
        · exact absurd hmem (by decide)
        · exact hno g' (List.mem_cons_of_mem _ hg') hmem
  cases h with
  | full hgs _ => exact hjoin _ hgs
  | gap hL hR _ =>
    rw [List.mem_append, List.mem_append, not_or, not_or]
    exact ⟨⟨hjoin _ hL, by decide⟩, hjoin _ hR⟩

/-- The static variables between two calls: the pointer is in the array with room for its next
use. -/
def ShowBuffer.Good (b : ShowBuffer) : Prop := b.abuf.length = 256 ∧ b.ptr ≤ 240

/-- **One call of `show_ipv6`** writes inside the array, and leaves the text where it says. -/
theorem ShowBuffer.Good.show {b : ShowBuffer} (h : b.Good) (a : Ipv6Bytes) :
    ∃ b' res, showIpv6 b a = some (b', res) ∧ b'.Good ∧ res ≤ 200 := by
  obtain ⟨hlen, hptr⟩ := h
  have hres : (if 200 < b.ptr then 0 else b.ptr) ≤ 200 := by
    split <;> omega
  obtain ⟨abuf, text, hconv, hlen', htext, -⟩ := @convIpv6Internal_spec a b.abuf
    (if 200 < b.ptr then 0 else b.ptr) (by omega)
  refine ⟨⟨abuf, (if 200 < b.ptr then 0 else b.ptr) + (text.length + 1)⟩,
    if 200 < b.ptr then 0 else b.ptr, ?_, ⟨hlen'.trans hlen, ?_⟩, hres⟩
  · unfold showIpv6
    simp only [hconv, some_bind]
  · show (if 200 < b.ptr then 0 else b.ptr) + (text.length + 1) ≤ 240
    omega

/-- **Printing and parsing IPv6 addresses.**  For an address that is not IPv4-mapped,
`conv_ipv6_internal` leaves a string in any buffer with 40 bytes to spare, whose length it returns
and which `parse_text_ipv6` reads as the address, all of it.  And in every sequence of calls of
`show_ipv6`, with any addresses, no write leaves the 256 bytes of its buffer. -/
theorem ipv6_print_parse :
    (∀ (a : Ipv6Bytes) (buf : Bytes) (ptr : ℕ), ¬ IsMapped a.val → ptr + 40 ≤ buf.length →
      ∃ buf' n, convIpv6Internal (shorts a.val) buf ptr = some (buf', n) ∧
        buf'.length = buf.length ∧ n = (cstr (buf'.drop ptr)).length ∧
        ∀ ip : Ipv6Bytes, parseTextIpv6 ip.val (cstr (buf'.drop ptr)) = some ((n : ℤ), a.val)) ∧
    ∀ as : List Ipv6Bytes, ∃ b,
      run (fun b a => (showIpv6 b a).map Prod.fst) ShowBuffer.start as = some b ∧
      b.abuf.length = 256 := by
  constructor
  · intro a buf ptr hno hroom
    obtain ⟨buf', text, hconv, hlen, -, ⟨D, hdrop⟩, hform⟩ := convIpv6Internal_spec a hroom
    have htext := hform hno
    have hcstr : cstr (buf'.drop ptr) = text := by
      rw [hdrop]
      exact cstr_append_zero (zero_notMem_of_ipv6Text htext) D
    refine ⟨buf', text.length, hconv, hlen, by rw [hcstr], fun ip => ?_⟩
    rw [hcstr, (parseTextIpv6_of_text htext ip).1, groupBytes_shorts]
  · intro as
    have hstep : ∀ (b : ShowBuffer) (a : Ipv6Bytes), b.Good → True →
        ∃ b', (showIpv6 b a).map Prod.fst = some b' ∧ b'.Good := by
      intro b a hb _
      obtain ⟨b', res, hshow, hb', -⟩ := hb.show a
      exact ⟨b', by rw [hshow]; rfl, hb'⟩
    have hstart : ShowBuffer.start.Good := ⟨List.length_replicate, Nat.zero_le _⟩
    have halong := @along_of_always _ _ (fun b a => (showIpv6 b a).map Prod.fst) (fun _ _ => True)
      as ShowBuffer.start (fun _ _ _ => trivial)
    obtain ⟨b, hrun, hb⟩ := run_total hstep hstart halong
    exact ⟨b, hrun, hb.1⟩

/-- The address `1::2`. -/
theorem ipv6_print_parse_two :
    ∃ buf' n, convIpv6Internal (shorts ([0, 1] ++ List.replicate 12 0 ++ [0, 2]))
        (List.replicate 40 7) 0 = some (buf', n) ∧
      parseTextIpv6 (List.replicate 16 0) (cstr (buf'.drop 0))
        = some ((n : ℤ), [0, 1] ++ List.replicate 12 0 ++ [0, 2]) := by
  obtain ⟨buf', n, hconv, -, -, hparse⟩ := ipv6_print_parse.1
    ⟨[0, 1] ++ List.replicate 12 0 ++ [0, 2], rfl⟩ (List.replicate 40 7) 0 (by decide) (by simp)
  exact ⟨buf', n, hconv, hparse ⟨List.replicate 16 0, rfl⟩⟩

end MtprotoProxy
