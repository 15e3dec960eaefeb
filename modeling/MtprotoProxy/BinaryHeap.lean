/-
# Binary heaps in an array

A heap of pointers that lies in an array from position 1 on, where each thing knows its own
position; position 0 says that a thing is not in the heap.

A thing is put at a place by moving a hole: `siftUp` moves it towards the root and `siftDown`
towards the leaves until the thing fits, and `sinkHole` moves it to a leaf.  `HasHole` says that
everything but the hole is in its place, and `OrderedAround` that everything but the hole is in
order; each move keeps both, and `HasHole.fill` is a heap again (`IsHeap`).

This file names nothing of the proxy.
-/
import Mathlib
import MtprotoProxy.Runs

namespace CLib

/-- An array of `cap` pointers, the number of those in use, and the place that each thing has. -/
structure HeapArray (ι : Type) (cap : ℕ) where
  slot : ℕ → Option ι
  size : ℕ
  pos : ι → ℕ

namespace HeapArray

variable {ι : Type} {cap : ℕ}

/-! ## The loops -/

section Loops

variable [DecidableEq ι] (gt : ι → ι → Bool)

/-- The thing that `a[i]` points to; there is none outside of the array. -/
def read (H : HeapArray ι cap) (i : ℕ) : Option ι := if i < cap then H.slot i else none

/-- The thing `x` at the place `i`. -/
def put (H : HeapArray ι cap) (i : ℕ) (x : ι) : HeapArray ι cap where
  slot := Function.update H.slot i (some x)
  size := H.size
  pos := Function.update H.pos x i

/-- Another number of places in use. -/
def resize (H : HeapArray ι cap) (n : ℕ) : HeapArray ι cap := { H with size := n }

/-- `x->pos = 0`. -/
def unplace (H : HeapArray ι cap) (x : ι) : HeapArray ι cap :=
  { H with pos := Function.update H.pos x 0 }

/-- `a[i] = 0`. -/
def clear (H : HeapArray ι cap) (i : ℕ) : HeapArray ι cap :=
  { H with slot := Function.update H.slot i none }

/-- `a[i] = x; x->pos = i`, inside of the array. -/
def place (H : HeapArray ι cap) (i : ℕ) (x : ι) : Option (HeapArray ι cap) :=
  if i < cap then some (H.put i x) else none

/-- The hole at `i` moves up while the thing above it is greater than `x`. -/
def siftUp (x : ι) : ℕ → HeapArray ι cap → ℕ → Option (HeapArray ι cap × ℕ)
  | 0, _, _ => none
  | n + 1, H, i =>
    if 1 < i then do
      let y ← H.read (i / 2)
      if gt y x then do
        let H ← H.place i y
        siftUp x n H (i / 2)
      else some (H, i)
    else some (H, i)

/-- The child of `i` that is not greater than the other one. -/
def lesserChild (H : HeapArray ι cap) (i : ℕ) : Option ℕ :=
  if 2 * i < H.size then do
    let a ← H.read (2 * i)
    let b ← H.read (2 * i + 1)
    some (if gt a b then 2 * i + 1 else 2 * i)
  else some (2 * i)

/-- The hole at `i` moves down while `x` is greater than the thing below it. -/
def siftDown (x : ι) : ℕ → HeapArray ι cap → ℕ → Option (HeapArray ι cap × ℕ)
  | 0, _, _ => none
  | n + 1, H, i =>
    if 2 * i ≤ H.size then do
      let j ← H.lesserChild gt i
      let y ← H.read j
      if gt x y then do
        let H ← H.place i y
        siftDown x n H j
      else some (H, i)
    else some (H, i)

/-- The hole at `i` moves down to a leaf. -/
def sinkHole : ℕ → HeapArray ι cap → ℕ → Option (HeapArray ι cap × ℕ)
  | 0, _, _ => none
  | n + 1, H, i =>
    if 2 * i ≤ H.size then do
      let j ← H.lesserChild gt i
      let y ← H.read j
      let H ← H.place i y
      sinkHole n H j
    else some (H, i)

end Loops

/-! ## Heaps and heaps with a hole -/

variable {κ : Type*} [LinearOrder κ] {key : ι → κ} {H : HeapArray ι cap} {i j : ℕ} {x y : ι}
  {Q : Set ι}

/-- What stands at `k` is not after what stands at `l`. -/
def LeAt (key : ι → κ) (H : HeapArray ι cap) (k l : ℕ) : Prop :=
  ∀ a b, H.slot k = some a → H.slot l = some b → key a ≤ key b

/-- **A heap of the things in `Q`.** -/
structure IsHeap (key : ι → κ) (H : HeapArray ι cap) (Q : Set ι) : Prop where
  size_lt : H.size < cap
  filled : ∀ k, 0 < k → k ≤ H.size → ∃ y ∈ Q, H.slot k = some y ∧ H.pos y = k
  back : ∀ y ∈ Q, 0 < H.pos y ∧ H.pos y ≤ H.size ∧ H.slot (H.pos y) = some y
  out : ∀ y, y ∉ Q → H.pos y = 0
  ordered : ∀ k, 1 < k → k ≤ H.size → LeAt key H (k / 2) k

/-- The things in `Q` have their places, and `i` is free for `x`. -/
structure HasHole (H : HeapArray ι cap) (i : ℕ) (x : ι) (Q : Set ι) : Prop where
  pos : 0 < i
  le_size : i ≤ H.size
  size_lt : H.size < cap
  filled : ∀ k, 0 < k → k ≤ H.size → k ≠ i → ∃ y ∈ Q, H.slot k = some y ∧ H.pos y = k
  back : ∀ y ∈ Q, 0 < H.pos y ∧ H.pos y ≤ H.size ∧ H.pos y ≠ i ∧ H.slot (H.pos y) = some y
  out : ∀ y, y ∉ Q → y ≠ x → H.pos y = 0
  notMem : x ∉ Q

/-- Everything is in order that is not next to `i`, and so is what stands above and below `i`. -/
structure OrderedAround (key : ι → κ) (H : HeapArray ι cap) (i : ℕ) : Prop where
  edge : ∀ k, 1 < k → k ≤ H.size → k ≠ i → k / 2 ≠ i → LeAt key H (k / 2) k
  grand : 1 < i → ∀ c, c / 2 = i → c ≤ H.size → LeAt key H (i / 2) c

/-- What stands above `i` is not after `x`. -/
def Above (key : ι → κ) (H : HeapArray ι cap) (i : ℕ) (x : ι) : Prop :=
  1 < i → ∀ a, H.slot (i / 2) = some a → key a ≤ key x

/-- What stands below `i` is not before `x`. -/
def Below (key : ι → κ) (H : HeapArray ι cap) (i : ℕ) (x : ι) : Prop :=
  ∀ c, c / 2 = i → c ≤ H.size → ∀ b, H.slot c = some b → key x ≤ key b

variable [DecidableEq ι]

@[simp] theorem put_size : (H.put i x).size = H.size := rfl

omit [DecidableEq ι] in
@[simp] theorem resize_size (n : ℕ) : (H.resize n).size = n := rfl

omit [DecidableEq ι] in
@[simp] theorem resize_pos (n : ℕ) : (H.resize n).pos = H.pos := rfl

theorem put_slot_self : (H.put i x).slot i = some x := Function.update_self ..

theorem put_slot_ne {k : ℕ} (hk : k ≠ i) : (H.put i x).slot k = H.slot k :=
  Function.update_of_ne hk ..

theorem put_pos_self : (H.put i x).pos x = i := Function.update_self ..

theorem put_pos_ne (hy : y ≠ x) : (H.put i x).pos y = H.pos y := Function.update_of_ne hy ..

theorem LeAt.put {k l : ℕ} (hk : k ≠ i) (hl : l ≠ i) (h : LeAt key H k l) :
    LeAt key (H.put i x) k l := by
  intro a b ha hb
  rw [put_slot_ne hk] at ha
  rw [put_slot_ne hl] at hb
  exact h a b ha hb

/-! ## Moving the hole -/

omit [DecidableEq ι] in
theorem HasHole.exists_at (h : HasHole H i x Q) (hj : 0 < j) (hle : j ≤ H.size) (hne : j ≠ i) :
    ∃ y ∈ Q, H.read j = some y ∧ H.slot j = some y ∧ H.pos y = j := by
  obtain ⟨y, hy, hslot, hpos⟩ := h.filled j hj hle hne
  have hcap := h.size_lt
  refine ⟨y, hy, ?_, hslot, hpos⟩
  unfold read
  rwa [if_pos (by omega)]

theorem HasHole.place_eq (h : HasHole H i x Q) (y : ι) : H.place i y = some (H.put i y) :=
  if_pos (lt_of_le_of_lt h.le_size h.size_lt)

/-- **A move of the hole**: what stands at `j` goes to `i`. -/
theorem HasHole.move (h : HasHole H i x Q) (hj : 0 < j) (hle : j ≤ H.size) (hne : j ≠ i)
    (hy : H.slot j = some y) : HasHole (H.put i y) j x Q := by
  obtain ⟨y', hyQ, hy', hposy⟩ := h.filled j hj hle hne
  obtain rfl : y = y' := Option.some.inj (hy.symm.trans hy')
  refine ⟨hj, hle, h.size_lt, ?_, ?_, ?_, h.notMem⟩
  · intro k hk hkle hkj
    by_cases hki : k = i
    · subst hki
      exact ⟨y, hyQ, put_slot_self, put_pos_self⟩
    · obtain ⟨z, hz, hslot, hposz⟩ := h.filled k hk hkle hki
      have hzy : z ≠ y := by
        rintro rfl
        omega
      exact ⟨z, hz, (put_slot_ne hki).trans hslot, (put_pos_ne hzy).trans hposz⟩
  · intro z hz
    by_cases hzy : z = y
    · subst hzy
      rw [put_pos_self]
      exact ⟨h.pos, h.le_size, hne.symm, put_slot_self⟩
    · obtain ⟨hpos, hposle, hposi, hslot⟩ := h.back z hz
      rw [put_pos_ne hzy]
      refine ⟨hpos, hposle, ?_, (put_slot_ne hposi).trans hslot⟩
      intro hposj
      rw [hposj, hy] at hslot
      exact hzy (Option.some.inj hslot).symm
  · intro z hz hzx
    have hzy : z ≠ y := by
      rintro rfl
      exact hz hyQ
    exact (put_pos_ne hzy).trans (h.out z hz hzx)

/-- What stands above the hole comes down. -/
theorem OrderedAround.up (hhole : HasHole H i x Q) (h : OrderedAround key H i) (hi : 1 < i)
    (hy : H.slot (i / 2) = some y) : OrderedAround key (H.put i y) (i / 2) := by
  have habove : i / 2 / 2 ≠ i ∧ i / 2 ≠ i := by omega
  have hle := hhole.le_size
  constructor
  · intro k hk hkle hkj hkj'
    have hki : k ≠ i := by
      rintro rfl
      exact hkj' rfl
    by_cases hki' : k / 2 = i
    · intro a b ha hb
      rw [hki', put_slot_self] at ha
      rw [put_slot_ne hki] at hb
      obtain rfl := Option.some.inj ha
      exact h.grand hi k hki' hkle _ b hy hb
    · exact (h.edge k hk hkle hki hki').put hki' hki
  · intro hj c hc hcle a b ha hb
    rw [put_slot_ne habove.1] at ha
    have hup : key a ≤ key y := h.edge (i / 2) hj (by omega) habove.2 habove.1 a y ha hy
    by_cases hci : c = i
    · subst hci
      obtain rfl := Option.mem_unique put_slot_self hb
      exact hup
    · rw [put_slot_ne hci] at hb
      have hcj := h.edge c (by omega) hcle hci (by omega)
      rw [hc] at hcj
      exact hup.trans (hcj y b hy hb)

/-- What stands below the hole comes up, when nothing else below the hole is before it. -/
theorem OrderedAround.down (hhole : HasHole H i x Q) (h : OrderedAround key H i) (hj : j / 2 = i)
    (hjle : j ≤ H.size) (hmin : ∀ c, c / 2 = i → c ≤ H.size → LeAt key H j c)
    (hy : H.slot j = some y) : OrderedAround key (H.put i y) j := by
  have hi := hhole.pos
  constructor
  · intro k hk hkle hkj hkj'
    by_cases hki : k = i
    · subst hki
      intro a b ha hb
      rw [put_slot_self] at hb
      rw [put_slot_ne (by omega)] at ha
      obtain rfl := Option.some.inj hb
      exact h.grand hk j hj hjle a _ ha hy
    · by_cases hki' : k / 2 = i
      · intro a b ha hb
        rw [hki', put_slot_self] at ha
        rw [put_slot_ne hki] at hb
        obtain rfl := Option.some.inj ha
        exact hmin k hki' hkle _ b hy hb
      · exact (h.edge k hk hkle hki hki').put hki' hki
  · intro _ c hc hcle a b ha hb
    rw [hj, put_slot_self] at ha
    rw [put_slot_ne (by omega)] at hb
    obtain rfl := Option.some.inj ha
    have hcj := h.edge c (by omega) hcle (by omega) (by omega)
    rw [hc] at hcj
    exact hcj _ b hy hb

/-- **The hole is filled** with a thing that fits. -/
theorem HasHole.fill (h : HasHole H i x Q) (hord : OrderedAround key H i)
    (habove : Above key H i x) (hbelow : Below key H i x) :
    IsHeap key (H.put i x) (insert x Q) := by
  have hi := h.pos
  refine ⟨h.size_lt, ?_, ?_, ?_, ?_⟩
  · intro k hk hkle
    by_cases hki : k = i
    · subst hki
      exact ⟨x, Set.mem_insert x Q, put_slot_self, put_pos_self⟩
    · obtain ⟨y, hy, hslot, hpos⟩ := h.filled k hk hkle hki
      have hyx : y ≠ x := by
        rintro rfl
        exact h.notMem hy
      exact ⟨y, Set.mem_insert_of_mem x hy, (put_slot_ne hki).trans hslot,
        (put_pos_ne hyx).trans hpos⟩
  · intro y hy
    by_cases hyx : y = x
    · subst hyx
      rw [put_pos_self]
      exact ⟨hi, h.le_size, put_slot_self⟩
    · obtain ⟨hpos, hle, hne, hslot⟩ := h.back y (Set.mem_of_mem_insert_of_ne hy hyx)
      rw [put_pos_ne hyx]
      exact ⟨hpos, hle, (put_slot_ne hne).trans hslot⟩
  · intro y hy
    rw [Set.mem_insert_iff, not_or] at hy
    exact (put_pos_ne hy.1).trans (h.out y hy.2 hy.1)
  · intro k hk hkle a b ha hb
    by_cases hki : k = i
    · subst hki
      rw [put_slot_ne (by omega)] at ha
      obtain rfl := Option.mem_unique put_slot_self hb
      exact habove hk a ha
    · rw [put_slot_ne hki] at hb
      by_cases hki' : k / 2 = i
      · rw [hki', put_slot_self] at ha
        obtain rfl := Option.some.inj ha
        exact hbelow k hki' hkle b hb
      · rw [put_slot_ne hki'] at ha
        exact hord.edge k hk hkle hki hki' a b ha hb

/-- The thing that is to go to the hole has no place meanwhile. -/
theorem HasHole.unplace (h : HasHole H i x Q) : HasHole (H.unplace x) i x Q := by
  have hpos : ∀ y, y ≠ x → (H.unplace x).pos y = H.pos y :=
    fun y hy => Function.update_of_ne hy ..
  have hne : ∀ y ∈ Q, y ≠ x := by
    rintro y hy rfl
    exact h.notMem hy
  refine ⟨h.pos, h.le_size, h.size_lt, ?_, ?_, ?_, h.notMem⟩
  · intro k hk hkle hki
    obtain ⟨y, hy, hslot, hposy⟩ := h.filled k hk hkle hki
    exact ⟨y, hy, hslot, (hpos y (hne y hy)).trans hposy⟩
  · intro y hy
    rw [hpos y (hne y hy)]
    exact h.back y hy
  · intro y hy hyx
    exact (hpos y hyx).trans (h.out y hy hyx)

omit [DecidableEq ι] in
/-- What lies in the hole does not matter. -/
theorem HasHole.clear (h : HasHole H i x Q) : HasHole (H.clear i) i x Q := by
  have hslot : ∀ k, k ≠ i → (H.clear i).slot k = H.slot k := fun k hk => Function.update_of_ne hk ..
  refine ⟨h.pos, h.le_size, h.size_lt, ?_, ?_, h.out, h.notMem⟩
  · intro k hk hkle hki
    rw [hslot k hki]
    exact h.filled k hk hkle hki
  · intro y hy
    obtain ⟨hpos, hle, hne, hy⟩ := h.back y hy
    exact ⟨hpos, hle, hne, (hslot _ hne).trans hy⟩

omit [DecidableEq ι] in
theorem OrderedAround.clear (h : OrderedAround key H i) : OrderedAround key (H.clear i) i := by
  have hslot : ∀ k, k ≠ i → (H.clear i).slot k = H.slot k := fun k hk => Function.update_of_ne hk ..
  constructor
  · intro k hk hkle hki hki' a b ha hb
    rw [hslot _ hki'] at ha
    rw [hslot k hki] at hb
    exact h.edge k hk hkle hki hki' a b ha hb
  · intro hi' c hc hcle a b ha hb
    rw [hslot _ (by omega)] at ha
    rw [hslot c (by omega)] at hb
    exact h.grand hi' c hc hcle a b ha hb

theorem OrderedAround.unplace (h : OrderedAround key H i) : OrderedAround key (H.unplace x) i :=
  ⟨h.edge, h.grand⟩

@[simp] theorem unplace_pos_self : (H.unplace x).pos x = 0 := Function.update_self ..

@[simp] theorem unplace_size : (H.unplace x).size = H.size := rfl

/-! ## What the loops do -/

/-- After a move of the hole to `i'`, with everything else in place and in order. -/
structure Moved (key : ι → κ) (H H' : HeapArray ι cap) (i' : ℕ) (x : ι) (Q : Set ι) : Prop where
  hole : HasHole H' i' x Q
  ordered : OrderedAround key H' i'
  size_eq : H'.size = H.size
  pos_eq : H'.pos x = H.pos x

/-- A thing of the heap is moved into the hole, and the hole goes on from there. -/
theorem Moved.put {H' : HeapArray ι cap} {i' : ℕ} (h : Moved key (H.put i y) H' i' x Q) (hy : y ∈ Q)
    (hx : x ∉ Q) : Moved key H H' i' x Q := by
  refine ⟨h.hole, h.ordered, h.size_eq, h.pos_eq.trans (put_pos_ne ?_)⟩
  rintro rfl
  exact hx hy

/-- **`siftUp`** ends where the thing above the hole is not after `x`; what is below the hole is not
before `x` if it was so. -/
theorem siftUp_moved {gt : ι → ι → Bool} (hgt : ∀ y ∈ Q, gt y x = true ↔ key x < key y) {n : ℕ}
    (hn : i ≤ n) (hhole : HasHole H i x Q) (hord : OrderedAround key H i) :
    ∃ H' i', siftUp gt x n H i = some (H', i') ∧ Moved key H H' i' x Q ∧ Above key H' i' x ∧
      (Below key H i x → Below key H' i' x) := by
  induction n generalizing H i with
  | zero =>
    have hi := hhole.pos
    omega
  | succ n ih =>
    rw [siftUp]
    split_ifs with hi
    · have hle := hhole.le_size
      obtain ⟨y, hy, hread, hslot, -⟩ :=
        hhole.exists_at (j := i / 2) (by omega) (by omega) (by omega)
      simp only [hread, some_bind]
      split_ifs with hyx
      · -- the thing above comes down, and what is below `x` now is not before it
        have hlt : key x < key y := (hgt y hy).mp hyx
        have hmove := hhole.move (by omega) (by omega) (by omega) hslot
        obtain ⟨H', i', hrun, hmoved, habove, hbelow⟩ :=
          ih (by omega) hmove (hord.up hhole hi hslot)
        simp only [hhole.place_eq]
        refine ⟨H', i', hrun, hmoved.put hy hhole.notMem, habove, ?_⟩
        · intro _
          apply hbelow
          intro c hc hcle b hb
          by_cases hci : c = i
          · subst hci
            rw [← Option.mem_unique put_slot_self hb]
            exact hlt.le
          · rw [put_slot_ne hci] at hb
            have hedge := hord.edge c (by omega) hcle hci (by omega)
            rw [hc] at hedge
            exact hlt.le.trans (hedge y b hslot hb)
      · refine ⟨H, i, rfl, ⟨hhole, hord, rfl, rfl⟩, ?_, id⟩
        intro _ a ha
        rw [← Option.mem_unique hslot ha, ← not_lt, ← hgt y hy]
        exact hyx
    · exact ⟨H, i, rfl, ⟨hhole, hord, rfl, rfl⟩, fun hi' => absurd hi' hi, id⟩

omit [DecidableEq ι] in
/-- The lesser child of the hole, where there is one. -/
theorem HasHole.lesserChild_eq {gt : ι → ι → Bool}
    (hgt : ∀ a ∈ Q, ∀ b ∈ Q, gt a b = true ↔ key b < key a) (h : HasHole H i x Q)
    (hi : 2 * i ≤ H.size) :
    ∃ j y, H.lesserChild gt i = some j ∧ H.read j = some y ∧ y ∈ Q ∧ H.slot j = some y ∧
      j / 2 = i ∧ i < j ∧ j ≤ H.size ∧ ∀ c, c / 2 = i → c ≤ H.size → LeAt key H j c := by
  have hpos := h.pos
  obtain ⟨a, haQ, ha, hslot, -⟩ := h.exists_at (j := 2 * i) (by omega) hi (by omega)
  unfold lesserChild
  split_ifs with hlt
  · obtain ⟨b, hbQ, hb, hslot', -⟩ :=
      h.exists_at (j := 2 * i + 1) (by omega) (by omega) (by omega)
    simp only [ha, hb, some_bind]
    -- the children of `i` are `2 * i` and `2 * i + 1`
    have hchild : ∀ c, c / 2 = i → c = 2 * i ∨ c = 2 * i + 1 := by
      intro c hc
      omega
    split_ifs with hab
    · rw [hgt a haQ b hbQ] at hab
      refine ⟨2 * i + 1, b, rfl, hb, hbQ, hslot', by omega, by omega, by omega, ?_⟩
      intro c hc _ u v hu hv
      obtain rfl := Option.mem_unique hslot' hu
      rcases hchild c hc with rfl | rfl
      · rw [hslot] at hv
        rw [← Option.some.inj hv]
        exact hab.le
      · rw [hslot'] at hv
        rw [← Option.some.inj hv]
    · rw [hgt a haQ b hbQ, not_lt] at hab
      refine ⟨2 * i, a, rfl, ha, haQ, hslot, by omega, by omega, hi, ?_⟩
      intro c hc _ u v hu hv
      obtain rfl := Option.mem_unique hslot hu
      rcases hchild c hc with rfl | rfl
      · rw [hslot] at hv
        rw [← Option.some.inj hv]
      · rw [hslot'] at hv
        rw [← Option.some.inj hv]
        exact hab
  · refine ⟨2 * i, a, rfl, ha, haQ, hslot, by omega, by omega, hi, ?_⟩
    intro c hc hcle u v hu hv
    obtain rfl : c = 2 * i := by omega
    rw [← Option.mem_unique hu hv]

/-- **`siftDown`** ends where what is below the hole is not before `x`. -/
theorem siftDown_moved {gt : ι → ι → Bool}
    (hgt : ∀ a ∈ insert x Q, ∀ b ∈ Q, gt a b = true ↔ key b < key a) {n : ℕ}
    (hn : H.size < i + n) (hhole : HasHole H i x Q) (hord : OrderedAround key H i)
    (habove : Above key H i x) :
    ∃ H' i', siftDown gt x n H i = some (H', i') ∧ Moved key H H' i' x Q ∧ Above key H' i' x ∧
      Below key H' i' x := by
  have hi := hhole.pos
  have hile := hhole.le_size
  induction n generalizing H i with
  | zero => omega
  | succ n ih =>
    rw [siftDown]
    split_ifs with hchild
    · obtain ⟨j, y, hj, hread, hyQ, hslot, hj2, hij, hjle, hmin⟩ :=
        hhole.lesserChild_eq (fun a ha => hgt a (Set.mem_insert_of_mem x ha)) hchild
      simp only [hj, hread, some_bind]
      split_ifs with hxy
      · have hlt : key y < key x := (hgt x (Set.mem_insert x Q) y hyQ).mp hxy
        have hmove := hhole.move (by omega) hjle (by omega) hslot
        have hfits : Above key (H.put i y) j x := by
          intro _ a ha
          rw [hj2, put_slot_self] at ha
          rw [← Option.some.inj ha]
          exact hlt.le
        obtain ⟨H', i', hrun, hmoved, habove', hbelow⟩ :=
          ih (by rw [put_size]; omega) hmove (hord.down hhole hj2 hjle hmin hslot) hfits
            (by omega) hjle
        simp only [hhole.place_eq]
        exact ⟨H', i', hrun, hmoved.put hyQ hhole.notMem, habove', hbelow⟩
      · refine ⟨H, i, rfl, ⟨hhole, hord, rfl, rfl⟩, habove, ?_⟩
        intro c hc hcle b hb
        rw [hgt x (Set.mem_insert x Q) y hyQ, not_lt] at hxy
        exact hxy.trans (hmin c hc hcle y b hslot hb)
    · refine ⟨H, i, rfl, ⟨hhole, hord, rfl, rfl⟩, habove, ?_⟩
      intro c hc hcle
      omega

/-- **`sinkHole`** ends at a leaf. -/
theorem sinkHole_moved {gt : ι → ι → Bool} (hgt : ∀ a ∈ Q, ∀ b ∈ Q, gt a b = true ↔ key b < key a)
    {n : ℕ} (hn : H.size < i + n) (hhole : HasHole H i x Q) (hord : OrderedAround key H i) :
    ∃ H' i', sinkHole gt n H i = some (H', i') ∧ Moved key H H' i' x Q ∧ H'.size < 2 * i' := by
  have hi := hhole.pos
  have hile := hhole.le_size
  induction n generalizing H i with
  | zero => omega
  | succ n ih =>
    rw [sinkHole]
    split_ifs with hchild
    · obtain ⟨j, y, hj, hread, hyQ, hslot, hj2, hij, hjle, hmin⟩ :=
        hhole.lesserChild_eq hgt hchild
      have hmove := hhole.move (by omega) hjle (by omega) hslot
      obtain ⟨H', i', hrun, hmoved, hleaf⟩ :=
        ih (by rw [put_size]; omega) hmove (hord.down hhole hj2 hjle hmin hslot) (by omega) hjle
      simp only [hj, hread, hhole.place_eq, some_bind]
      exact ⟨H', i', hrun, hmoved.put hyQ hhole.notMem, hleaf⟩
    · exact ⟨H, i, rfl, ⟨hhole, hord, rfl, rfl⟩, by omega⟩

/-! ## Making a hole -/

omit [DecidableEq ι]

/-- The heap without things. -/
theorem isHeap_empty (hcap : 0 < cap) (slot : ℕ → Option ι) :
    IsHeap key (⟨slot, 0, fun _ => 0⟩ : HeapArray ι cap) ∅ := by
  refine ⟨hcap, ?_, ?_, ?_, ?_⟩
  · intro k hk hkle
    exact absurd hk (Nat.not_lt.mpr hkle)
  · intro y hy
    exact absurd hy (Set.notMem_empty y)
  · intro y _
    rfl
  · intro k hk hkle
    exact absurd hkle (by dsimp only; omega)

/-- The things in the heap are those that have a place. -/
theorem IsHeap.mem_iff (h : IsHeap key H Q) (y : ι) : y ∈ Q ↔ H.pos y ≠ 0 := by
  constructor
  · intro hy
    exact (h.back y hy).1.ne'
  · intro hpos
    by_contra hy
    exact hpos (h.out y hy)

/-- What lies behind the end does not matter. -/
theorem HasHole.clear_end {n : ℕ} (h : HasHole (H.resize n) i x Q) {k : ℕ} (hk : n < k) :
    HasHole ((H.clear k).resize n) i x Q := by
  have hslot : ∀ l, l ≤ n → (H.clear k).slot l = H.slot l :=
    fun l hl => Function.update_of_ne (by omega) ..
  refine ⟨h.pos, h.le_size, h.size_lt, ?_, ?_, h.out, h.notMem⟩
  · intro l hl hle hne
    obtain ⟨y, hy, hly, hpos⟩ := h.filled l hl hle hne
    exact ⟨y, hy, (hslot l hle).trans hly, hpos⟩
  · intro y hy
    obtain ⟨hpos, hle, hne, hly⟩ := h.back y hy
    exact ⟨hpos, hle, hne, (hslot _ hle).trans hly⟩

theorem OrderedAround.clear_end {n : ℕ} (h : OrderedAround key (H.resize n) i) {k : ℕ}
    (hk : n < k) : OrderedAround key ((H.clear k).resize n) i := by
  have hslot : ∀ l, l ≤ n → (H.clear k).slot l = H.slot l :=
    fun l hl => Function.update_of_ne (by omega) ..
  constructor
  · intro l hl hle hli hli' a b ha hb
    rw [resize_size] at hle
    exact h.edge l hl hle hli hli' a b ((hslot _ (by omega)).symm.trans ha)
      ((hslot l hle).symm.trans hb)
  · intro hi c hc hcle a b ha hb
    rw [resize_size] at hcle
    exact h.grand hi c hc hcle a b ((hslot _ (by omega)).symm.trans ha)
      ((hslot c hcle).symm.trans hb)

/-- The heap has as many places as things. -/
theorem IsHeap.ncard_eq (h : IsHeap key H Q) : Q.ncard = H.size := by
  have hbij : Set.BijOn H.pos Q (Set.Icc 1 H.size) := by
    refine ⟨?_, ?_, ?_⟩
    · intro y hy
      obtain ⟨hpos, hle, -⟩ := h.back y hy
      exact ⟨hpos, hle⟩
    · intro y hy z hz heq
      have hslot := (h.back y hy).2.2
      rw [heq, (h.back z hz).2.2] at hslot
      exact (Option.some.inj hslot).symm
    · rintro k ⟨hk, hkle⟩
      obtain ⟨y, hy, -, hpos⟩ := h.filled k hk hkle
      exact ⟨y, hy, hpos⟩
  calc Q.ncard = (H.pos '' Q).ncard := hbij.injOn.ncard_image.symm
    _ = (Set.Icc 1 H.size).ncard := by rw [hbij.image_eq]
    _ = H.size := by
      rw [← Finset.coe_Icc, Set.ncard_coe_finset, Nat.card_Icc, Nat.add_sub_cancel]

/-- A thing is taken out of the heap; the keys of the others stay. -/
theorem IsHeap.hole {key' : ι → κ} (h : IsHeap key H Q) (hx : x ∈ Q)
    (hkey : ∀ y, y ≠ x → key' y = key y) :
    HasHole H (H.pos x) x (Q \ {x}) ∧ OrderedAround key' H (H.pos x) := by
  obtain ⟨hpos, hle, hslot⟩ := h.back x hx
  have hother : ∀ k y, k ≠ H.pos x → H.slot k = some y → 0 < k → k ≤ H.size → y ≠ x := by
    rintro k y hk hy hk₀ hkle rfl
    obtain ⟨z, -, hz, hposz⟩ := h.filled k hk₀ hkle
    rw [← Option.mem_unique hy hz] at hposz
    exact hk hposz.symm
  refine ⟨⟨hpos, hle, h.size_lt, ?_, ?_, ?_, ?_⟩, ⟨?_, ?_⟩⟩
  · intro k hk hkle hki
    obtain ⟨y, hy, hslot', hpos'⟩ := h.filled k hk hkle
    exact ⟨y, ⟨hy, hother k y hki hslot' hk hkle⟩, hslot', hpos'⟩
  · intro y hy
    obtain ⟨hy₀, hyle, hyslot⟩ := h.back y hy.1
    refine ⟨hy₀, hyle, ?_, hyslot⟩
    intro heq
    rw [heq, hslot] at hyslot
    exact hy.2 (Option.some.inj hyslot).symm
  · intro y hy hyx
    exact h.out y (fun hyQ => hy ⟨hyQ, hyx⟩)
  · exact fun hx' => hx'.2 rfl
  · intro k hk hkle hki hki' a b ha hb
    rw [hkey a (hother _ a hki' ha (by omega) (by omega)),
      hkey b (hother k b hki hb (by omega) hkle)]
    exact h.ordered k hk hkle a b ha hb
  · intro hi c hc hcle a b ha hb
    rw [hkey a (hother _ a (by omega) ha (by omega) (by omega)),
      hkey b (hother c b (by omega) hb (by omega) hcle)]
    have hup := h.ordered (H.pos x) hi hle a x ha hslot
    have hdown := h.ordered c (by omega) hcle
    rw [hc] at hdown
    exact hup.trans (hdown x b hslot hb)

/-- One more place at the end. -/
theorem IsHeap.grow {key' : ι → κ} (h : IsHeap key H Q) (hx : x ∉ Q) (hcap : H.size + 1 < cap)
    (hkey : ∀ y, y ≠ x → key' y = key y) :
    HasHole (H.resize (H.size + 1)) (H.size + 1) x Q ∧
      OrderedAround key' (H.resize (H.size + 1)) (H.size + 1) := by
  have hother : ∀ k y, H.slot k = some y → 0 < k → k ≤ H.size → y ≠ x := by
    rintro k y hy hk hkle rfl
    obtain ⟨z, hz, hslot, -⟩ := h.filled k hk hkle
    rw [hy] at hslot
    exact hx (Option.some.inj hslot ▸ hz)
  refine ⟨⟨Nat.succ_pos _, le_rfl, hcap, ?_, ?_, ?_, hx⟩, ⟨?_, ?_⟩⟩
  · intro k hk hkle hne
    rw [resize_size] at hkle
    exact h.filled k hk (by omega)
  · intro y hy
    obtain ⟨hy₀, hyle, hslot⟩ := h.back y hy
    rw [resize_size, resize_pos]
    exact ⟨hy₀, by omega, by omega, hslot⟩
  · intro y hy _
    exact h.out y hy
  · intro k hk hkle hki _ a b ha hb
    rw [resize_size] at hkle
    rw [hkey a (hother _ a ha (by omega) (by omega)), hkey b (hother k b hb (by omega) (by omega))]
    exact h.ordered k hk (by omega) a b ha hb
  · intro _ c hc hcle
    rw [resize_size] at hcle
    omega

/-- **The last place is given up**, and the thing `y` on it is to go to the hole. -/
theorem HasHole.shrink (h : HasHole H i x Q) (hord : OrderedAround key H i) (hi : i < H.size)
    (hy : H.slot H.size = some y) (hx : H.pos x = 0) :
    HasHole (H.resize (H.size - 1)) i y (Q \ {y}) ∧
      OrderedAround key (H.resize (H.size - 1)) i ∧ y ∈ Q := by
  obtain ⟨y', hyQ, hy', hposy⟩ := h.filled H.size (by omega) le_rfl (by omega)
  obtain rfl : y = y' := Option.some.inj (hy.symm.trans hy')
  have hpos := h.pos
  refine ⟨⟨hpos, ?_, ?_, ?_, ?_, ?_, ?_⟩, ⟨?_, ?_⟩, hyQ⟩
  · rw [resize_size]
    omega
  · have hlt := h.size_lt
    rw [resize_size]
    omega
  · intro k hk hkle hki
    rw [resize_size] at hkle
    obtain ⟨z, hz, hslot, hposz⟩ := h.filled k hk (by omega) hki
    refine ⟨z, ⟨hz, ?_⟩, hslot, hposz⟩
    rintro rfl
    omega
  · intro z hz
    obtain ⟨hz₀, hzle, hzi, hslot⟩ := h.back z hz.1
    refine ⟨hz₀, ?_, hzi, hslot⟩
    have hlast : H.pos z ≠ H.size := by
      intro heq
      rw [heq, hy] at hslot
      exact hz.2 (Option.some.inj hslot).symm
    rw [resize_size, resize_pos]
    omega
  · intro z hz hzy
    by_cases hzx : z = x
    · rw [hzx]
      exact hx
    · exact h.out z (fun hzQ => hz ⟨hzQ, hzy⟩) hzx
  · exact fun hy' => hy'.2 rfl
  · intro k hk hkle hki hki'
    rw [resize_size] at hkle
    exact hord.edge k hk (by omega) hki hki'
  · intro hi' c hc hcle
    rw [resize_size] at hcle
    exact hord.grand hi' c hc (by omega)

/-- The hole at the end is given up. -/
theorem HasHole.cut (h : HasHole H H.size x Q) (hord : OrderedAround key H H.size)
    (hx : H.pos x = 0) : IsHeap key (H.resize (H.size - 1)) Q := by
  have hpos := h.pos
  refine ⟨?_, ?_, ?_, ?_, ?_⟩
  · have hlt := h.size_lt
    rw [resize_size]
    omega
  · intro k hk hkle
    rw [resize_size] at hkle
    exact h.filled k hk (by omega) (by omega)
  · intro y hy
    obtain ⟨hy₀, hyle, hyne, hslot⟩ := h.back y hy
    refine ⟨hy₀, ?_, hslot⟩
    rw [resize_size, resize_pos]
    omega
  · intro y hy
    by_cases hyx : y = x
    · rw [hyx]
      exact hx
    · exact h.out y hy hyx
  · intro k hk hkle
    rw [resize_size] at hkle
    exact hord.edge k hk (by omega) (by omega) (by omega)

/-- **The root is not after anything.** -/
theorem IsHeap.root_le (h : IsHeap key H Q) (hx : H.slot 1 = some x) (hy : y ∈ Q) :
    key x ≤ key y := by
  obtain ⟨hpos, hle, hslot⟩ := h.back y hy
  -- from any place up to the root
  have hup : ∀ k, 0 < k → k ≤ H.size → ∀ z, H.slot k = some z → key x ≤ key z := by
    intro k
    induction k using Nat.strong_induction_on with
    | _ k ih =>
      intro hk hkle z hz
      by_cases hk₁ : k = 1
      · subst hk₁
        rw [← Option.mem_unique hx hz]
      · obtain ⟨w, -, hw, -⟩ := h.filled (k / 2) (by omega) (by omega)
        exact (ih (k / 2) (by omega) (by omega) (by omega) w hw).trans
          (h.ordered k (by omega) hkle w z hw hz)
  exact hup _ hpos hle y hslot

end HeapArray

end CLib
