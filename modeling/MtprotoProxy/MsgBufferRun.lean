/-
# Runs on a chunk of message buffers

Every search in the tree `free_cnt` ends at a free leaf and counts one less on the way from the root
to it, and only there; a buffer that is given back counts one more on its way.  So an operation
changes one leaf and the nodes above it, and the invariant of the allocator is kept.
-/
import MtprotoProxy.MsgBufferChunk
import MtprotoProxy.Runs

namespace MtprotoProxy

open CountTree

/-! ## The way up -/

section Walks

variable {n : ℕ} {c cnt : ℕ → ℕ}

theorem way_iff {x k : ℕ} (hk : 0 < k) : Way k x ↔ x = k ∨ Way (k / 2) x := by
  unfold Way
  rw [above_iff]
  constructor
  · rintro ⟨hx, rfl | habove⟩
    · exact Or.inl rfl
    · exact Or.inr ⟨hx, habove⟩
  · rintro (rfl | ⟨hx, habove⟩)
    · exact ⟨hk, Or.inl rfl⟩
    · exact ⟨hx, Or.inr habove⟩

theorem not_way_half {k : ℕ} (hk : 0 < k) : ¬ Way (k / 2) k := by
  intro h
  have := h.2.le
  omega

theorem not_way_zero (x : ℕ) : ¬ Way 0 x := by
  intro h
  have hpos := h.1
  have hle := h.2.le
  omega

/-- **`takeUp`** changes the way to `k`. -/
theorem takeUp_applied (cnt : ℕ → ℕ) (k : ℕ) : AppliedOn dec16 (Way k) cnt (takeUp cnt k) := by
  induction k using Nat.strong_induction_on generalizing cnt with
  | _ k ih =>
    rw [takeUp]
    by_cases hk : k = 0
    · rw [if_pos hk, hk]
      exact (AppliedOn.refl dec16 cnt).congr (fun x => iff_false_intro (not_way_zero x))
    · rw [if_neg hk]
      have hpos : 0 < k := Nat.pos_of_ne_zero hk
      have hself := (AppliedOn.refl dec16 cnt).update (i := k) (fun h => h)
      have hrest := ih (k / 2) (by omega) (Function.update cnt k (dec16 (cnt k)))
      refine (hself.trans hrest ?_).congr ?_
      · rintro x (rfl | hfalse)
        · exact not_way_half hpos
        · exact hfalse.elim
      · intro x
        rw [way_iff hpos, or_false]

/-- **`giveUp`** changes the way to `x`, and no count runs over. -/
theorem giveUp_applied {x : ℕ} (hx : 0 < x) (hfit : ∀ i, Way x i → 0 < inc16 (cnt i)) :
    ∃ cnt', giveUp cnt x = some cnt' ∧ AppliedOn inc16 (Way x) cnt cnt' := by
  induction x using Nat.strong_induction_on generalizing cnt with
  | _ x ih =>
    have hself := (AppliedOn.refl inc16 cnt).update (i := x) (fun h => h)
    rw [giveUp, if_pos (hfit x ⟨hx, above_refl x⟩)]
    by_cases hhalf : x / 2 = 0
    · rw [if_pos hhalf]
      refine ⟨_, rfl, hself.congr ?_⟩
      intro i
      rw [way_iff hx, hhalf, iff_false_intro (not_way_zero i)]
    · rw [if_neg hhalf]
      have hrest : ∀ i, Way (x / 2) i →
          0 < inc16 (Function.update cnt x (inc16 (cnt x)) i) := by
        intro i hi
        have hne : i ≠ x := by
          rintro rfl
          exact not_way_half hx hi
        rw [Function.update_of_ne hne]
        exact hfit i ((way_iff hx).mpr (Or.inr hi))
      obtain ⟨cnt', hrun, happlied⟩ := ih (x / 2) (by omega) (by omega) hrest
      refine ⟨cnt', hrun, (hself.trans happlied ?_).congr ?_⟩
      · rintro i (rfl | hfalse)
        · exact not_way_half hx
        · exact hfalse.elim
      · intro i
        rw [way_iff hx, or_false]

/-! ## The ways down -/

/-- **A free leaf is taken**: it is one of the `n` leaves, and its way is changed. -/
def Takes (n : ℕ) (c : ℕ → ℕ) (i : ℕ) (cnt : ℕ → ℕ) : Prop :=
  n ≤ i ∧ i < 2 * n ∧ 0 < c i ∧ AppliedOn dec16 (Way i) c cnt

/-- The nodes on the way to `i` that are below `j`. -/
def Below (j i x : ℕ) : Prop := j < x ∧ Above x i

theorem below_child_iff {i j y x : ℕ} (hy : y / 2 = i) (hjy : j < y) :
    Below j y x ↔ x = y ∨ Below j i x := by
  unfold Below
  rw [above_child_iff hy]
  constructor
  · rintro ⟨hjx, rfl | habove⟩
    · exact Or.inl rfl
    · exact Or.inr ⟨hjx, habove⟩
  · rintro (rfl | ⟨hjx, habove⟩)
    · exact ⟨hjy, Or.inl rfl⟩
    · exact ⟨hjx, Or.inr habove⟩

/-- **The inner loop**, from a node `i` below `j` that counts something. -/
theorem takeDown_spec (hc : IsCount n c) {fuel i j : ℕ} (hfuel : n - i < fuel) (hi : 0 < i)
    (hin : i < 2 * n) (hfree : 0 < c i) (hji : Above j i)
    (hcnt : AppliedOn dec16 (Below j i) c cnt) :
    ∃ y cnt', takeDown n fuel cnt i = some (y, cnt') ∧ n ≤ y ∧ y < 2 * n ∧ 0 < c y ∧ Above j y ∧
      AppliedOn dec16 (Below j y) c cnt' := by
  induction fuel generalizing i cnt with
  | zero => exact absurd hfuel (Nat.not_lt_zero _)
  | succ fuel ih =>
    rw [takeDown]
    by_cases hlt : i < n
    · rw [if_pos hlt]
      have hcount := hc i hi hlt
      have hjle := hji.le
      -- the children are not changed yet
      have hleft : cnt (2 * i) = c (2 * i) := by
        apply hcnt.off
        rintro ⟨-, habove⟩
        have := habove.le
        omega
      have hchild : ∃ y, (if cnt (2 * i) = 0 then 2 * i + 1 else 2 * i) = y ∧ y / 2 = i ∧
          0 < c y := by
        by_cases hzero : cnt (2 * i) = 0
        · exact ⟨2 * i + 1, if_pos hzero, by omega, by omega⟩
        · exact ⟨2 * i, if_neg hzero, by omega, by omega⟩
      obtain ⟨y, hy, hhalf, hpos⟩ := hchild
      dsimp only
      rw [hy]
      have hnew : ¬ Below j i y := by
        rintro ⟨-, habove⟩
        have := habove.le
        omega
      exact ih (by omega) (by omega) (by omega) hpos (hji.trans (above_child hhalf))
        ((hcnt.update hnew).congr (fun x => below_child_iff hhalf (by omega)))
    · rw [if_neg hlt]
      exact ⟨i, cnt, rfl, not_lt.mp hlt, hin, hfree, hji, hcnt⟩

/-- **The loop for the nearest buffer** ends at a free leaf; when it turned to another subtree, the
way from there is already changed. -/
theorem nearLoop_spec (hc : IsCount n c) {fuel x i j l r : ℕ} (hfuel : n - i < fuel) (hi : 0 < i)
    (hin : i < 2 * n) (hfree : 0 < c i) (hj : 0 < j) (hjn : j < 2 * n) (hjfree : 0 < c j) :
    ∃ y k cnt', nearLoop n x fuel c i j l r = some (y, k, cnt') ∧ n ≤ y ∧ y < 2 * n ∧ 0 < c y ∧
      ((k = 0 ∧ cnt' = c) ∨ (0 < k ∧ Above k y ∧ AppliedOn dec16 (Below k y) c cnt')) := by
  induction fuel generalizing i j l r with
  | zero => exact absurd hfuel (Nat.not_lt_zero _)
  | succ fuel ih =>
    rw [nearLoop]
    by_cases hlt : i < n
    · rw [if_pos hlt]
      have hcount := hc i hi hlt
      dsimp only
      by_cases hx : x < (l + r) / 2
      · rw [if_pos hx]
        by_cases hleft : 0 < c (2 * i)
        · rw [if_pos hleft]
          by_cases hright : 0 < c (2 * i + 1)
          · rw [if_pos hright]
            exact ih (by omega) (by omega) (by omega) hleft (by omega) (by omega) hright
          · rw [if_neg hright]
            exact ih (by omega) (by omega) (by omega) hleft hj hjn hjfree
        · rw [if_neg hleft]
          exact ih (by omega) (by omega) (by omega) (by omega) hj hjn hjfree
      · rw [if_neg hx]
        by_cases hright : 0 < c (2 * i + 1)
        · rw [if_pos hright]
          exact ih (by omega) (by omega) (by omega) hright hj hjn hjfree
        · rw [if_neg hright]
          -- the way turns to the subtree that was passed by
          have hstart : AppliedOn dec16 (Below j j) c c := by
            refine (AppliedOn.refl dec16 c).congr (fun x => iff_false_intro ?_)
            rintro ⟨hjx, habove⟩
            have := habove.le
            omega
          obtain ⟨y, cnt', hrun, hny, hyn, hy, hjy, happlied⟩ :=
            takeDown_spec hc (by omega : n - j < n + 1) hj hjn hjfree (above_refl j) hstart
          refine ⟨y, j, cnt', ?_, hny, hyn, hy, Or.inr ⟨hj, hjy, happlied⟩⟩
          rw [hrun]
          rfl
    · rw [if_neg hlt]
      exact ⟨i, 0, c, rfl, not_lt.mp hlt, hin, hfree, Or.inl ⟨rfl, rfl⟩⟩

/-- **The loop for a random buffer**, at a node `i` that counts more than `j`. -/
theorem randomLoop_spec (hc : IsCount n c) (hleaf : ∀ y, n ≤ y → y < 2 * n → c y ≤ 1)
    {fuel i j : ℕ} (hfuel : n - i < fuel) (hi : 0 < i) (hin : i < 2 * n) (hj : j < c i)
    (hcnt : AppliedOn dec16 (fun x => Way i x ∧ x ≠ i) c cnt) :
    ∃ y cnt', randomLoop n fuel cnt i j = some (y, cnt') ∧ Takes n c y cnt' := by
  induction fuel generalizing i j cnt with
  | zero => exact absurd hfuel (Nat.not_lt_zero _)
  | succ fuel ih =>
    have hself : cnt i = c i := hcnt.off i (fun h => h.2 rfl)
    have hway : AppliedOn dec16 (Way i) c (Function.update cnt i (dec16 (cnt i))) := by
      refine (hcnt.update (fun h => h.2 rfl)).congr (fun x => ?_)
      constructor
      · intro hx
        by_cases hxi : x = i
        · exact Or.inl hxi
        · exact Or.inr ⟨hx, hxi⟩
      · rintro (rfl | ⟨hx, -⟩)
        · exact ⟨hi, above_refl x⟩
        · exact hx
    rw [randomLoop]
    by_cases hlt : i < n
    · rw [if_pos hlt]
      have hcount := hc i hi hlt
      have hnext (y : ℕ) (hy : y / 2 = i) :
          AppliedOn dec16 (fun x => Way y x ∧ x ≠ y) c (Function.update cnt i (dec16 (cnt i))) := by
        refine hway.congr (fun x => ?_)
        rw [way_iff (by omega : 0 < y), hy]
        constructor
        · rintro ⟨rfl | hx, hne⟩
          · exact absurd rfl hne
          · exact hx
        · intro hx
          refine ⟨Or.inr hx, ?_⟩
          rintro rfl
          have := hx.2.le
          omega
      have hleft : Function.update cnt i (dec16 (cnt i)) (2 * i) = c (2 * i) := by
        apply hway.off
        intro hchild
        have := hchild.2.le
        omega
      dsimp only
      rw [hleft]
      by_cases hright : c (2 * i) ≤ j
      · rw [if_pos hright]
        exact ih (by omega) (by omega) (by omega) (by omega) (hnext _ (by omega))
      · rw [if_neg hright]
        exact ih (by omega) (by omega) (by omega) (by omega) (hnext _ (by omega))
    · rw [if_neg hlt]
      have hone : c i = 1 := by
        have := hleaf i (not_lt.mp hlt) hin
        omega
      refine ⟨i, _, ?_, not_lt.mp hlt, hin, by omega, hway⟩
      rw [guard, if_pos (by rw [hself, hone]; rfl)]
      rfl

end Walks

/-! ## The search -/

section Search

variable {C : MsgBuffersChunk}

/-- **The three searches** take a free leaf. -/
theorem takeNear_spec (hc : IsCount C.twoPower C.freeCnt) (hpos : 0 < C.twoPower)
    (hfree : 0 < C.freeCnt 1) (x : ℕ) :
    ∃ i cnt, C.takeNear x = some (i, cnt) ∧ Takes C.twoPower C.freeCnt i cnt := by
  unfold MsgBuffersChunk.takeNear
  by_cases hnext : x < C.twoPower - 1 ∧ C.freeCnt (C.twoPower + x + 1) ≠ 0
  · rw [if_pos hnext]
    exact ⟨_, _, rfl, by omega, by omega, Nat.pos_of_ne_zero hnext.2, takeUp_applied _ _⟩
  · rw [if_neg hnext]
    obtain ⟨y, k, cnt, hrun, hny, hyn, hy, hturn⟩ :=
      nearLoop_spec hc (x := x) (l := 0) (r := C.twoPower)
        (by omega : C.twoPower - 1 < C.twoPower + 1) one_pos (by omega) hfree one_pos (by omega)
        hfree
    refine ⟨y, takeUp cnt (if k = 0 then y else k), ?_, hny, hyn, hy, ?_⟩
    · rw [hrun]
      rfl
    · rcases hturn with ⟨rfl, rfl⟩ | ⟨hk, hky, happlied⟩
      · rw [if_pos rfl]
        exact takeUp_applied _ y
      · rw [if_neg hk.ne']
        refine (happlied.trans (takeUp_applied cnt k) ?_).congr ?_
        · rintro z ⟨hkz, -⟩ hway
          have := hway.2.le
          omega
        · intro z
          constructor
          · rintro ⟨hz, habove⟩
            by_cases hkz : k < z
            · exact Or.inl ⟨hkz, habove⟩
            · exact Or.inr ⟨hz, habove.of_le hky hz (not_lt.mp hkz)⟩
          · rintro (⟨hkz, habove⟩ | ⟨hz, habove⟩)
            · exact ⟨by omega, habove⟩
            · exact ⟨hz, habove.trans hky⟩

theorem takeRandom_spec (hc : IsCount C.twoPower C.freeCnt)
    (hleaf : ∀ y, C.twoPower ≤ y → y < 2 * C.twoPower → C.freeCnt y ≤ 1) (hpos : 0 < C.twoPower)
    (hfree : 0 < C.freeCnt 1) {rnd : ℕ} (hrnd : rnd < 2 ^ 31) :
    ∃ i cnt, C.takeRandom rnd = some (i, cnt) ∧ Takes C.twoPower C.freeCnt i cnt := by
  unfold MsgBuffersChunk.takeRandom
  obtain ⟨j, hj, hjpos, hjle⟩ : ∃ j, (if C.freeCnt 1 < 16 then C.freeCnt 1 else 16) = j ∧ 0 < j ∧
      j ≤ C.freeCnt 1 := by
    by_cases hlt : C.freeCnt 1 < 16
    · exact ⟨_, if_pos hlt, hfree, le_rfl⟩
    · exact ⟨16, if_neg hlt, by norm_num, not_lt.mp hlt⟩
  have hquot : (rnd * j) >>> 31 < C.freeCnt 1 := by
    refine lt_of_lt_of_le ?_ hjle
    rw [Nat.shiftRight_eq_div_pow, Nat.div_lt_iff_lt_mul (Nat.two_pow_pos 31), mul_comm j]
    exact Nat.mul_lt_mul_of_pos_right hrnd hjpos
  have hstart : AppliedOn dec16 (fun x => Way 1 x ∧ x ≠ 1) C.freeCnt C.freeCnt := by
    refine (AppliedOn.refl dec16 C.freeCnt).congr (fun x => iff_false_intro ?_)
    rintro ⟨⟨hx, habove⟩, hne⟩
    have := habove.le
    omega
  obtain ⟨i, cnt, hrun, htakes⟩ := randomLoop_spec hc hleaf
    (by omega : C.twoPower - 1 < C.twoPower + 1) one_pos (by omega) hquot hstart
  refine ⟨i, cnt, ?_, htakes⟩
  simp only [hj, hrun, guard, if_pos hquot, Option.pure_def, some_bind]

end Search

/-! ## The invariant -/

/-- **The invariant** of a chunk whose buffers `used` are in use. -/
structure ChunkState.Inv (S : ChunkState) (used : Finset ℕ) : Prop where
  layout : S.chunk.Layout
  count : IsCount S.chunk.twoPower S.chunk.freeCnt
  leaf : ∀ t < S.chunk.twoPower, S.chunk.freeCnt (S.chunk.twoPower + t)
    = if t < S.chunk.totBuffers ∧ S.chunk.bufferAt t ∉ used then 1 else 0
  isBuffer : ∀ X ∈ used, ∃ t < S.chunk.totBuffers, X = S.chunk.bufferAt t
  header : ∀ X ∈ used, (S.buffer X).chunk = S.chunk.addr ∧ (S.buffer X).magic = msgBufferUsedMagic
  queue : S.chunk.freeBlockQueue = []
  chHead : S.chunk.chHead = S.head
  apart : S.chunk.addr ≠ S.head
  headMagic : S.headMagic = msgChunkHeadMagic

namespace ChunkState

variable {S : ChunkState} {used : Finset ℕ}

theorem Inv.setMagic (h : S.Inv used) (magic : BitVec 32) : (S.setMagic magic).Inv used :=
  ⟨⟨h.layout.power, h.layout.pos, h.layout.lt, h.layout.le, h.layout.inverse, h.layout.lower,
    h.layout.upper⟩, h.count, h.leaf, h.isBuffer, h.header, h.queue, h.chHead, h.apart, h.headMagic⟩

theorem drainQueue_eq (h : S.chunk.freeBlockQueue = []) : S.drainQueue = some S := by
  obtain ⟨C, head, headMagic, buffer⟩ := S
  obtain ⟨addr, magic, size, chHead, first, twoPower, tot, inv, shift, queue, cnt⟩ := C
  obtain rfl : queue = [] := h
  rfl

theorem unlockChunk_eq (h : S.chunk.freeBlockQueue = []) :
    S.unlockChunk = some (S.setMagic msgChunkUsedMagic) := by
  unfold unlockChunk
  rw [drainQueue_eq h]
  rfl

theorem tryLockChunk_eq (hmagic : S.chunk.magic = msgChunkUsedMagic)
    (h : S.chunk.freeBlockQueue = []) :
    S.tryLockChunk = some (S.setMagic msgChunkUsedLockedMagic, true) := by
  unfold tryLockChunk
  have hqueue : (S.setMagic msgChunkUsedLockedMagic).chunk.freeBlockQueue = [] := h
  rw [if_neg (not_not.mpr hmagic), drainQueue_eq hqueue]
  rfl

theorem Inv.twoPower_pos (h : S.Inv used) : 0 < S.chunk.twoPower :=
  h.layout.pos.trans_le h.layout.le

theorem Inv.leaf_le (h : S.Inv used) {y : ℕ} (hlo : S.chunk.twoPower ≤ y)
    (hhi : y < 2 * S.chunk.twoPower) : S.chunk.freeCnt y ≤ 1 := by
  obtain ⟨t, rfl⟩ := Nat.exists_eq_add_of_le hlo
  rw [h.leaf t (by omega)]
  split_ifs <;> omega

/-- The root counts the buffers that are free. -/
theorem Inv.root_eq (h : S.Inv used) : S.chunk.freeCnt 1
    = ((Finset.range S.chunk.totBuffers).filter (fun t => S.chunk.bufferAt t ∉ used)).card := by
  obtain ⟨d, hd⟩ := h.layout.power
  have hcount := h.count
  have hle := h.layout.le
  rw [hd] at hcount hle
  have hleaves : ∀ t ∈ Finset.range (2 ^ d), S.chunk.freeCnt (2 ^ d + t)
      = if t < S.chunk.totBuffers ∧ S.chunk.bufferAt t ∉ used then 1 else 0 := by
    intro t ht
    have hleaf := h.leaf t (by rw [hd]; exact Finset.mem_range.mp ht)
    rwa [hd] at hleaf
  rw [hcount.root, Finset.sum_congr rfl hleaves, ← Finset.card_filter]
  congr 1
  ext t
  rw [Finset.mem_filter, Finset.mem_filter, Finset.mem_range, Finset.mem_range]
  constructor
  · rintro ⟨-, ht, hfree⟩
    exact ⟨ht, hfree⟩
  · rintro ⟨ht, hfree⟩
    exact ⟨ht.trans_le hle, ht, hfree⟩

theorem Inv.count_le (h : S.Inv used) {x : ℕ} (hx : 0 < x) (hxn : x < 2 * S.chunk.twoPower) :
    S.chunk.freeCnt x ≤ S.chunk.freeCnt 1 :=
  h.count.le_of_above (way_root hx).2 one_pos hxn

theorem Inv.root_le (h : S.Inv used) : S.chunk.freeCnt 1 ≤ S.chunk.totBuffers := by
  rw [h.root_eq]
  calc _ ≤ (Finset.range S.chunk.totBuffers).card := Finset.card_filter_le _ _
    _ = S.chunk.totBuffers := Finset.card_range _

/-- The change of a leaf and of the nodes above it, with the set that is in use after it. -/
theorem Inv.change (h : S.Inv used) {f : ℕ → ℕ} {cnt : ℕ → ℕ} {t a b : ℕ}
    (ht : t < S.chunk.totBuffers)
    (hcnt : AppliedOn f (Way (S.chunk.twoPower + t)) S.chunk.freeCnt cnt)
    (hf : ∀ x, Way (S.chunk.twoPower + t) x → f (S.chunk.freeCnt x) + a = S.chunk.freeCnt x + b)
    {used' : Finset ℕ}
    (hself : f (S.chunk.freeCnt (S.chunk.twoPower + t))
      = if S.chunk.bufferAt t ∉ used' then 1 else 0)
    (hothers : ∀ X, X ≠ S.chunk.bufferAt t → (X ∈ used' ↔ X ∈ used)) {B : MsgBufferHeader}
    (hB : S.chunk.bufferAt t ∈ used' → B.chunk = S.chunk.addr ∧ B.magic = msgBufferUsedMagic) :
    ((S.setFreeCnt cnt).setBuffer (S.chunk.bufferAt t) B).Inv used' := by
  have hle := h.layout.le
  refine ⟨⟨h.layout.power, h.layout.pos, h.layout.lt, h.layout.le, h.layout.inverse,
    h.layout.lower, h.layout.upper⟩, ?_, ?_, ?_, ?_, h.queue, h.chHead, h.apart, h.headMagic⟩
  · exact h.count.applied (Nat.le_add_right _ _) hcnt hf
  · intro t' ht'
    show cnt (S.chunk.twoPower + t') = if t' < S.chunk.totBuffers ∧ S.chunk.bufferAt t' ∉ used'
      then 1 else 0
    by_cases heq : t' = t
    · rw [heq, hcnt.on _ ⟨by omega, above_refl _⟩, hself]
      simp only [ht, true_and]
    · have hoff : ¬ Way (S.chunk.twoPower + t) (S.chunk.twoPower + t') := by
        rintro ⟨-, habove⟩
        rcases above_iff.mp habove with heq' | hhalf
        · omega
        · have := hhalf.le
          omega
      have hne : S.chunk.bufferAt t' ≠ S.chunk.bufferAt t :=
        fun he => heq (S.chunk.bufferAt_injective he)
      rw [hcnt.off _ hoff, h.leaf t' ht']
      simp only [hothers _ hne]
  · intro X hX
    by_cases heq : X = S.chunk.bufferAt t
    · exact ⟨t, ht, heq⟩
    · exact h.isBuffer X ((hothers X heq).mp hX)
  · intro X hX
    show (Function.update S.buffer (S.chunk.bufferAt t) B X).chunk = S.chunk.addr ∧
      (Function.update S.buffer (S.chunk.bufferAt t) B X).magic = msgBufferUsedMagic
    by_cases heq : X = S.chunk.bufferAt t
    · rw [heq, Function.update_self]
      exact hB (heq ▸ hX)
    · rw [Function.update_of_ne heq]
      exact h.header X ((hothers X heq).mp hX)

/-- **A buffer is taken.** -/
theorem Inv.take (h : S.Inv used) {i : ℕ} {cnt : ℕ → ℕ}
    (htakes : Takes S.chunk.twoPower S.chunk.freeCnt i cnt) :
    ∃ t < S.chunk.totBuffers, i = S.chunk.twoPower + t ∧ S.chunk.bufferAt t ∉ used ∧
      ((S.setFreeCnt cnt).setBuffer (S.chunk.bufferAt t)
        ⟨S.chunk.addr, 1, msgBufferUsedMagic⟩).Inv (insert (S.chunk.bufferAt t) used) := by
  obtain ⟨hlo, hhi, hfree, happlied⟩ := htakes
  obtain ⟨t, rfl⟩ := Nat.exists_eq_add_of_le hlo
  have hleaf := h.leaf t (by omega)
  have hin : t < S.chunk.totBuffers ∧ S.chunk.bufferAt t ∉ used := by
    by_contra hnot
    rw [if_neg hnot] at hleaf
    omega
  rw [if_pos hin] at hleaf
  refine ⟨t, hin.1, rfl, hin.2, ?_⟩
  have hdec : ∀ x, Way (S.chunk.twoPower + t) x →
      dec16 (S.chunk.freeCnt x) + 1 = S.chunk.freeCnt x + 0 := by
    rintro x ⟨hx, habove⟩
    have hge := h.count.le_of_above habove hx hhi
    have hxle := habove.le
    have hle := h.count_le hx (by omega)
    have hroot := h.root_le
    have hlt := h.layout.lt
    unfold dec16
    omega
  refine h.change hin.1 happlied hdec ?_ ?_ (fun _ => ⟨rfl, rfl⟩)
  · rw [hleaf, if_neg (not_not.mpr (Finset.mem_insert_self _ _))]
    rfl
  · intro X hX
    rw [Finset.mem_insert, or_iff_right hX]

/-- **A buffer is given back.** -/
theorem Inv.give (h : S.Inv used) {t : ℕ} (ht : t < S.chunk.totBuffers)
    (hused : S.chunk.bufferAt t ∈ used) :
    S.chunk.freeCnt (S.chunk.twoPower + t) = 0 ∧
    ∃ cnt, giveUp S.chunk.freeCnt (S.chunk.twoPower + t) = some cnt ∧
      (∀ t' < S.chunk.twoPower, cnt (S.chunk.twoPower + t')
        = if t' = t then 1 else S.chunk.freeCnt (S.chunk.twoPower + t')) ∧
      ∀ B, ((S.setFreeCnt cnt).setBuffer (S.chunk.bufferAt t) B).Inv
        (used.erase (S.chunk.bufferAt t)) := by
  have hle := h.layout.le
  have hlt := h.layout.lt
  have hpos := h.layout.pos
  have hleaf := h.leaf t (by omega)
  rw [if_neg (fun hnot => hnot.2 hused)] at hleaf
  -- the buffer that is in use is missing in the count of the root
  have hroot : S.chunk.freeCnt 1 < S.chunk.totBuffers := by
    rw [h.root_eq]
    calc _ < (Finset.range S.chunk.totBuffers).card := by
          apply Finset.card_lt_card
          rw [Finset.filter_ssubset]
          exact ⟨t, Finset.mem_range.mpr ht, not_not.mpr hused⟩
      _ = S.chunk.totBuffers := Finset.card_range _
  have hinc : ∀ x, Way (S.chunk.twoPower + t) x →
      inc16 (S.chunk.freeCnt x) + 0 = S.chunk.freeCnt x + 1 := by
    rintro x ⟨hx, habove⟩
    have hxle := habove.le
    have hcount := h.count_le hx (by omega)
    unfold inc16
    omega
  have hfit : ∀ x, Way (S.chunk.twoPower + t) x → 0 < inc16 (S.chunk.freeCnt x) := by
    intro x hx
    have := hinc x hx
    omega
  obtain ⟨cnt, hrun, happlied⟩ := giveUp_applied (by omega) hfit
  have hself : inc16 (S.chunk.freeCnt (S.chunk.twoPower + t)) = 1 := by
    rw [hleaf]
    rfl
  have hinv (B : MsgBufferHeader) : ((S.setFreeCnt cnt).setBuffer (S.chunk.bufferAt t) B).Inv
      (used.erase (S.chunk.bufferAt t)) := by
    refine h.change ht happlied hinc ?_ ?_ ?_
    · rw [hself, if_pos (Finset.notMem_erase _ _)]
    · intro X hX
      rw [Finset.mem_erase, and_iff_right hX]
    · intro hmem
      exact absurd hmem (Finset.notMem_erase _ _)
  refine ⟨hleaf, cnt, hrun, ?_, hinv⟩
  intro t' ht'
  have hnew : cnt (S.chunk.twoPower + t') = if t' < S.chunk.totBuffers ∧
      S.chunk.bufferAt t' ∉ used.erase (S.chunk.bufferAt t) then 1 else 0 :=
    (hinv (S.buffer 0)).leaf t' ht'
  rw [hnew, h.leaf t' ht']
  by_cases heq : t' = t
  · rw [if_pos heq, heq, if_pos ⟨ht, Finset.notMem_erase _ _⟩]
  · have hne : S.chunk.bufferAt t' ≠ S.chunk.bufferAt t :=
      fun he => heq (S.chunk.bufferAt_injective he)
    simp only [if_neg heq, Finset.mem_erase, and_iff_right hne]

/-! ## The operations -/

/-- **A hint**: a buffer of another chunk, or a buffer of this one. -/
def HintOk (S : ChunkState) (neighbor : Option ℕ) : Prop :=
  ∀ X ∈ neighbor, (S.buffer X).chunk = S.chunk.addr →
    ∃ t < S.chunk.totBuffers, X = S.chunk.bufferAt t

theorem Inv.takeBuffer (h : S.Inv used) (hfree : 0 < S.chunk.freeCnt 1) {neighbor : Option ℕ}
    (hhint : S.HintOk neighbor) {rnd : ℕ} (hrnd : rnd < 2 ^ 31) :
    ∃ i cnt, S.takeBuffer neighbor rnd = some (i, cnt) ∧
      Takes S.chunk.twoPower S.chunk.freeCnt i cnt := by
  have hrandom := takeRandom_spec h.count (fun y => h.leaf_le) h.twoPower_pos hfree hrnd
  cases neighbor with
  | none => exact hrandom
  | some X =>
    unfold ChunkState.takeBuffer
    dsimp only
    by_cases hchunk : (S.buffer X).chunk = S.chunk.addr
    · obtain ⟨t, ht, rfl⟩ := hhint X rfl hchunk
      rw [if_pos hchunk, h.layout.getBufferNo ht]
      exact takeNear_spec h.count h.twoPower_pos hfree t
    · rw [if_neg hchunk]
      exact hrandom

/-- **An allocation** from a locked chunk that has a free buffer. -/
theorem Inv.allocFromChunk (h : S.Inv used) (hmagic : S.chunk.magic = msgChunkUsedLockedMagic)
    (hfree : 0 < S.chunk.freeCnt 1) {neighbor : Option ℕ} (hhint : S.HintOk neighbor) {rnd : ℕ}
    (hrnd : rnd < 2 ^ 31) :
    ∃ t < S.chunk.totBuffers, S.chunk.bufferAt t ∉ used ∧
      ∃ S' cnt, S.allocFromChunk neighbor rnd = some (S', S.chunk.bufferAt t) ∧
        S'.Inv (insert (S.chunk.bufferAt t) used) ∧
        S'.chunk = { S.chunk with magic := msgChunkUsedMagic, freeCnt := cnt } := by
  obtain ⟨i, cnt, hrun, htakes⟩ := h.takeBuffer hfree hhint hrnd
  obtain ⟨t, ht, rfl, hnew, hinv⟩ := h.take htakes
  have hunlock : (S.setFreeCnt cnt).unlockChunk
      = some ((S.setFreeCnt cnt).setMagic msgChunkUsedMagic) := unlockChunk_eq h.queue
  refine ⟨t, ht, hnew, _, cnt, ?_, hinv.setMagic msgChunkUsedMagic, rfl⟩
  have hstart : S.chunk.addr ≠ S.head ∧ S.chunk.freeCnt 1 ≠ 0 ∧
      S.chunk.magic = msgChunkUsedLockedMagic := ⟨h.apart, hfree.ne', hmagic⟩
  have hnode : ((S.setFreeCnt cnt).setMagic msgChunkUsedMagic).chunk.twoPower
        ≤ S.chunk.twoPower + t ∧
      S.chunk.twoPower + t - ((S.setFreeCnt cnt).setMagic msgChunkUsedMagic).chunk.twoPower
        < ((S.setFreeCnt cnt).setMagic msgChunkUsedMagic).chunk.totBuffers := by
    show S.chunk.twoPower ≤ S.chunk.twoPower + t ∧
      S.chunk.twoPower + t - S.chunk.twoPower < S.chunk.totBuffers
    omega
  unfold ChunkState.allocFromChunk
  simp only [hrun, hunlock, guard, if_pos hstart, if_pos hnode, some_bind, Option.pure_def]
  have haddr : ((S.setFreeCnt cnt).setMagic msgChunkUsedMagic).chunk.firstBuffer +
      (S.chunk.twoPower + t - ((S.setFreeCnt cnt).setMagic msgChunkUsedMagic).chunk.twoPower) *
        (((S.setFreeCnt cnt).setMagic msgChunkUsedMagic).chunk.bufferSize + 16)
      = S.chunk.bufferAt t := by
    show S.chunk.firstBuffer + (S.chunk.twoPower + t - S.chunk.twoPower) *
      (S.chunk.bufferSize + 16) = _
    rw [Nat.add_sub_cancel_left]
    rfl
  rw [haddr]
  rfl

/-- **`alloc_msg_buffer_internal`** on a chunk that is not locked. -/
theorem Inv.alloc (h : S.Inv used) (hmagic : S.chunk.magic = msgChunkUsedMagic)
    {neighbor : Option ℕ} (hhint : S.HintOk neighbor) {rnd : ℕ} (hrnd : rnd < 2 ^ 31) :
    (S.chunk.freeCnt 1 = 0 ∧ S.allocMsgBufferInternal neighbor rnd = some (S, none)) ∨
    (0 < S.chunk.freeCnt 1 ∧ ∃ t < S.chunk.totBuffers, S.chunk.bufferAt t ∉ used ∧
      ∃ S' cnt, S.allocMsgBufferInternal neighbor rnd = some (S', some (S.chunk.bufferAt t)) ∧
        S'.Inv (insert (S.chunk.bufferAt t) used) ∧
        S'.chunk = { S.chunk with magic := msgChunkUsedMagic, freeCnt := cnt }) := by
  unfold allocMsgBufferInternal
  have hhead : S.headMagic = msgChunkHeadMagic ∨ S.headMagic = msgChunkHeadLockedMagic :=
    Or.inl h.headMagic
  rw [guard, if_pos hhead]
  rcases Nat.eq_zero_or_pos (S.chunk.freeCnt 1) with hzero | hfree
  · left
    rw [if_pos hzero]
    exact ⟨hzero, rfl⟩
  · right
    obtain ⟨t, ht, hnew, S', cnt, hrun, hinv, hsame⟩ :=
      (h.setMagic msgChunkUsedLockedMagic).allocFromChunk rfl hfree hhint hrnd
    have hch : (S.setMagic msgChunkUsedLockedMagic).chunk.chHead
        = (S.setMagic msgChunkUsedLockedMagic).head := h.chHead
    have hne : ¬ (S.setMagic msgChunkUsedLockedMagic).chunk.freeCnt 1 = 0 := hfree.ne'
    refine ⟨hfree, t, ht, hnew, S', cnt, ?_, hinv, hsame⟩
    rw [if_neg hfree.ne', tryLockChunk_eq hmagic h.queue]
    simp only [guard, if_pos hch, if_neg hne, hrun, some_bind, Option.pure_def, Bool.true_eq_false,
      if_false]
    rfl

/-- **`free_std_msg_buffer`** on a locked chunk. -/
theorem Inv.freeStdMsgBuffer (h : S.Inv used) (hmagic : S.chunk.magic = msgChunkUsedLockedMagic)
    {t : ℕ} (ht : t < S.chunk.totBuffers) (hused : S.chunk.bufferAt t ∈ used)
    (hrefcnt : (S.buffer (S.chunk.bufferAt t)).refcnt = 0) :
    ∃ S' cnt, S.freeStdMsgBuffer (S.chunk.bufferAt t) = some S' ∧
      S'.Inv (used.erase (S.chunk.bufferAt t)) ∧ S'.chunk = { S.chunk with freeCnt := cnt } ∧
      ∀ t' < S.chunk.twoPower, cnt (S.chunk.twoPower + t')
        = if t' = t then 1 else S.chunk.freeCnt (S.chunk.twoPower + t') := by
  obtain ⟨hleaf, cnt, hrun, hcnt, hinv⟩ := h.give ht hused
  obtain ⟨hchunk, hbuffer⟩ := h.header _ hused
  have hstart : (S.buffer (S.chunk.bufferAt t)).refcnt = 0 ∧
      (S.buffer (S.chunk.bufferAt t)).magic = msgBufferUsedMagic ∧
      S.chunk.magic = msgChunkUsedLockedMagic ∧
      (S.buffer (S.chunk.bufferAt t)).chunk = S.chunk.addr := ⟨hrefcnt, hbuffer, hmagic, hchunk⟩
  refine ⟨_, cnt, ?_, hinv { S.buffer (S.chunk.bufferAt t) with
    magic := msgBufferFreeMagic, refcnt := -0x40000000 }, rfl, hcnt⟩
  unfold ChunkState.freeStdMsgBuffer
  rw [guard, if_pos hstart, h.layout.getBufferNo ht]
  simp only [Nat.add_comm t, hleaf, hrun, guard, if_true, some_bind, Option.pure_def]

/-- The last that uses a buffer sets its count of references to zero. -/
theorem Inv.unref (h : S.Inv used) {X : ℕ} (hX : X ∈ used) :
    (S.setBuffer X { S.buffer X with refcnt := 0 }).Inv used := by
  refine ⟨h.layout, h.count, h.leaf, h.isBuffer, ?_, h.queue, h.chHead, h.apart, h.headMagic⟩
  intro Y hY
  show (Function.update S.buffer X _ Y).chunk = S.chunk.addr ∧
    (Function.update S.buffer X _ Y).magic = msgBufferUsedMagic
  by_cases heq : Y = X
  · rw [heq, Function.update_self]
    exact h.header X hX
  · rw [Function.update_of_ne heq]
    exact h.header Y hY

/-- **`free_msg_buffer`** by the last that uses a buffer. -/
theorem Inv.decref (h : S.Inv used) (hmagic : S.chunk.magic = msgChunkUsedMagic) {X : ℕ}
    (hX : X ∈ used) :
    ∃ S' cnt, S.msgBufferDecref X = some S' ∧ S'.Inv (used.erase X) ∧
      S'.chunk = { S.chunk with magic := msgChunkUsedMagic, freeCnt := cnt } ∧
      ∀ t < S.chunk.twoPower, cnt (S.chunk.twoPower + t)
        = if S.chunk.bufferAt t = X then 1 else S.chunk.freeCnt (S.chunk.twoPower + t) := by
  obtain ⟨t, ht, rfl⟩ := h.isBuffer X hX
  obtain ⟨B, hB⟩ : ∃ B : MsgBufferHeader,
      { S.buffer (S.chunk.bufferAt t) with refcnt := 0 } = B := ⟨_, rfl⟩
  obtain ⟨T, hT⟩ : ∃ T, S.setBuffer (S.chunk.bufferAt t) B = T := ⟨_, rfl⟩
  have hinv : T.Inv used := by
    rw [← hT, ← hB]
    exact h.unref hX
  have hchunk : T.chunk = S.chunk := by rw [← hT]; rfl
  have hbuffer : T.buffer (S.chunk.bufferAt t) = B := by
    rw [← hT]
    exact Function.update_self _ _ _
  have hzero : B.refcnt = 0 := by rw [← hB]
  have husedMagic : B.magic = msgBufferUsedMagic := by
    rw [← hB]
    exact (h.header _ hX).2
  rw [← hchunk] at hX ht hbuffer
  obtain ⟨S', cnt, hrun, hfreed, hsame, hcnt⟩ :=
    (hinv.setMagic msgChunkUsedLockedMagic).freeStdMsgBuffer rfl ht hX
      (by show (T.buffer (T.chunk.bufferAt t)).refcnt = 0; rw [hbuffer, hzero])
  refine ⟨S'.setMagic msgChunkUsedMagic, cnt, ?_, ?_, ?_, ?_⟩
  · unfold msgBufferDecref freeMsgBuffer
    rw [hB, hT, ← hchunk]
    have hfirst : (T.buffer (T.chunk.bufferAt t)).magic = msgBufferUsedMagic ∧
        (T.buffer (T.chunk.bufferAt t)).refcnt = 0 := by
      rw [hbuffer]
      exact ⟨husedMagic, hzero⟩
    have hsecond : T.chunk.magic = msgChunkUsedMagic ∨
        T.chunk.magic = msgChunkUsedLockedMagic := by
      rw [hchunk]
      exact Or.inl hmagic
    have hlock := tryLockChunk_eq (hchunk.symm ▸ hmagic) hinv.queue
    have hat : (T.setMagic msgChunkUsedLockedMagic).chunk.bufferAt t = T.chunk.bufferAt t := rfl
    rw [hat] at hrun
    simp only [guard, if_pos hfirst, if_pos hsecond, hlock, hrun, unlockChunk_eq hfreed.queue,
      some_bind, Option.pure_def, if_true]
  · rw [← hchunk]
    exact hfreed.setMagic msgChunkUsedMagic
  · show { S'.chunk with magic := msgChunkUsedMagic } = _
    rw [hsame, ← hchunk]
    rfl
  · intro t' ht'
    rw [← hchunk] at ht' ⊢
    apply (hcnt t' ht').trans
    by_cases heq : t' = t
    · rw [if_pos heq, if_pos (congrArg _ heq)]
    · rw [if_neg heq, if_neg (fun he => heq (T.chunk.bufferAt_injective he))]
      rfl

end ChunkState

/-! ## Runs -/

/-- What the callers of the allocator do. -/
inductive ChunkOp where
  | alloc (neighbor : Option ℕ) (rnd : ℕ)
  | free (X : ℕ)

/-- A chunk, and the buffers that its callers hold. -/
structure ChunkRun where
  state : ChunkState
  used : Finset ℕ

/-- The first allocation, when there is no chunk yet: it locks the new chunk. -/
def ChunkRun.create (C : MsgBuffersChunk) (buffer : ℕ → MsgBufferHeader) (neighbor : Option ℕ)
    (rnd : ℕ) : Option ChunkRun := do
  let (S, X) ← ChunkState.allocFromChunk ⟨C, C.chHead, msgChunkHeadMagic, buffer⟩ neighbor rnd
  return ⟨S, {X}⟩

def ChunkRun.step (R : ChunkRun) : ChunkOp → Option ChunkRun
  | .alloc neighbor rnd => do
    let (S, X) ← R.state.allocMsgBufferInternal neighbor rnd
    return ⟨S, X.elim R.used (fun X => insert X R.used)⟩
  | .free X => do
    let S ← R.state.msgBufferDecref X
    return ⟨S, R.used.erase X⟩

/-- A hint is a buffer, `lrand48_j` gives 31 bits, and who frees a buffer holds it. -/
def ChunkRun.Allowed (R : ChunkRun) : ChunkOp → Prop
  | .alloc neighbor rnd => R.state.HintOk neighbor ∧ rnd < 2 ^ 31
  | .free X => X ∈ R.used

/-- **The invariant of a run** on the chunk `C`. -/
structure ChunkRun.Inv (C : MsgBuffersChunk) (R : ChunkRun) : Prop where
  inv : R.state.Inv R.used
  same : ∃ cnt, R.state.chunk = { C with magic := msgChunkUsedMagic, freeCnt := cnt }

theorem ChunkRun.Inv.magic {C : MsgBuffersChunk} {R : ChunkRun} (h : R.Inv C) :
    R.state.chunk.magic = msgChunkUsedMagic := by
  obtain ⟨cnt, hsame⟩ := h.same
  rw [hsame]

/-- **Every operation succeeds**, and keeps the invariant. -/
theorem ChunkRun.Inv.step {C : MsgBuffersChunk} {R : ChunkRun} (h : R.Inv C) {op : ChunkOp}
    (hop : R.Allowed op) : ∃ R', R.step op = some R' ∧ R'.Inv C := by
  obtain ⟨cnt, hsame⟩ := h.same
  cases op with
  | alloc neighbor rnd =>
    obtain ⟨hhint, hrnd⟩ := hop
    rcases h.inv.alloc h.magic hhint hrnd with ⟨-, hrun⟩ | ⟨-, t, -, -, S', cnt', hrun, hinv, hnew⟩
    · refine ⟨⟨R.state, R.used⟩, ?_, h.inv, cnt, hsame⟩
      rw [ChunkRun.step, hrun]
      rfl
    · refine ⟨⟨S', insert (R.state.chunk.bufferAt t) R.used⟩, ?_, hinv, cnt', ?_⟩
      · rw [ChunkRun.step, hrun]
        rfl
      · show S'.chunk = _
        rw [hnew, hsame]
  | free X =>
    obtain ⟨S', cnt', hrun, hinv, hnew, -⟩ := h.inv.decref h.magic hop
    refine ⟨⟨S', R.used.erase X⟩, ?_, hinv, cnt', ?_⟩
    · rw [ChunkRun.step, hrun]
      rfl
    · show S'.chunk = _
      rw [hnew, hsame]

/-- **The first allocation** succeeds. -/
theorem ChunkRun.create_spec {C : MsgBuffersChunk} (hlayout : C.Layout)
    (hqueue : C.freeBlockQueue = []) (hmagic : C.magic = msgChunkUsedLockedMagic)
    (hfresh : C.freeCnt = initFreeCnt C.twoPower C.totBuffers) (hapart : C.addr ≠ C.chHead)
    {buffer : ℕ → MsgBufferHeader} {neighbor : Option ℕ} {rnd : ℕ}
    (hhint : ChunkState.HintOk ⟨C, C.chHead, msgChunkHeadMagic, buffer⟩ neighbor)
    (hrnd : rnd < 2 ^ 31) :
    ∃ R, ChunkRun.create C buffer neighbor rnd = some R ∧ R.Inv C := by
  have hle := hlayout.le
  have hpos := hlayout.pos
  have hcnt {i : ℕ} (hi : 0 < i) (hin : i < 2 * C.twoPower) :
      C.freeCnt i = leavesBelow C.twoPower C.totBuffers i := by
    rw [hfresh, initFreeCnt_eq hle hlayout.lt hi hin]
  have hinv : ChunkState.Inv ⟨C, C.chHead, msgChunkHeadMagic, buffer⟩ ∅ := by
    refine ⟨hlayout, ?_, ?_, ?_, ?_, hqueue, rfl, hapart, rfl⟩
    · intro i hi hin
      change i < C.twoPower at hin
      show C.freeCnt i = C.freeCnt (2 * i) + C.freeCnt (2 * i + 1)
      rw [hcnt hi (by omega), hcnt (by omega) (by omega), hcnt (by omega) (by omega)]
      exact isCount_leavesBelow i hi hin
    · intro t ht
      change t < C.twoPower at ht
      show C.freeCnt (C.twoPower + t) = if t < C.totBuffers ∧ C.bufferAt t ∉ (∅ : Finset ℕ)
        then 1 else 0
      rw [hcnt (by omega) (by omega), leavesBelow_leaf ht hle]
      simp only [Finset.notMem_empty, not_false_iff, and_true]
    · intro X hX
      exact absurd hX (Finset.notMem_empty X)
    · intro X hX
      exact absurd hX (Finset.notMem_empty X)
  have hfree : 0 < C.freeCnt 1 := by
    have hroot : C.freeCnt C.twoPower ≤ C.freeCnt 1 :=
      hinv.count_le (hpos.trans_le hle) (by show C.twoPower < 2 * C.twoPower; omega)
    have hleaf := hinv.leaf 0 (hpos.trans_le hle)
    rw [if_pos ⟨hpos, Finset.notMem_empty _⟩] at hleaf
    have hleaf' : C.freeCnt C.twoPower = 1 := hleaf
    omega
  obtain ⟨t, -, -, S', cnt, hrun, hinv', hsame⟩ := hinv.allocFromChunk hmagic hfree hhint hrnd
  refine ⟨⟨S', {C.bufferAt t}⟩, ?_, hinv', cnt, hsame⟩
  unfold ChunkRun.create
  rw [hrun]
  rfl

/-- **A chunk of message buffers**, over every run: no assertion fails, every node of the tree
counts the free buffers below it, an allocation gives a buffer that is not in use, a free makes one
buffer free, and every buffer is in the chunk and has its number. -/
theorem chunk_run {bufferSize : ℕ} (hfits : ChunkFits (bufferSize + buffHdBytes)) {addr head : ℕ}
    (hapart : addr ≠ head) (buffer : ℕ → MsgBufferHeader) :
    ∃ C, allocNewMsgBuffersChunk addr head bufferSize = some C ∧
    ∀ neighbor rnd, ChunkState.HintOk ⟨C, head, msgChunkHeadMagic, buffer⟩ neighbor →
    rnd < 2 ^ 31 → ∃ R₀, ChunkRun.create C buffer neighbor rnd = some R₀ ∧
    ∀ ops, Runs.Along ChunkRun.step ChunkRun.Allowed R₀ ops →
    ∃ R, Runs.run ChunkRun.step R₀ ops = some R ∧
      (∀ i, 0 < i → i < C.twoPower → R.state.chunk.freeCnt i
        = R.state.chunk.freeCnt (2 * i) + R.state.chunk.freeCnt (2 * i + 1)) ∧
      (∀ t < C.twoPower, R.state.chunk.freeCnt (C.twoPower + t)
        = if t < C.totBuffers ∧ C.bufferAt t ∉ R.used then 1 else 0) ∧
      (∀ hint r, R.Allowed (.alloc hint r) →
        ((∃ t < C.totBuffers, C.bufferAt t ∉ R.used) →
          ∃ t < C.totBuffers, C.bufferAt t ∉ R.used ∧ ∃ S,
            R.state.allocMsgBufferInternal hint r = some (S, some (C.bufferAt t))) ∧
        ((∀ t < C.totBuffers, C.bufferAt t ∈ R.used) →
          R.state.allocMsgBufferInternal hint r = some (R.state, none))) ∧
      (∀ X ∈ R.used, ∃ S, R.state.msgBufferDecref X = some S ∧
        ∀ t < C.twoPower, S.chunk.freeCnt (C.twoPower + t)
          = if C.bufferAt t = X then 1 else R.state.chunk.freeCnt (C.twoPower + t)) ∧
      ∀ t < C.totBuffers, R.state.chunk.getBufferNo (C.bufferAt t) = some t ∧
        addr + offsetofFreeCnt + C.twoPower * 4 ≤ C.bufferAt t ∧
        C.bufferAt t + (bufferSize + buffHdBytes) ≤ addr + msgBuffersChunkSize := by
  obtain ⟨C, hnew, hlayout, haddr, hhead, hsize, hqueue, hmagic, hfresh⟩ :=
    allocNewMsgBuffersChunk_spec hfits addr head
  refine ⟨C, hnew, ?_⟩
  intro neighbor rnd hhint hrnd
  rw [← haddr, ← hhead] at hapart
  rw [← hhead] at hhint
  obtain ⟨R₀, hcreate, hinv₀⟩ := ChunkRun.create_spec hlayout hqueue hmagic hfresh hapart hhint hrnd
  refine ⟨R₀, hcreate, ?_⟩
  intro ops hops
  obtain ⟨R, hrun, hinv⟩ := Runs.run_total (fun R op hR hop => hR.step hop) hinv₀ hops
  obtain ⟨cnt, hsame⟩ := hinv.same
  obtain ⟨-, hcount, hleaf, -, -, -, -, -, -⟩ := id hinv.inv
  have hbufferAt : R.state.chunk.bufferAt = C.bufferAt := by rw [hsame]; rfl
  have hpower : R.state.chunk.twoPower = C.twoPower := by rw [hsame]
  have htot : R.state.chunk.totBuffers = C.totBuffers := by rw [hsame]
  rw [hpower] at hcount hleaf
  rw [htot, hbufferAt] at hleaf
  refine ⟨R, hrun, hcount, hleaf, ?_, ?_, ?_⟩
  · rintro hint r ⟨hhint', hr⟩
    have hroot := hinv.inv.root_eq
    rw [htot, hbufferAt] at hroot
    have halloc := hinv.inv.alloc hinv.magic hhint' hr
    rw [htot, hbufferAt] at halloc
    constructor
    · rintro ⟨t, ht, hfree⟩
      have hpos : 0 < R.state.chunk.freeCnt 1 := by
        rw [hroot, Finset.card_pos]
        exact ⟨t, Finset.mem_filter.mpr ⟨Finset.mem_range.mpr ht, hfree⟩⟩
      rcases halloc with ⟨hzero, -⟩ | ⟨-, t', ht', hnew', S, -, hrun', -⟩
      · exact absurd hzero hpos.ne'
      · exact ⟨t', ht', hnew', S, hrun'⟩
    · intro hall
      rcases halloc with ⟨-, hrun'⟩ | ⟨-, t', ht', hnew', -⟩
      · exact hrun'
      · exact absurd (hall t' ht') hnew'
  · intro X hX
    obtain ⟨S, cnt', hfree, -, hchunk, hcnt⟩ := hinv.inv.decref hinv.magic hX
    rw [hpower, hbufferAt] at hcnt
    refine ⟨S, hfree, ?_⟩
    rw [hchunk]
    exact hcnt
  · intro t ht
    have hno := hinv.inv.layout.getBufferNo (t := t) (by rw [htot]; exact ht)
    rw [hbufferAt] at hno
    obtain ⟨hlo, hhi⟩ := hlayout.inside ht
    rw [haddr] at hlo hhi
    rw [hsize] at hhi
    exact ⟨hno, hlo, hhi⟩

/-- Three buffers of a chunk with 1013 of 2048 bytes. -/
theorem chunk_run_three :
    ∃ C, allocNewMsgBuffersChunk 4096 64 2048 = some C ∧
    ∃ R₀ R, ChunkRun.create C (fun _ => ⟨0, 0, 0⟩) none 5 = some R₀ ∧
      Runs.run ChunkRun.step R₀ [.alloc none 7, .alloc none 3] = some R ∧
      ∀ t < C.totBuffers, R.state.chunk.getBufferNo (C.bufferAt t) = some t ∧
        4096 + offsetofFreeCnt + C.twoPower * 4 ≤ C.bufferAt t ∧
        C.bufferAt t + (2048 + buffHdBytes) ≤ 4096 + msgBuffersChunkSize := by
  have hpower : chunkTwoPower (2048 + buffHdBytes) = 1024 := by decide
  have halign : chunkAlign (2048 + buffHdBytes) = 16 := by
    simp [chunkAlign, buffHdBytes, ctz]
  have hcount : chunkBuffers (2048 + buffHdBytes) = 1013 := by
    rw [chunkBuffers, hpower, halign]
    rfl
  have hfits : ChunkFits (2048 + buffHdBytes) := by
    rw [ChunkFits, hpower, hcount]
    decide
  have hnone (S : ChunkState) : S.HintOk none := by
    intro X hX
    cases hX
  obtain ⟨C, hnew, hruns⟩ := chunk_run hfits (by norm_num : 4096 ≠ 64) (fun _ => ⟨0, 0, 0⟩)
  obtain ⟨R₀, hcreate, hops⟩ := hruns none 5 (hnone _) (by norm_num)
  obtain ⟨R, hrun, -, -, -, -, hbuffers⟩ := hops [.alloc none 7, .alloc none 3] (by
    apply Runs.along_of_always
    intro R op hop
    rcases List.mem_pair.mp hop with rfl | rfl
    · exact ⟨hnone _, by norm_num⟩
    · exact ⟨hnone _, by norm_num⟩)
  exact ⟨C, hnew, R₀, R, hcreate, hrun, hbuffers⟩

end MtprotoProxy
