/-
# Two halves of a message

`rwm_split` and `rwm_split_head` of `net/net-msg.c`: both halves are meant to be messages of their
own.  Where the cut is in front of the first byte the loop of `rwm_split` does not run, and unless
all bytes are in the last part neither half is one; `rwmSplit_iff` says that this is all that goes
wrong.
-/
import MtprotoProxy.MsgSlicing

namespace MtprotoProxy

open CLib

namespace MsgHeap

variable {H H' : MsgHeap} {r : ℕ → ℕ}

/-- Two messages are freed one after the other, and with them every part that no other message
reaches, none of them twice: a part that was freed cannot be read, let alone freed.  What other
messages reach is what it was. -/
def FreedOnce (r : ℕ → ℕ) (H : MsgHeap) (first second : RawMessage) : Prop :=
  ∃ H₁ H₂, H.rwmFree none first = some H₁ ∧ H₁.rwmFree none second = some H₂ ∧ Inv H₂ r ∧
    Frame False r H H₂ ∧ ∀ p, ¬ Reach r H p → H₂.parts.cell p = none

/-- What a split of the bytes `bs` is for: two messages that pass `rwm_check`, with the bytes in
front of the cut and those behind it, which can be freed in either order. -/
def Halves (r : ℕ → ℕ) (bs : Bytes) (bytes : ℕ)
    (result : Option (MsgHeap × RawMessage × RawMessage)) : Prop :=
  ∃ H' head tail, result = some (H', head, tail) ∧
    H'.rwmCheck head = some () ∧ H'.rwmCheck tail = some () ∧
    H'.contents head = some (bs.take bytes) ∧ H'.contents tail = some (bs.drop bytes) ∧
    FreedOnce r H' head tail ∧ FreedOnce r H' tail head

/-! ## Messages with a reference each -/

theorem freedOnce_of_inv {first second : RawMessage} {bs bs' : Bytes}
    (hinv : Inv H (fun q => ref first.first q + (ref second.first q + r q)))
    (hfirst : Holds H first bs) (hsecond : Holds H second bs') : FreedOnce r H first second := by
  have howns : Owns H (fun q => ref second.first q + r q) first bs := ⟨hinv, hfirst⟩
  obtain ⟨H₁, hfree₁, hinv₁, hfr₁⟩ := rwmFree_spec howns
  have howns₁ : Owns H₁ r second bs' :=
    ⟨hinv₁, hsecond.frame hfr₁ (fun f hf => by rw [hf]; exact ref_add_pos f)⟩
  obtain ⟨H₂, hfree₂, hinv₂, hfr₂⟩ := rwmFree_spec howns₁
  have hle : ∀ q, r q ≤ ref second.first q + r q := fun q => Nat.le_add_left _ _
  have hfr : Frame False r H H₂ := (hfr₁.mono hle).trans hfr₂
  refine ⟨H₁, H₂, hfree₁, hfree₂, hinv₂, hfr, ?_⟩
  intro p haway
  cases hp : H₂.parts.cell p with
  | none => rfl
  | some mp =>
    have hlive : ∀ q, Reach r H q → ∃ mq, H.parts.cell q = some mq :=
      fun q hq => hinv.live (hq.mono (fun _ => by omega))
    exact absurd (hfr.reach_back hlive (hinv₂.reach hp)) haway

/-- Two messages with a reference each are the halves. -/
theorem halves_of_inv {head tail : RawMessage} {bs : Bytes} {bytes : ℕ}
    {result : Option (MsgHeap × RawMessage × RawMessage)} (hresult : result = some (H, head, tail))
    (hinv : Inv H (fun q => ref head.first q + (ref tail.first q + r q)))
    (hhead : Holds H head (bs.take bytes)) (htail : Holds H tail (bs.drop bytes)) :
    Halves r bs bytes result :=
  ⟨H, head, tail, hresult, hhead.check hinv, htail.check hinv, hhead.contents hinv,
    htail.contents hinv, freedOnce_of_inv hinv hhead htail,
    freedOnce_of_inv (hinv.congr (fun _ => Nat.add_left_comm _ _ _)) htail hhead⟩

/-! ## Cuts -/

variable {raw : RawMessage} {bs : Bytes}

/-- **In front of the first byte the head is not a message**: it has no bytes, and all parts. -/
theorem not_halves_zero (h : Owns H r raw bs) (hparts : ¬ AllInLast H raw) (tail : RawMessage) :
    ¬ Halves r bs 0 (H.rwmSplit raw tail 0) := by
  obtain ⟨hinv, hholds⟩ := h
  cases hholds with
  | clean => exact absurd (fun l ml hl => absurd hl (by simp [rwmClean])) hparts
  | @chain n f l s e bs hspan =>
    obtain ⟨mf, -, hf, -, hoff, -⟩ := hspan.cell_first
    obtain ⟨ml, -, hl, -, hle, hend⟩ := hspan.cell_last
    have hlast : ¬ bs.length ≤ e - ml.offset := by
      intro hall
      refine hparts (fun l' ml' hl' hml' => ?_)
      obtain rfl := Option.some.inj hl'
      rw [hl] at hml'
      rwa [← Option.some.inj hml']
    have hpos : bs.length ≠ 0 := by omega
    rintro ⟨H', head, tail', hrun, hcheck, -⟩
    -- the loop does not run
    have hzero : H.rwmSplit ⟨some f, some l, bs.length, s, e⟩ tail 0
        = some (H, ⟨some f, some l, 0, s, e⟩, { tail with totalBytes := bs.length }) := by
      unfold rwmSplit
      rw [if_neg (by dsimp only; omega)]
      simp only [hl, some_bind, Nat.sub_zero]
      rw [if_neg hlast]
      exact if_pos trivial
    rw [hzero] at hrun
    simp only [Option.some.injEq, Prod.mk.injEq] at hrun
    obtain ⟨rfl, rfl, -⟩ := hrun
    -- the sizes of the parts add up to what the message had
    have hloop : H.checkLoop ⟨some f, some l, 0, s, e⟩ (H.parts.size + 1) f 0
        = some (0 + bs.length) := checkLoop_eq (H.parts.size + 1) 0 hinv
      rfl rfl rfl Relation.ReflTransGen.refl hf (if_pos rfl) hspan
      (Nat.lt_succ_of_lt (hspan.lt_size hinv))
    unfold rwmCheck at hcheck
    simp only [hf, hl, hloop, hoff, hend, guard_true, zero_add, Option.pure_def,
      some_bind] at hcheck
    have hempty : (bs.length : ℤ) = 0 := (Option.guard_eq_some' ()).mp hcheck
    omega

/-- **A split loses nothing unless it is asked for no bytes of a message that has some in front
of its last part**: then neither `rwm_split` nor `rwm_split_head` leaves two messages, and
otherwise both do. -/
theorem rwmSplit_iff (h : Owns H r raw bs) (bytes : ℕ) :
    (∀ tail, Halves r bs bytes (H.rwmSplit raw tail bytes) ↔ 0 < bytes ∨ AllInLast H raw) ∧
    (Halves r bs bytes (H.rwmSplitHead raw bytes) ↔ 0 < bytes ∨ AllInLast H raw) := by
  have hsplit : ∀ tail, Halves r bs bytes (H.rwmSplit raw tail bytes) ↔
      0 < bytes ∨ AllInLast H raw := by
    intro tail
    constructor
    · intro hhalves
      by_contra hcut
      push Not at hcut
      obtain rfl := Nat.le_zero.mp hcut.1
      exact not_halves_zero h hcut.2 tail hhalves
    · intro hcut
      obtain ⟨H', head, tail', hrun, hinv, hhead, htail, -⟩ := rwmSplit_spec tail h hcut
      exact halves_of_inv hrun hinv hhead htail
  exact ⟨hsplit, hsplit raw⟩

/-- A cut behind the first byte of a message of two parts, and one in front of it. -/
theorem rwmSplit_iff_twoParts :
    Halves (fun _ => 0) [1, 2, 3] 1 (twoParts.rwmSplit twoPartsMessage rwmClean 1) ∧
    Halves (fun _ => 0) [1, 2, 3] 1 (twoParts.rwmSplitHead twoPartsMessage 1) ∧
    ¬ Halves (fun _ => 0) [1, 2, 3] 0 (twoParts.rwmSplitHead twoPartsMessage 0) := by
  obtain ⟨hsplit, hhead⟩ := rwmSplit_iff twoParts_owns 1
  refine ⟨(hsplit rwmClean).mpr (Or.inl Nat.one_pos), hhead.mpr (Or.inl Nat.one_pos), ?_⟩
  rw [(rwmSplit_iff twoParts_owns 0).2]
  rintro (hpos | hall)
  · exact lt_irrefl 0 hpos
  · exact absurd (hall 0 ⟨1, none, 0, 0, 1⟩ rfl rfl) (by decide)

/-- A cut in front of it leaves a head that `rwm_check` does not accept. -/
theorem rwmSplit_no_bytes : Owns twoParts (fun _ => 0) twoPartsMessage [1, 2, 3] ∧
    ¬ Halves (fun _ => 0) [1, 2, 3] 0 (twoParts.rwmSplit twoPartsMessage rwmClean 0) := by
  refine ⟨twoParts_owns, ?_⟩
  rintro ⟨H', head, tail, hrun, hcheck, -⟩
  have hleft : twoParts.rwmSplit twoPartsMessage rwmClean 0
      = some (twoParts, ⟨some 1, some 0, 0, 0, 1⟩, ⟨none, none, 3, 0, 0⟩) := rfl
  rw [hleft] at hrun
  simp only [Option.some.injEq, Prod.mk.injEq] at hrun
  obtain ⟨rfl, rfl, -⟩ := hrun
  exact absurd hcheck (by decide)

end MsgHeap

end MtprotoProxy
