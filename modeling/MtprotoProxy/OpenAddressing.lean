/-
# Open addressing

A table of entries with keys; a key `k` is looked for in the slots `seq k 0`, `seq k 1`, … until one
is free or holds it.  `StopsAt` says where that ends, and `Stored` that the table holds the first
entry for each key of a list.  With double hashing (`exists_slot`) in a table of prime size every
slot is reached, so a search ends as long as one slot is free.

This file names nothing of the proxy.
-/
import Mathlib

namespace OpenAddressing

variable {K E : Type*} {key : E → K} {seq : K → ℕ → ℕ} {T : ℕ → Option E}

/-! ## Where a search ends -/

/-- **The search for `k`** ends at the slot `seq k i`. -/
def StopsAt (key : E → K) (seq : K → ℕ → ℕ) (T : ℕ → Option E) (k : K) (i : ℕ) : Prop :=
  (∀ j < i, ∃ e, T (seq k j) = some e ∧ key e ≠ k) ∧ ∀ e, T (seq k i) = some e → key e = k

theorem StopsAt.unique {k : K} {i i' : ℕ} (h : StopsAt key seq T k i)
    (h' : StopsAt key seq T k i') : i = i' := by
  rcases lt_trichotomy i i' with hlt | heq | hlt
  · obtain ⟨e, he, hne⟩ := h'.1 i hlt
    exact absurd (h.2 e he) hne
  · exact heq
  · obtain ⟨e, he, hne⟩ := h.1 i' hlt
    exact absurd (h'.2 e he) hne

/-- A search that comes to a free slot ends. -/
theorem exists_stopsAt {k : K} {n : ℕ} (h : ∃ i < n, T (seq k i) = none) :
    ∃ i < n, StopsAt key seq T k i := by
  classical
  obtain ⟨i, hi, hfree⟩ := h
  have hex : ∃ i, ∀ e, T (seq k i) = some e → key e = k := by
    refine ⟨i, ?_⟩
    intro e he
    rw [hfree] at he
    cases he
  refine ⟨Nat.find hex, ?_, ?_, Nat.find_spec hex⟩
  · refine (Nat.find_min' hex ?_).trans_lt hi
    intro e he
    rw [hfree] at he
    cases he
  · intro j hj
    have hnot := Nat.find_min hex hj
    push Not at hnot
    exact hnot

/-- **Double hashing** in a table of prime size reaches every slot. -/
theorem exists_slot {p : ℕ} (hp : p.Prime) {d : ℕ} (hd : 0 < d) (hdp : d < p) (a : ℕ) {s : ℕ}
    (hs : s < p) : ∃ i < p, (a + i * d) % p = s := by
  have : Fact p.Prime := ⟨hp⟩
  have hunit : (d : ZMod p) ≠ 0 := by
    rw [Ne, ZMod.natCast_eq_zero_iff]
    exact Nat.not_dvd_of_pos_of_lt hd hdp
  refine ⟨(((s : ZMod p) - a) * (d : ZMod p)⁻¹).val, ZMod.val_lt _, ?_⟩
  have hcast : ((a + (((s : ZMod p) - a) * (d : ZMod p)⁻¹).val * d : ℕ) : ZMod p) = s := by
    push_cast
    rw [ZMod.natCast_val, ZMod.cast_id, mul_assoc, inv_mul_cancel₀ hunit]
    ring
  have hmod := (ZMod.natCast_eq_natCast_iff' _ _ _).mp hcast
  rwa [Nat.mod_eq_of_lt hs] at hmod

/-! ## What a table holds -/

/-- Every entry is where the search for its key ends. -/
def Placed (key : E → K) (seq : K → ℕ → ℕ) (T : ℕ → Option E) : Prop :=
  ∀ s e, T s = some e → ∃ i, seq (key e) i = s ∧ StopsAt key seq T (key e) i

theorem Placed.at_stop {k : K} {i s : ℕ} {e : E} (h : Placed key seq T)
    (hstop : StopsAt key seq T k i) (he : T s = some e) (hk : key e = k) : seq k i = s := by
  obtain ⟨j, hj, hstop'⟩ := h s e he
  rw [hk] at hj hstop'
  rw [hstop.unique hstop', hj]

/-- A free slot at the end of the search for a key is filled. -/
theorem Placed.add {k : K} {i : ℕ} {e : E} (h : Placed key seq T)
    (hstop : StopsAt key seq T k i) (hfree : T (seq k i) = none) (hk : key e = k) :
    Placed key seq (Function.update T (seq k i) (some e)) := by
  -- the entries that a search passes by are still there
  have hpass {k' : K} {i' : ℕ} (hpast : ∀ j < i', ∃ e', T (seq k' j) = some e' ∧ key e' ≠ k') :
      ∀ j < i', ∃ e', Function.update T (seq k i) (some e) (seq k' j) = some e' ∧ key e' ≠ k' := by
    intro j hj
    obtain ⟨e', he', hne⟩ := hpast j hj
    refine ⟨e', ?_, hne⟩
    rw [Function.update_of_ne]
    · exact he'
    · intro heq
      rw [heq, hfree] at he'
      cases he'
  intro s e' he'
  by_cases hs : s = seq k i
  · rw [hs, Function.update_self] at he'
    obtain rfl := Option.some.inj he'
    refine ⟨i, by rw [hk, hs], ?_, ?_⟩
    · rw [hk]
      exact hpass hstop.1
    · intro e'' he''
      rw [hk, Function.update_self] at he''
      rw [← Option.some.inj he'']
  · rw [Function.update_of_ne hs] at he'
    obtain ⟨j, hj, hpast, -⟩ := h s e' he'
    refine ⟨j, hj, hpass hpast, ?_⟩
    intro e'' he''
    rw [hj, Function.update_of_ne hs, he'] at he''
    rw [← Option.some.inj he'']

section Stored

variable [DecidableEq K]

/-- The first entry of a list that has the key. -/
def firstOf (key : E → K) (k : K) (L : List E) : Option E := L.find? (fun e => key e = k)

theorem firstOf_append_singleton {k : K} {L : List E} {e : E} :
    firstOf key k (L ++ [e]) = (firstOf key k L).or (if key e = k then some e else none) := by
  unfold firstOf
  rw [List.find?_append, List.find?_singleton]
  simp only [decide_eq_true_eq]

/-- **The table holds the first entry for each key** of a list. -/
structure Stored (key : E → K) (seq : K → ℕ → ℕ) (T : ℕ → Option E) (L : List E) : Prop where
  placed : Placed key seq T
  entries : ∀ e, (∃ s, T s = some e) ↔ firstOf key (key e) L = some e
  few : ∃ S : Finset ℕ, S.card ≤ L.length ∧ ∀ s, T s ≠ none → s ∈ S

theorem Stored.empty : Stored key seq (fun _ => none) [] := by
  refine ⟨?_, ?_, ∅, le_rfl, ?_⟩
  · intro s e he
    cases he
  · intro e
    constructor
    · rintro ⟨s, hs⟩
      cases hs
    · intro h
      cases h
  · intro s hs
    exact absurd rfl hs

/-- **A search** finds the first entry for its key. -/
theorem Stored.find {k : K} {i : ℕ} {L : List E} (h : Stored key seq T L)
    (hstop : StopsAt key seq T k i) : T (seq k i) = firstOf key k L := by
  cases hslot : T (seq k i) with
  | some e =>
    have hk := hstop.2 e hslot
    have hfirst := (h.entries e).mp ⟨_, hslot⟩
    rw [hk] at hfirst
    exact hfirst.symm
  | none =>
    cases hfirst : firstOf key k L with
    | none => rfl
    | some e =>
      have hk : key e = k := by
        have hdec := List.find?_some (p := fun e => decide (key e = k)) hfirst
        exact of_decide_eq_true hdec
      obtain ⟨s, hs⟩ := (h.entries e).mpr (by rw [hk]; exact hfirst)
      rw [h.placed.at_stop hstop hs hk, hs] at hslot
      cases hslot

/-- A table with fewer entries than slots has a free slot. -/
theorem Stored.exists_free {L : List E} (h : Stored key seq T L) {p : ℕ} (hp : L.length < p) :
    ∃ s < p, T s = none := by
  obtain ⟨S, hcard, hS⟩ := h.few
  by_contra hnot
  push Not at hnot
  have hsub : Finset.range p ⊆ S := by
    intro s hs
    exact hS s (hnot s (Finset.mem_range.mp hs))
  have hle := Finset.card_le_card hsub
  rw [Finset.card_range] at hle
  omega

/-- A further entry for a key that is there changes nothing. -/
theorem Stored.keep {i : ℕ} {L : List E} {e e' : E} (h : Stored key seq T L)
    (hstop : StopsAt key seq T (key e) i) (hthere : T (seq (key e) i) = some e') :
    Stored key seq T (L ++ [e]) := by
  have hfirst := h.find hstop
  rw [hthere] at hfirst
  obtain ⟨S, hcard, hS⟩ := h.few
  refine ⟨h.placed, ?_, S, ?_, hS⟩
  · intro e''
    rw [h.entries e'', firstOf_append_singleton]
    by_cases hk : key e = key e''
    · rw [← hk, ← hfirst, Option.some_or]
    · rw [if_neg hk, Option.or_none]
  · rw [List.length_append]
    exact hcard.trans (Nat.le_add_right _ _)

/-- **A new key** gets the free slot where its search ends. -/
theorem Stored.add {i : ℕ} {L : List E} {e : E} (h : Stored key seq T L)
    (hstop : StopsAt key seq T (key e) i) (hfree : T (seq (key e) i) = none) :
    Stored key seq (Function.update T (seq (key e) i) (some e)) (L ++ [e]) := by
  have hfirst := h.find hstop
  rw [hfree] at hfirst
  obtain ⟨S, hcard, hS⟩ := h.few
  refine ⟨h.placed.add hstop hfree rfl, ?_, insert (seq (key e) i) S, ?_, ?_⟩
  · intro e'
    rw [firstOf_append_singleton]
    have hiff : (∃ s, Function.update T (seq (key e) i) (some e) s = some e') ↔
        e = e' ∨ ∃ s, T s = some e' := by
      constructor
      · rintro ⟨s, hs⟩
        by_cases heq : s = seq (key e) i
        · rw [heq, Function.update_self] at hs
          exact Or.inl (Option.some.inj hs)
        · rw [Function.update_of_ne heq] at hs
          exact Or.inr ⟨s, hs⟩
      · rintro (rfl | ⟨s, hs⟩)
        · exact ⟨_, Function.update_self _ _ _⟩
        · refine ⟨s, ?_⟩
          rw [Function.update_of_ne]
          · exact hs
          · rintro rfl
            rw [hfree] at hs
            cases hs
    rw [hiff, h.entries e']
    by_cases hk : key e = key e'
    · rw [← hk, ← hfirst, if_pos rfl, Option.none_or, Option.some_inj]
      constructor
      · rintro (rfl | hnone)
        · rfl
        · cases hnone
      · exact Or.inl
    · rw [if_neg hk, Option.or_none]
      constructor
      · rintro (rfl | hold)
        · exact absurd rfl hk
        · exact hold
      · exact Or.inr
  · rw [List.length_append, List.length_singleton]
    exact (Finset.card_insert_le _ _).trans (Nat.add_le_add_right hcard 1)
  · intro s hs
    by_cases heq : s = seq (key e) i
    · rw [heq]
      exact Finset.mem_insert_self _ _
    · rw [Function.update_of_ne heq] at hs
      exact Finset.mem_insert_of_mem (hS s hs)

end Stored

end OpenAddressing
