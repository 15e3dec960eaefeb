/-
# Lists threaded through pointer fields

Two intrusive lists of C, described by the maps that their link fields define on
pointers.  `Chain next nil p xs` is a singly linked list that starts at `p` and ends in
the null pointer, `Segment next prev a xs b` the piece of a doubly linked list between
`a` and `b`, and `Ring next prev H xs` a circular list with head `H`.

The rules say what the usual pointer surgery does to them: adding in front of the head,
unlinking a member, adding a first cell, cutting a cell out of a chain.

This file names nothing of the proxy.
-/
import Mathlib

namespace Linked

open Function (update)

variable {α : Type*}

/-! ## Segments of a doubly linked list -/

/-- The links lead from `a` through `xs` to `b`, and back. -/
def Segment (next prev : α → α) : α → List α → α → Prop
  | a, [], b => next a = b ∧ prev b = a
  | a, x :: xs, b => next a = x ∧ prev x = a ∧ Segment next prev x xs b

/-- A segment only looks at the links of its own cells. -/
theorem Segment.congr {next prev next' prev' : α → α} {b : α} :
    ∀ {xs : List α} {a : α}, (∀ u ∈ a :: xs, next' u = next u) →
      (∀ v ∈ xs ++ [b], prev' v = prev v) →
      Segment next prev a xs b → Segment next' prev' a xs b := by
  intro xs
  induction xs with
  | nil =>
    rintro a hnext hprev ⟨hn, hp⟩
    constructor
    · rw [hnext a List.mem_cons_self, hn]
    · rw [hprev b (by simp), hp]
  | cons x xs ih =>
    rintro a hnext hprev ⟨hn, hp, hrest⟩
    refine ⟨?_, ?_, ih ?_ ?_ hrest⟩
    · rw [hnext a List.mem_cons_self, hn]
    · rw [hprev x (by simp), hp]
    · intro u hu
      exact hnext u (List.mem_cons_of_mem _ hu)
    · intro v hv
      exact hprev v (by simp only [List.cons_append, List.mem_cons]; exact Or.inr hv)

variable {next prev : α → α}

/-- Two segments, one after the other. -/
theorem segment_append {x b : α} {zs : List α} :
    ∀ {ys : List α} {a : α}, Segment next prev a (ys ++ x :: zs) b ↔
      Segment next prev a ys x ∧ Segment next prev x zs b := by
  intro ys
  induction ys with
  | nil => intro a; simp [Segment, and_assoc]
  | cons y ys ih => intro a; simp [Segment, ih, and_assoc]

/-- The cell before the end of a segment is one of its cells. -/
theorem Segment.prev_mem {b : α} :
    ∀ {xs : List α} {a : α}, Segment next prev a xs b → prev b ∈ a :: xs := by
  intro xs
  induction xs with
  | nil => rintro a ⟨-, hp⟩; simp [hp]
  | cons x xs ih => rintro a ⟨-, -, hrest⟩; exact List.mem_cons_of_mem _ (ih hrest)

/-- The cell after the start of a segment is one of its cells or its end. -/
theorem Segment.next_mem {a b : α} {xs : List α}
    (h : Segment next prev a xs b) : next a ∈ xs ++ [b] := by
  cases xs with
  | nil => simp [h.1]
  | cons x xs => simp [h.1]

/-! ## Circular lists -/

/-- **A circular list with head `H` and members `xs`, consistent in both directions.** -/
structure Ring (next prev : α → α) (H : α) (xs : List α) : Prop where
  segment : Segment next prev H xs H
  nodup : (H :: xs).Nodup

/-- A ring only looks at the links of its head and its members. -/
theorem Ring.congr {next prev next' prev' : α → α} {H : α} {xs : List α}
    (h : Ring next prev H xs) (hnext : ∀ u ∈ H :: xs, next' u = next u)
    (hprev : ∀ u ∈ H :: xs, prev' u = prev u) : Ring next' prev' H xs := by
  refine ⟨h.segment.congr hnext ?_, h.nodup⟩
  intro v hv
  apply hprev v
  rcases List.mem_append.mp hv with hv | hv
  · exact List.mem_cons_of_mem _ hv
  · rw [List.mem_singleton.mp hv]
    exact List.mem_cons_self

/-- A head that points at itself is an empty ring. -/
theorem ring_nil {H : α} :
    Ring next prev H [] ↔ next H = H ∧ prev H = H := by
  constructor
  · exact fun h => h.segment
  · exact fun h => ⟨h, by simp⟩

/-- The first cell of a ring. -/
theorem Ring.next_head {H : α} {xs : List α} (h : Ring next prev H xs) :
    next H = xs.headD H := by
  cases xs with
  | nil => exact h.segment.1
  | cons x xs => exact h.segment.1

/-- A head whose ring is empty points at itself, and no other head does. -/
theorem Ring.next_head_eq_self {H : α} {xs : List α}
    (h : Ring next prev H xs) : next H = H ↔ xs = [] := by
  rw [h.next_head]
  cases xs with
  | nil => simp
  | cons x xs =>
    have hne : x ≠ H := fun heq => (List.nodup_cons.mp h.nodup).1 (by simp [heq])
    simp [hne]

/-- The cells next to the head of a ring are members or the head itself. -/
theorem Ring.ends_mem {H : α} {xs : List α} (h : Ring next prev H xs) :
    next H ∈ H :: xs ∧ prev H ∈ H :: xs := by
  refine ⟨?_, h.segment.prev_mem⟩
  rcases List.mem_append.mp h.segment.next_mem with hmem | hmem
  · exact List.mem_cons_of_mem _ hmem
  · simp [List.mem_singleton.mp hmem]

/-- The neighbours of a member of a ring are members or the head, never the cell itself. -/
theorem Ring.neighbours {H x : α} {xs : List α} (h : Ring next prev H xs)
    (hx : x ∈ xs) :
    (next x ∈ H :: xs ∧ next x ≠ x) ∧ (prev x ∈ H :: xs ∧ prev x ≠ x) := by
  obtain ⟨ys, zs, rfl⟩ := List.append_of_mem hx
  obtain ⟨hbefore, hafter⟩ := segment_append.mp h.segment
  have hnodup := h.nodup
  have hn := hafter.next_mem
  have hp := hbefore.prev_mem
  simp only [List.nodup_cons, List.mem_append, List.mem_cons, List.nodup_append,
    not_or] at hnodup
  simp only [List.mem_append, List.mem_cons, List.not_mem_nil, or_false] at hn hp ⊢
  refine ⟨⟨?_, ?_⟩, ?_, ?_⟩
  · tauto
  · rintro heq
    rw [heq] at hn
    rcases hn with hn | hn
    · exact hnodup.2.2.1.1 hn
    · exact hnodup.1.2.1 hn.symm
  · tauto
  · rintro heq
    rw [heq] at hp
    rcases hp with hp | hp
    · exact hnodup.1.2.1 hp.symm
    · exact hnodup.2.2.2 x hp x (Or.inl rfl) rfl

/-! ## Chains -/

/-- The links lead from `p` through `xs` to the null pointer. -/
def Chain (next : α → α) (nil : α) : α → List α → Prop
  | p, [] => p = nil
  | p, x :: xs => p = x ∧ x ≠ nil ∧ Chain next nil (next x) xs

/-- A chain only looks at the links of its cells. -/
theorem Chain.congr {next next' : α → α} {nil : α} :
    ∀ {xs : List α} {p : α}, (∀ u ∈ xs, next' u = next u) → Chain next nil p xs →
      Chain next' nil p xs := by
  intro xs
  induction xs with
  | nil => intro p _ h; exact h
  | cons x xs ih =>
    rintro p hnext ⟨rfl, hne, hrest⟩
    refine ⟨rfl, hne, ?_⟩
    rw [hnext p List.mem_cons_self]
    exact ih (fun u hu => hnext u (List.mem_cons_of_mem _ hu)) hrest

/-- A chain that goes on after a first part. -/
theorem chain_append {next : α → α} {nil : α} {zs : List α} {x : α} :
    ∀ {ys : List α} {p : α}, Chain next nil p (ys ++ x :: zs) →
      x ≠ nil ∧ Chain next nil (next x) zs := by
  intro ys
  induction ys with
  | nil => rintro p ⟨-, hne, hrest⟩; exact ⟨hne, hrest⟩
  | cons y ys ih => rintro p ⟨-, -, hrest⟩; exact ih hrest

/-! ## Pointer surgery -/

variable [DecidableEq α]

/-- The last link of a segment is turned to another cell. -/
theorem Segment.retarget {b n : α} :
    ∀ {xs : List α} {a : α}, Segment next prev a xs b → (a :: xs).Nodup → n ∉ xs →
      Segment (update next (prev b) n) (update prev n (prev b)) a xs n := by
  intro xs
  induction xs with
  | nil => rintro a ⟨-, hp⟩ - -; simp [Segment, hp]
  | cons x xs ih =>
    rintro a ⟨hn, hp, hrest⟩ hnodup hfresh
    have hlast : prev b ≠ a := by
      intro heq
      have hmem := hrest.prev_mem
      rw [heq] at hmem
      exact (List.nodup_cons.mp hnodup).1 hmem
    have hx : x ≠ n := fun heq => hfresh (by simp [heq])
    refine ⟨?_, ?_, ih hrest (List.nodup_cons.mp hnodup).2 (fun h => hfresh (by simp [h]))⟩
    · rw [Function.update_of_ne hlast.symm, hn]
    · rw [Function.update_of_ne hx, hp]

/-- The first link of a segment is taken over by another cell. -/
theorem Segment.rehead {x p b : α} {zs : List α}
    (h : Segment next prev x zs b) (hp : p ∉ zs) (hnodup : (zs ++ [b]).Nodup) :
    Segment (update next p (next x)) (update prev (next x) p) p zs b := by
  cases zs with
  | nil => simp [Segment, h.1]
  | cons z zs =>
    obtain ⟨hn, -, hrest⟩ := h
    have hpz : p ∉ z :: zs := hp
    refine ⟨by simp [hn], by simp [hn], hrest.congr ?_ ?_⟩
    · intro u hu
      exact Function.update_of_ne (ne_of_mem_of_not_mem hu hpz) _ _
    · intro v hv
      rw [hn]
      refine Function.update_of_ne (fun heq => ?_) _ _
      exact (List.nodup_cons.mp hnodup).1 (heq ▸ hv)

/-- **A cell is bridged over:** its two neighbours are linked to each other. -/
theorem Segment.bridge {x b : α} {zs : List α} :
    ∀ {ys : List α} {a : α}, Segment next prev a (ys ++ x :: zs) b →
      (a :: (ys ++ x :: zs)).Nodup → (ys ++ x :: zs ++ [b]).Nodup →
      Segment (update next (prev x) (next x)) (update prev (next x) (prev x)) a (ys ++ zs) b := by
  intro ys
  induction ys with
  | nil =>
    rintro a ⟨-, hp, hrest⟩ hleft hright
    rw [hp]
    refine hrest.rehead ?_ ?_
    · intro hmem
      exact (List.nodup_cons.mp hleft).1 (List.mem_cons_of_mem _ hmem)
    · exact (List.nodup_cons.mp hright).2
  | cons y ys ih =>
    rintro a ⟨hn, hp, hrest⟩ hleft hright
    have hsplit := segment_append.mp hrest
    have hlast : a ≠ prev x := by
      intro heq
      have hmem := hsplit.1.prev_mem
      rw [← heq] at hmem
      apply (List.nodup_cons.mp hleft).1
      rcases List.mem_cons.mp hmem with h | h <;> simp [h]
    have hfirst : y ≠ next x := by
      intro heq
      have hmem := hsplit.2.next_mem
      rw [← heq] at hmem
      have hlate : y ∈ ys ++ x :: (zs ++ [b]) :=
        List.mem_append_right _ (List.mem_cons_of_mem _ hmem)
      apply (List.nodup_cons.mp hright).1
      simpa using hlate
    refine ⟨?_, ?_, ih hrest (List.nodup_cons.mp hleft).2 (List.nodup_cons.mp hright).2⟩
    · rw [Function.update_of_ne hlast, hn]
    · rw [Function.update_of_ne hfirst, hp]

/-- **Unlinking.** A member whose neighbours are linked to each other, and whose own links
are then overwritten with anything, has left the ring. -/
theorem Ring.unlink {H x : α} {xs : List α} (h : Ring next prev H xs)
    (hx : x ∈ xs) (nil : α) :
    Ring (update (update next (prev x) (next x)) x nil)
      (update (update prev (next x) (prev x)) x nil) H (xs.erase x) := by
  obtain ⟨ys, zs, rfl⟩ := List.append_of_mem hx
  have hnodup := h.nodup
  have hrest : (ys ++ x :: zs).Nodup := (List.nodup_cons.mp hnodup).2
  have hnotin : x ∉ ys ++ zs := by
    have := List.nodup_middle.mp hrest
    exact (List.nodup_cons.mp this).1
  have herase : (ys ++ x :: zs).erase x = ys ++ zs := by
    have hys : x ∉ ys := fun hmem => hnotin (List.mem_append_left _ hmem)
    rw [List.erase_append_right _ hys, List.erase_cons_head]
  have hH : x ≠ H := fun heq => (List.nodup_cons.mp hnodup).1 (heq ▸ hx)
  have hlist : (ys ++ x :: zs ++ [H]).Nodup := by
    apply List.Nodup.append hrest (by simp)
    rw [List.disjoint_singleton]
    exact (List.nodup_cons.mp hnodup).1
  rw [herase]
  constructor
  · refine (h.segment.bridge hnodup hlist).congr ?_ ?_
    · intro u hu
      refine Function.update_of_ne (fun heq => ?_) _ _
      subst heq
      rcases List.mem_cons.mp hu with hu | hu
      · exact hH hu
      · exact hnotin hu
    · intro v hv
      refine Function.update_of_ne (fun heq => ?_) _ _
      subst heq
      rcases List.mem_append.mp hv with hv | hv
      · exact hnotin hv
      · exact hH (List.mem_singleton.mp hv)
  · refine List.nodup_cons.mpr ⟨?_, ?_⟩
    · intro hmem
      apply (List.nodup_cons.mp hnodup).1
      rcases List.mem_append.mp hmem with hmem | hmem
      · exact List.mem_append_left _ hmem
      · exact List.mem_append_right _ (List.mem_cons_of_mem _ hmem)
    · exact (List.nodup_cons.mp (List.nodup_middle.mp hrest)).2

/-- Unlinking a member writes to no cell outside the ring. -/
theorem Ring.unlink_frame {H x u : α} {xs : List α}
    (h : Ring next prev H xs) (hx : x ∈ xs) (nil : α) (hu : u ∉ H :: xs) :
    update (update next (prev x) (next x)) x nil u = next u ∧
      update (update prev (next x) (prev x)) x nil u = prev u := by
  obtain ⟨⟨hn, -⟩, hp, -⟩ := h.neighbours hx
  have hux : u ≠ x := fun heq => hu (heq ▸ List.mem_cons_of_mem _ hx)
  have hup : u ≠ prev x := fun heq => hu (heq ▸ hp)
  have hun : u ≠ next x := fun heq => hu (heq ▸ hn)
  constructor
  · rw [Function.update_of_ne hux, Function.update_of_ne hup]
  · rw [Function.update_of_ne hux, Function.update_of_ne hun]

/-- **Linking.** A new cell put between the last member and the head is the last member. -/
theorem Ring.insert {H x : α} {xs : List α} (h : Ring next prev H xs)
    (hx : x ∉ H :: xs) :
    Ring (update (update next (prev H) x) x H) (update (update prev x (prev H)) H x)
      H (xs ++ [x]) := by
  have hxH : x ≠ H := fun heq => hx (by simp [heq])
  have hxs : x ∉ xs := fun hmem => hx (List.mem_cons_of_mem _ hmem)
  constructor
  · rw [segment_append]
    constructor
    · refine (h.segment.retarget h.nodup hxs).congr ?_ ?_
      · intro u hu
        exact Function.update_of_ne (ne_of_mem_of_not_mem hu hx) _ _
      · intro v hv
        refine Function.update_of_ne (fun heq => ?_) _ _
        subst heq
        rcases List.mem_append.mp hv with hv | hv
        · exact (List.nodup_cons.mp h.nodup).1 hv
        · exact hxH (List.mem_singleton.mp hv).symm
    · simp [Segment]
  · have hnodup := h.nodup
    rw [← List.cons_append]
    apply List.Nodup.append hnodup (by simp)
    rw [List.disjoint_singleton]
    exact hx

/-- Linking a new cell writes to no cell outside the ring but to the new one. -/
theorem Ring.insert_frame {H x u : α} {xs : List α}
    (h : Ring next prev H xs) (hu : u ∉ H :: xs) (hx : u ≠ x) :
    update (update next (prev H) x) x H u = next u ∧
      update (update prev x (prev H)) H x u = prev u := by
  have hup : u ≠ prev H := fun heq => hu (heq ▸ h.ends_mem.2)
  have huH : u ≠ H := fun heq => hu (heq ▸ List.mem_cons_self)
  constructor
  · rw [Function.update_of_ne hx, Function.update_of_ne hup]
  · rw [Function.update_of_ne huH, Function.update_of_ne hx]

/-- A new first cell. -/
theorem Chain.cons {next : α → α} {nil p x : α} {xs : List α} (h : Chain next nil p xs)
    (hne : x ≠ nil) (hx : x ∉ xs) : Chain (update next x p) nil x (x :: xs) := by
  refine ⟨rfl, hne, ?_⟩
  rw [Function.update_self]
  exact h.congr (fun u hu => Function.update_of_ne (ne_of_mem_of_not_mem hu hx) _ _)

/-- **Cutting a cell out of a chain** by turning the link of the cell before it. -/
theorem Chain.cut {next : α → α} {nil : α} {x u : α} {zs : List α} :
    ∀ {ys : List α} {p : α}, Chain next nil p (ys ++ u :: x :: zs) →
      (ys ++ u :: x :: zs).Nodup → Chain (update next u (next x)) nil p (ys ++ u :: zs) := by
  intro ys
  induction ys with
  | nil =>
    rintro p ⟨rfl, hne, -, -, hrest⟩ hnodup
    refine ⟨rfl, hne, ?_⟩
    rw [Function.update_self]
    refine hrest.congr (fun v hv => Function.update_of_ne (fun heq => ?_) _ _)
    apply (List.nodup_cons.mp hnodup).1
    rw [← heq]
    exact List.mem_cons_of_mem _ hv
  | cons y ys ih =>
    rintro p ⟨rfl, hne, hrest⟩ hnodup
    have hp : p ≠ u := fun heq => (List.nodup_cons.mp hnodup).1 (by simp [heq])
    refine ⟨rfl, hne, ?_⟩
    rw [Function.update_of_ne hp]
    exact ih hrest (List.nodup_cons.mp hnodup).2

end Linked
