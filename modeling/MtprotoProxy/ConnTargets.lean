/-
# Connection targets

`create_target`, `find_target`, `destroy_target` and `free_target` of `net/net-connections.c`:
the table of the targets of outbound connections and their `global_refcnt`.

A target is a number, its place in the list of all the targets made so far.  The chains of
`HTarget` are one list of targets: a chain is chosen by the key that the search compares.  The
type and the `extra` of a target are the same for all targets of the proxy and are left out, as
is the random reconnect timeout.

`RefsCount` says what the reference counts are in terms of the references that are held;
`createTarget_refs` and `destroyTargets_refs` say what taking a reference, and dropping a list of
them, does to it.
-/
import MtprotoProxy.CInt

namespace MtprotoProxy

open CLib

/-- The fields of `struct conn_target_info` that the configuration sets.  `target` is the IPv4
address, `0` for an IPv6 target. -/
structure ConnTargetInfo where
  target : UInt32
  targetIpv6 : Bytes
  port : ℤ
  minConnections : ℤ
  maxConnections : ℤ
  globalRefcnt : ℤ
  deriving DecidableEq, Repr

/-- All the targets made so far, and those in the hash table. -/
structure ConnTargets where
  infos : List ConnTargetInfo
  hTarget : List ℕ
  made : ∀ t ∈ hTarget, t < infos.length

/-- No targets. -/
def ConnTargets.empty : ConnTargets := ⟨[], [], by simp⟩

/-- `CONN_TARGET_INFO (t)`. -/
def ConnTargets.info (T : ConnTargets) (t : ℕ) : ConnTargetInfo :=
  T.infos.getD t ⟨0, [], 0, 0, 0, 0⟩

/-- The target `t` with other fields. -/
def ConnTargets.modify (T : ConnTargets) (t : ℕ) (f : ConnTargetInfo → ConnTargetInfo) :
    ConnTargets where
  infos := T.infos.modify t f
  hTarget := T.hTarget
  made := by
    intro u hu
    rw [List.length_modify]
    exact T.made u hu

/-- A new target in the table; its number is `T.infos.length`. -/
def ConnTargets.insert (T : ConnTargets) (i : ConnTargetInfo) : ConnTargets where
  infos := T.infos ++ [i]
  hTarget := T.infos.length :: T.hTarget
  made := by
    intro u hu
    rw [List.length_append, List.length_singleton]
    rcases List.mem_cons.mp hu with rfl | hu
    · omega
    · have := T.made u hu
      omega

/-- The target `t` out of the table. -/
def ConnTargets.remove (T : ConnTargets) (t : ℕ) : ConnTargets where
  infos := T.infos
  hTarget := T.hTarget.erase t
  made := fun u hu => T.made u (List.mem_of_mem_erase hu)

/-- What the searches compare: an IPv6 target has no IPv4 address. -/
def ConnTargetInfo.sameTarget (a b : ConnTargetInfo) : Bool :=
  a.target == b.target && a.port == b.port && (a.target != 0 || a.targetIpv6 == b.targetIpv6)

/-- The address and the port of a target. -/
def ConnTargetInfo.key (a : ConnTargetInfo) : UInt32 × Bytes × ℤ :=
  (a.target, if a.target = 0 then a.targetIpv6 else [], a.port)

theorem ConnTargetInfo.sameTarget_iff (a b : ConnTargetInfo) :
    a.sameTarget b = true ↔ a.key = b.key := by
  simp only [sameTarget, key, Bool.and_eq_true, Bool.or_eq_true, beq_iff_eq, bne_iff_ne,
    Prod.mk.injEq]
  constructor
  · rintro ⟨⟨ht, hp⟩, h6⟩
    refine ⟨ht, ?_, hp⟩
    rw [← ht]
    split_ifs with h0
    · exact h6.resolve_left (fun hne => hne h0)
    · rfl
  · rintro ⟨ht, h6, hp⟩
    refine ⟨⟨ht, hp⟩, ?_⟩
    rw [← ht] at h6
    by_cases h0 : a.target = 0
    · rw [if_pos h0, if_pos h0] at h6
      exact Or.inr h6
    · exact Or.inl h0

/-- The search of `find_target` and `find_target_ipv6` with mode `0`. -/
def findTarget (T : ConnTargets) (source : ConnTargetInfo) : Option ℕ :=
  T.hTarget.find? (fun t => source.sameTarget (T.info t))

/-- The assertions at the start of `find_target` and `find_target_ipv6`. -/
def ConnTargetInfo.hasAddress (a : ConnTargetInfo) : Bool :=
  a.target != 0 || a.targetIpv6.any (· != 0)

/-- What `create_target` does to a target that is in the table. -/
def ConnTargetInfo.retake (i source : ConnTargetInfo) : ConnTargetInfo :=
  { i with
    minConnections := source.minConnections
    maxConnections := source.maxConnections
    globalRefcnt := i.globalRefcnt + 1 }

/-- One reference less. -/
def ConnTargetInfo.drop (i : ConnTargetInfo) : ConnTargetInfo :=
  { i with globalRefcnt := i.globalRefcnt - 1 }

@[simp] theorem ConnTargetInfo.key_retake (i source : ConnTargetInfo) :
    (i.retake source).key = i.key := rfl

@[simp] theorem ConnTargetInfo.globalRefcnt_retake (i source : ConnTargetInfo) :
    (i.retake source).globalRefcnt = i.globalRefcnt + 1 := rfl

@[simp] theorem ConnTargetInfo.key_drop (i : ConnTargetInfo) : i.drop.key = i.key := rfl

@[simp] theorem ConnTargetInfo.globalRefcnt_drop (i : ConnTargetInfo) :
    i.drop.globalRefcnt = i.globalRefcnt - 1 := rfl

/-- `create_target`; `none` when the assertion on the address fails. -/
def createTarget (T : ConnTargets) (source : ConnTargetInfo) : Option (ℕ × ConnTargets) :=
  if source.hasAddress then
    match findTarget T source with
    | some t =>
      some (t, T.modify t (fun i => i.retake source))
    | none => some (T.infos.length, T.insert { source with globalRefcnt := 1 })
  else none

/-- `destroy_target`; `none` when its assertion fails.  The flag is set when the last reference
was dropped. -/
def destroyTarget (T : ConnTargets) (t : ℕ) : Option (Bool × ConnTargets) :=
  if 0 < (T.info t).globalRefcnt then
    some ((T.info t).globalRefcnt - 1 == 0, T.modify t ConnTargetInfo.drop)
  else none

/-- `free_target` on a target without connections: `none` when the target is in use, and when
the search in the table does not find it. -/
def freeTarget (T : ConnTargets) (t : ℕ) : Option ConnTargets :=
  if 0 < (T.info t).globalRefcnt then none
  else if findTarget T (T.info t) = some t then some (T.remove t)
  else none

/-! ## Reference counts -/

/-- No two targets in the table are for one address, and each has as many references as `held`
says; a target that is not in the table has none. -/
structure RefsCount (T : ConnTargets) (held : ℕ → ℕ) : Prop where
  nodup : T.hTarget.Nodup
  keys : ∀ t ∈ T.hTarget, ∀ u ∈ T.hTarget, (T.info t).key = (T.info u).key → t = u
  count : ∀ t ∈ T.hTarget, (T.info t).globalRefcnt = held t
  absent : ∀ t, t ∉ T.hTarget → held t = 0

theorem RefsCount.empty : RefsCount .empty (fun _ => 0) where
  nodup := List.nodup_nil
  keys := by
    intro t ht
    exact absurd ht (by simp [ConnTargets.empty])
  count := by
    intro t ht
    exact absurd ht (by simp [ConnTargets.empty])
  absent := fun _ _ => rfl

/-- A target with a reference is in the table. -/
theorem RefsCount.mem_of_pos {T : ConnTargets} {held : ℕ → ℕ} (h : RefsCount T held) {t : ℕ}
    (ht : 0 < held t) : t ∈ T.hTarget := by
  by_contra hno
  rw [h.absent t hno] at ht
  exact absurd ht (lt_irrefl 0)

theorem info_modify (T : ConnTargets) (t u : ℕ) (f : ConnTargetInfo → ConnTargetInfo)
    (hu : u < T.infos.length) :
    (T.modify t f).info u = if t = u then f (T.info u) else T.info u := by
  unfold ConnTargets.info ConnTargets.modify
  rw [List.getD_eq_getElem?_getD, List.getElem?_modify, List.getElem?_eq_getElem hu,
    List.getD_eq_getElem?_getD, List.getElem?_eq_getElem hu]
  split_ifs <;> rfl

/-- Changing the counters of a target keeps its address. -/
theorem key_modify (T : ConnTargets) (t u : ℕ) (f : ConnTargetInfo → ConnTargetInfo)
    (hf : ∀ i, (f i).key = i.key) :
    ((T.modify t f).info u).key = (T.info u).key := by
  by_cases hu : u < T.infos.length
  · rw [info_modify T t u f hu]
    split_ifs
    · exact hf _
    · rfl
  · unfold ConnTargets.info ConnTargets.modify
    rw [List.getD_eq_default _ _ (by rw [List.length_modify]; omega),
      List.getD_eq_default _ _ (by omega)]

theorem info_insert (T : ConnTargets) (i : ConnTargetInfo) {u : ℕ} (hu : u < T.infos.length) :
    (T.insert i).info u = T.info u := by
  unfold ConnTargets.info ConnTargets.insert
  rw [List.getD_eq_getElem?_getD, List.getD_eq_getElem?_getD, List.getElem?_append_left hu]

theorem info_insert_self (T : ConnTargets) (i : ConnTargetInfo) :
    (T.insert i).info T.infos.length = i := by
  unfold ConnTargets.info ConnTargets.insert
  rw [List.getD_eq_getElem?_getD, List.getElem?_concat_length]
  rfl

/-- **Taking a reference.**  The target made or found has one reference more, and no other
target is touched. -/
theorem createTarget_refs {T T' : ConnTargets} {held : ℕ → ℕ} {source : ConnTargetInfo} {t : ℕ}
    (h : RefsCount T held) (hc : createTarget T source = some (t, T')) :
    RefsCount T' (fun u => held u + if t = u then 1 else 0) := by
  unfold createTarget at hc
  rw [Option.ite_none_right_eq_some] at hc
  obtain ⟨-, hc⟩ := hc
  cases hfind : findTarget T source with
  | some f =>
    simp only [hfind, Option.some.injEq, Prod.mk.injEq] at hc
    obtain ⟨rfl, rfl⟩ := hc
    have hmem : f ∈ T.hTarget := List.mem_of_find?_eq_some hfind
    refine ⟨h.nodup, ?_, ?_, ?_⟩
    · intro u hu v hv hkey
      rw [key_modify T f u _ (fun i => i.key_retake source),
        key_modify T f v _ (fun i => i.key_retake source)] at hkey
      exact h.keys u hu v hv hkey
    · intro u hu
      rw [info_modify T f u _ (T.made u hu)]
      have hcount := h.count u hu
      split_ifs
      · rw [ConnTargetInfo.globalRefcnt_retake, hcount]
        rfl
      · rw [hcount]
        rfl
    · intro u hu
      have hne : f ≠ u := by
        rintro rfl
        exact hu hmem
      simp only [if_neg hne, Nat.add_zero]
      exact h.absent u hu
  | none =>
    simp only [hfind, Option.some.injEq, Prod.mk.injEq] at hc
    obtain ⟨rfl, rfl⟩ := hc
    -- the new number is not in the table
    have hnew : T.infos.length ∉ T.hTarget := fun hmem => lt_irrefl _ (T.made _ hmem)
    have hother : ∀ u ∈ T.hTarget, source.key ≠ (T.info u).key := by
      intro u hu hkey
      have hno := List.find?_eq_none.mp hfind u hu
      exact hno ((ConnTargetInfo.sameTarget_iff _ _).mpr hkey)
    refine ⟨List.nodup_cons.mpr ⟨hnew, h.nodup⟩, ?_, ?_, ?_⟩
    · intro u hu v hv hkey
      rcases List.mem_cons.mp hu with rfl | hu
      · rcases List.mem_cons.mp hv with rfl | hv
        · rfl
        · rw [info_insert_self, info_insert T _ (T.made v hv)] at hkey
          exact absurd hkey (hother v hv)
      · rcases List.mem_cons.mp hv with rfl | hv
        · rw [info_insert_self, info_insert T _ (T.made u hu)] at hkey
          exact absurd hkey.symm (hother u hu)
        · rw [info_insert T _ (T.made u hu), info_insert T _ (T.made v hv)] at hkey
          exact h.keys u hu v hv hkey
    · intro u hu
      rcases List.mem_cons.mp hu with rfl | hu
      · rw [info_insert_self, h.absent _ hnew]
        simp
      · have hne : T.infos.length ≠ u := by
          rintro rfl
          exact hnew hu
        rw [info_insert T _ (T.made u hu), if_neg hne, h.count u hu]
        simp
    · intro u hu
      have hne : u ≠ T.infos.length ∧ u ∉ T.hTarget := not_or.mp (mt List.mem_cons.mpr hu)
      simp only [if_neg (Ne.symm hne.1), Nat.add_zero]
      exact h.absent u hne.2

/-- Taking a reference gives a target for the address that was asked for, and keeps the
addresses of the targets there are. -/
theorem createTarget_key {T T' : ConnTargets} {source : ConnTargetInfo} {t : ℕ}
    (hc : createTarget T source = some (t, T')) :
    t < T'.infos.length ∧ (T'.info t).key = source.key ∧ T.infos.length ≤ T'.infos.length ∧
      ∀ u < T.infos.length, (T'.info u).key = (T.info u).key := by
  unfold createTarget at hc
  rw [Option.ite_none_right_eq_some] at hc
  obtain ⟨-, hc⟩ := hc
  cases hfind : findTarget T source with
  | some f =>
    simp only [hfind, Option.some.injEq, Prod.mk.injEq] at hc
    obtain ⟨rfl, rfl⟩ := hc
    have hlt : f < T.infos.length := T.made f (List.mem_of_find?_eq_some hfind)
    have hkey : source.sameTarget (T.info f) = true := by
      have := List.find?_some hfind
      exact this
    have hlen : (T.modify f (fun i => i.retake source)).infos.length = T.infos.length :=
      List.length_modify _ _ _
    refine ⟨by rwa [hlen], ?_, le_of_eq hlen.symm, ?_⟩
    · rw [key_modify T f f _ (fun i => i.key_retake source)]
      exact ((ConnTargetInfo.sameTarget_iff _ _).mp hkey).symm
    · intro u _
      exact key_modify T f u _ (fun i => i.key_retake source)
  | none =>
    simp only [hfind, Option.some.injEq, Prod.mk.injEq] at hc
    obtain ⟨rfl, rfl⟩ := hc
    have hlen : (T.insert { source with globalRefcnt := 1 }).infos.length = T.infos.length + 1 :=
      List.length_append
    refine ⟨by omega, ?_, by omega, ?_⟩
    · rw [info_insert_self]
      rfl
    · intro u hu
      rw [info_insert T _ hu]

/-- **Dropping a reference** that is held.  The flag says whether it was the last one. -/
theorem destroyTarget_refs {T : ConnTargets} {held : ℕ → ℕ} {t : ℕ} (h : RefsCount T held)
    (ht : 0 < held t) :
    ∃ T', destroyTarget T t = some (decide (held t = 1), T') ∧
      RefsCount T' (fun u => held u - if t = u then 1 else 0) := by
  have hmem := h.mem_of_pos ht
  have hcount := h.count t hmem
  have hlast : ((T.info t).globalRefcnt - 1 == 0) = decide (held t = 1) := by
    rw [Bool.eq_iff_iff, beq_iff_eq, decide_eq_true_eq]
    omega
  unfold destroyTarget
  rw [if_pos (by omega), hlast]
  refine ⟨_, rfl, h.nodup, ?_, ?_, ?_⟩
  · intro u hu v hv hkey
    rw [key_modify T t u _ ConnTargetInfo.key_drop,
      key_modify T t v _ ConnTargetInfo.key_drop] at hkey
    exact h.keys u hu v hv hkey
  · intro u hu
    rw [info_modify T t u _ (T.made u hu)]
    have hu' := h.count u hu
    split_ifs with heq
    · subst heq
      rw [ConnTargetInfo.globalRefcnt_drop]
      omega
    · omega
  · intro u hu
    rw [h.absent u hu, Nat.zero_sub]

/-- Freeing a target that is not in use keeps the counts. -/
theorem freeTarget_refs {T T' : ConnTargets} {held : ℕ → ℕ} {t : ℕ} (h : RefsCount T held)
    (hf : freeTarget T t = some T') : held t = 0 ∧ RefsCount T' held := by
  unfold freeTarget at hf
  rw [Option.ite_none_left_eq_some, Option.ite_none_right_eq_some] at hf
  obtain ⟨hle, hfind, hT⟩ := hf
  have hmem : t ∈ T.hTarget := List.mem_of_find?_eq_some hfind
  have hzero : held t = 0 := by
    have := h.count t hmem
    omega
  rw [← Option.some.inj hT]
  refine ⟨hzero, h.nodup.erase t, ?_, ?_, ?_⟩
  · exact fun u hu v hv => h.keys u (List.mem_of_mem_erase hu) v (List.mem_of_mem_erase hv)
  · exact fun u hu => h.count u (List.mem_of_mem_erase hu)
  · intro u hu
    by_cases heq : u = t
    · rw [heq]
      exact hzero
    · exact h.absent u (fun hmem' => hu ((List.mem_erase_of_ne heq).mpr hmem'))

/-! ## Dropping a list of references -/

/-- The loop of `clear_config`: the targets are dropped one after the other.  The list holds the
targets whose last reference was dropped; an entry without a target, or an assertion that fails,
ends the process. -/
def destroyTargets : ConnTargets → List (Option ℕ) → Option (List ℕ × ConnTargets)
  | T, [] => some ([], T)
  | _, none :: _ => none
  | T, some t :: rest =>
    match destroyTarget T t with
    | none => none
    | some (last, T') =>
      match destroyTargets T' rest with
      | none => none
      | some (released, T'') => some (if last then (t :: released, T'') else (released, T''))

/-- **Dropping held references.**  No assertion fails, and each target is released once when all
its references are in the list, else never. -/
theorem destroyTargets_refs {L : List ℕ} {T : ConnTargets} {held : ℕ → ℕ} (h : RefsCount T held)
    (hL : ∀ t, L.count t ≤ held t) :
    ∃ released T', destroyTargets T (L.map some) = some (released, T') ∧
      RefsCount T' (fun u => held u - L.count u) ∧
      ∀ t, released.count t = if t ∈ L ∧ held t = L.count t then 1 else 0 := by
  induction L generalizing T held with
  | nil =>
    refine ⟨[], T, rfl, ?_, ?_⟩
    · simpa using h
    · intro t
      simp
  | cons t L ih =>
    have ht : 0 < held t := by
      have := hL t
      rw [List.count_cons_self] at this
      omega
    obtain ⟨T₁, hd, h₁⟩ := destroyTarget_refs h ht
    have hrest : ∀ u, L.count u ≤ held u - if t = u then 1 else 0 := by
      intro u
      have := hL u
      rw [List.count_cons] at this
      by_cases heq : t = u
      · subst heq
        simp only [beq_self_eq_true, if_true] at this ⊢
        omega
      · rw [if_neg heq]
        omega
    obtain ⟨released, T₂, hds, h₂, hcount⟩ := ih h₁ hrest
    have hnow : ∀ u, L.count u + (if t = u then 1 else 0) = (t :: L).count u := by
      intro u
      rw [List.count_cons]
      by_cases heq : t = u
      · simp [heq]
      · simp [heq]
    refine ⟨if held t = 1 then t :: released else released, T₂, ?_, ?_, ?_⟩
    · rw [List.map_cons, destroyTargets, hd]
      simp only [hds]
      by_cases hone : held t = 1
      · simp [hone]
      · simp [hone]
    · convert h₂ using 2 with u
      rw [← hnow u]
      omega
    · intro u
      have hu := hcount u
      have hc := hnow u
      have hle := hL u
      by_cases heq : t = u
      · subst heq
        rw [if_pos rfl] at hc hu
        by_cases hone : held t = 1
        · -- the last reference: no other entry of the list is this target
          have hzero : L.count t = 0 := by omega
          have hnot : t ∉ L := List.count_eq_zero.mp hzero
          rw [if_pos hone, List.count_cons_self, hu, if_neg (fun hb => hnot hb.1),
            if_pos ⟨List.mem_cons_self, by omega⟩]
        · rw [if_neg hone, hu]
          by_cases hall : held t = (t :: L).count t
          · have hpos : 0 < L.count t := by omega
            rw [if_pos ⟨List.count_pos_iff.mp hpos, by omega⟩,
              if_pos ⟨List.mem_cons_self, hall⟩]
          · rw [if_neg (fun hb => hall (by omega)), if_neg (fun hb => hall hb.2)]
      · rw [if_neg heq] at hc hu
        have hskip : (if held t = 1 then t :: released else released).count u
            = released.count u := by
          split_ifs
          · exact List.count_cons_of_ne heq
          · rfl
        have hmem : u ∈ t :: L ↔ u ∈ L := by
          rw [List.mem_cons]
          exact ⟨fun hm => hm.resolve_left (Ne.symm heq), Or.inr⟩
        rw [hskip, hu, ← hc]
        simp only [hmem, Nat.sub_zero, Nat.add_zero]

end MtprotoProxy
