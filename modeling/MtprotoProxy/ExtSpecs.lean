/-
# What the operations on external connections do

One specification lemma for each function of `mtproto/mtproto-proxy.c` that changes the
tables: on a memory that represents a registry the call succeeds, and the memory then
represents the registry with exactly the one change that the call is for.
-/
import MtprotoProxy.ExtRegistry

namespace MtprotoProxy

open Function (update)
open Linked

section

variable {s : ExtTables} {r : Registry}

/-! ## Deleting -/

theorem linkAfter_concat (prev : Link) (ys : List Ptr) (u : Ptr) :
    linkAfter prev (ys ++ [u]) = .next u := by
  induction ys generalizing prev with
  | nil => rfl
  | cons y ys ih => exact ih (.next y)

theorem bound_without (order : List Entry) (a : ℕ) :
    bound (without order a) = without (bound order) a := by
  simp [bound, without, List.filter_filter, Bool.and_comm]

theorem without_reverse (order : List Entry) (a : ℕ) :
    (without order a).reverse = without order.reverse a := by
  simp [without]

variable {e : Entry}

theorem length_without {entries : List Entry} (hnodup : (entries.map Entry.addr).Nodup)
    (he : e ∈ entries) :
    (without entries e.addr).length + 1 = entries.length := by
  obtain ⟨ys, zs, rfl⟩ := List.append_of_mem he
  rw [List.map_append, List.map_cons] at hnodup
  have hnotin := (List.nodup_cons.mp (List.nodup_middle.mp hnodup)).1
  rw [← List.map_append] at hnotin
  have hkeep : ∀ l : List Entry, (∀ x ∈ l, x ∈ ys ++ zs) → l.filter (fun x => x.addr ≠ e.addr) = l := by
    intro l hl
    rw [List.filter_eq_self]
    intro x hx
    have hne : x.addr ≠ e.addr := fun heq => hnotin (heq ▸ List.mem_map_of_mem (hl x hx))
    simpa using hne
  rw [without, List.filter_append, List.filter_cons_of_neg (by simp),
    hkeep ys (fun x hx => List.mem_append_left _ hx),
    hkeep zs (fun x hx => List.mem_append_right _ hx)]
  simp only [List.length_append, List.length_cons]
  omega

/-- The cells that the input lists run through can be accessed. -/
theorem Represents.accessible_inputs (h : Represents s r) :
    Accessible s.valid Entry.inFd r.entries.reverse where
  heads := fun fd hfd => by simp [ExtTables.valid, hfd]
  cells := fun e he => h.valid (List.mem_reverse.mp he)
  keys := fun e he => h.sound.inFd_lt e (List.mem_reverse.mp he)

/-- The descriptor of a middle-end is small enough. -/
theorem Registry.Sound.outFd_lt (h : r.Sound) (he : e ∈ r.entries)
    (hout : e.outFd ≠ 0) : e.outFd < maxConnections := by
  obtain ⟨CO, hready⟩ := Option.ne_none_iff_exists'.mp (h.bound e he hout)
  rw [← h.ready_fd _ _ hready]
  exact CO.fd_lt

/-- The cells that the output lists run through can be accessed. -/
theorem Represents.accessible_outputs (h : Represents s r) :
    Accessible s.valid Entry.outFd (bound r.entries.reverse) where
  heads := fun fd hfd => by simp [ExtTables.valid, hfd]
  cells := fun e he => h.valid (List.mem_reverse.mp (List.mem_of_mem_filter he))
  keys := fun e he => by
    have hmem := List.mem_filter.mp he
    exact h.sound.outFd_lt (List.mem_reverse.mp hmem.1) (by simpa using hmem.2)

theorem Registry.Sound.addrs_reverse (h : r.Sound) :
    (r.entries.reverse.map Entry.addr).Nodup := by
  rw [List.map_reverse]
  exact List.nodup_reverse.mpr h.addrs

theorem Registry.Sound.addrs_bound (h : r.Sound) :
    ((MtprotoProxy.bound r.entries.reverse).map Entry.addr).Nodup :=
  (List.filter_sublist.map Entry.addr).nodup h.addrs_reverse

/-- An entry leaves the list of its middle-end, if it is on one. -/
theorem Represents.unlink_output (h : Represents s r) (he : e ∈ r.entries) :
    ∃ next' prev', unlink s.valid s.oNext s.oPrev e.ptr = .ok (next', prev') ∧
      Lists next' prev' Entry.outFd (bound (without r.entries e.addr).reverse) ∧
      (∀ fd, next' (.head fd) = .null ↔ s.oNext (.head fd) = .null) ∧
      ∀ x ∈ without r.entries e.addr, x.outFd = 0 → next' x.ptr = .null := by
  rw [without_reverse, bound_without]
  by_cases hout : e.outFd = 0
  · refine ⟨s.oNext, s.oPrev, ?_, ?_, fun fd => Iff.rfl, ?_⟩
    · simp [unlink, h.unbound e he hout]
    · have hnotin : without (bound r.entries.reverse) e.addr = bound r.entries.reverse := by
        rw [without, List.filter_eq_self]
        intro x hx
        have hmem := List.mem_filter.mp hx
        have hne : x.addr ≠ e.addr := by
          intro heq
          have hsame := h.sound.addr_inj (List.mem_reverse.mp hmem.1) he heq
          rw [hsame] at hmem
          simp [hout] at hmem
        simpa using hne
      rw [hnotin]
      exact h.outputs
    · intro x hx hx0
      exact h.unbound x (mem_without.mp hx).1 hx0
  · have hmem : e ∈ bound r.entries.reverse :=
      List.mem_filter.mpr ⟨List.mem_reverse.mpr he, by simpa using hout⟩
    obtain ⟨next', prev', hunlink, hlists, hheads, hframe⟩ :=
      h.outputs.unlink h.sound.addrs_bound h.accessible_outputs hmem
    refine ⟨next', prev', hunlink, hlists, hheads, ?_⟩
    intro x hx hx0
    have hx := (mem_without.mp hx).1
    rw [hframe x.ptr]
    · exact h.unbound x hx hx0
    · intro hin
      rcases List.mem_cons.mp hin with heq | hin
      · exact x.ptr_ne_head _ heq
      · obtain ⟨y, hy, -, heq⟩ := mem_members.mp hin
        have hy' := List.mem_filter.mp hy
        have hsame := h.sound.addr_inj (List.mem_reverse.mp hy'.1) hx (Entry.ptr_inj.mp heq)
        rw [hsame] at hy'
        simp [hx0] at hy'

/-- The chains after a cell was cut out of the one it is on. -/
theorem chains_store {entries : List Entry} (hnodup : (entries.map Entry.addr).Nodup)
    (hchains : ∀ b, Chain s.hNext .null (s.inExtConnectionHash b) (members hashOf entries b))
    (he : e ∈ entries) {ys zs : List Ptr}
    (hsplit : members hashOf entries (hashOf e) = ys ++ e.ptr :: zs) (b : ℕ) :
    Chain (update (s.store (linkAfter (.bucket (hashOf e)) ys) (s.hNext e.ptr)).hNext e.ptr .null)
      .null ((s.store (linkAfter (.bucket (hashOf e)) ys) (s.hNext e.ptr)).inExtConnectionHash b)
      (members hashOf (without entries e.addr) b) := by
  have hcells : (members hashOf entries (hashOf e)).Nodup := nodup_members hnodup _
  have hchain := hchains (hashOf e)
  rw [hsplit] at hchain hcells
  have hnotin : e.ptr ∉ ys ++ zs := (List.nodup_cons.mp (List.nodup_middle.mp hcells)).1
  have hys : e.ptr ∉ ys := fun hin => hnotin (List.mem_append_left _ hin)
  by_cases hb : b = hashOf e
  · subst hb
    have herase : members hashOf (without entries e.addr) (hashOf e) = ys ++ zs := by
      rw [members_without hnodup, hsplit, List.erase_append_right _ hys, List.erase_cons_head]
    rw [herase]
    have hclear : ∀ {next : Ptr → Ptr} {p : Ptr}, Chain next .null p (ys ++ zs) →
        Chain (update next e.ptr .null) .null p (ys ++ zs) := fun hc =>
      hc.congr (fun u hu => Function.update_of_ne (ne_of_mem_of_not_mem hu hnotin) _ _)
    apply hclear
    rcases List.eq_nil_or_concat ys with rfl | ⟨ys', u, rfl⟩
    · have hafter := (chain_append hchain).2
      simpa [linkAfter, ExtTables.store] using hafter
    · rw [List.concat_eq_append] at hchain hcells ⊢
      rw [linkAfter_concat]
      rw [List.append_assoc, List.singleton_append] at hchain hcells ⊢
      exact hchain.cut hcells
  · have hsame : members hashOf (without entries e.addr) b = members hashOf entries b :=
      members_without_of_ne hnodup he (Ne.symm hb)
    have hother : ∀ u ∈ members hashOf entries b, u ∉ ys ++ e.ptr :: zs := by
      intro u hu
      rw [← hsplit]
      have hout := notMem_members_of_ne hnodup hb (List.mem_cons_of_mem _ hu)
      exact fun hin => hout (List.mem_cons_of_mem _ hin)
    rw [hsame]
    rcases List.eq_nil_or_concat ys with rfl | ⟨ys', v, rfl⟩
    · have hbucket : (s.store (linkAfter (.bucket (hashOf e)) []) (s.hNext e.ptr)).inExtConnectionHash
          b = s.inExtConnectionHash b := Function.update_of_ne hb _ _
      rw [hbucket]
      refine (hchains b).congr (fun u hu => Function.update_of_ne ?_ _ _)
      exact fun heq => hother u hu (by simp [heq])
    · rw [List.concat_eq_append, linkAfter_concat]
      refine (hchains b).congr (fun u hu => ?_)
      have hue : u ≠ e.ptr := fun heq => hother u hu (by simp [heq])
      have huv : u ≠ v := fun heq => hother u hu (by simp [heq])
      rw [Function.update_of_ne hue]
      exact Function.update_of_ne huv _ _

/-- The registry after an entry was removed is sound. -/
theorem Registry.Sound.remove (h : r.Sound) (a : ℕ) : (r.remove a).Sound := by
  have hsub : (without r.entries a).Sublist r.entries := List.filter_sublist
  constructor
  · exact (hsub.map Entry.addr).nodup h.addrs
  · exact (hsub.map Entry.inFd).nodup h.fds
  · exact fun e he => h.inFd_pos e (hsub.subset he)
  · exact fun e he => h.inFd_lt e (hsub.subset he)
  · exact (hsub.map Registry.slot).nodup h.slots
  · exact fun e he => h.ids e (hsub.subset he)
  · exact fun e he => h.ids_ne_zero e (hsub.subset he)
  · exact fun e he => h.bound e (hsub.subset he)
  · exact h.ready_fd

/-- Entries in one slot are one entry. -/
theorem Registry.Sound.slot_inj (h : r.Sound) {e e' : Entry} (he : e ∈ r.entries)
    (he' : e' ∈ r.entries) (hslot : Registry.slot e = Registry.slot e') : e = e' :=
  List.inj_on_of_nodup_map h.slots he he' hslot

/-- The slot of an entry that is removed becomes free. -/
theorem Represents.slots_without (h : Represents s r) (he : e ∈ r.entries)
    {slots : ℕ → ExtConnectionRef} (hslots : slots = update s.outExtConnections (slotOf e.outConnId)
      { s.outExtConnections (slotOf e.outConnId) with ref := .null }) :
    (∀ x ∈ without r.entries e.addr, (slots (Registry.slot x)).ref = x.ptr) ∧
    (∀ b, (∀ x ∈ without r.entries e.addr, Registry.slot x ≠ b) → (slots b).ref = .null) ∧
    ∀ b < extConnTableSize, (slots b).outConnId = slotId b (r.uses b) := by
  subst hslots
  refine ⟨fun x hx => ?_, fun b hb => ?_, fun b hb => ?_⟩
  · obtain ⟨hx, hxe⟩ := mem_without.mp hx
    have hslot : Registry.slot x ≠ slotOf e.outConnId := fun heq =>
      hxe (congrArg Entry.addr (h.sound.slot_inj hx he heq))
    rw [Function.update_of_ne hslot]
    exact h.slotRefs x hx
  · by_cases heq : b = slotOf e.outConnId
    · rw [heq, Function.update_self]
    · rw [Function.update_of_ne heq]
      refine h.emptySlots b (fun x hx hslot => ?_)
      by_cases hxe : x.addr = e.addr
      · rw [h.sound.addr_inj hx he hxe] at hslot
        exact heq hslot.symm
      · exact hb x (mem_without.mpr ⟨hx, hxe⟩) hslot
  · by_cases heq : b = slotOf e.outConnId
    · subst heq
      rw [Function.update_self]
      exact h.slotIds _ hb
    · rw [Function.update_of_ne heq]
      exact h.slotIds b hb

theorem mem_addrs_without {order : List Entry} {a b : ℕ} :
    b ∈ (without order a).map Entry.addr ↔ b ∈ order.map Entry.addr ∧ b ≠ a := by
  constructor
  · intro hb
    obtain ⟨x, hx, rfl⟩ := List.mem_map.mp hb
    exact ⟨List.mem_map_of_mem (mem_without.mp hx).1, (mem_without.mp hx).2⟩
  · rintro ⟨hb, hba⟩
    obtain ⟨x, hx, rfl⟩ := List.mem_map.mp hb
    exact List.mem_map_of_mem (mem_without.mpr ⟨hx, hba⟩)

/-- **Deleting an entry** takes it out of all five structures and out of nothing else. -/
theorem Represents.delete (h : Represents s r) (he : e ∈ r.entries)
    {ys zs : List Ptr} (hsplit : members hashOf r.entries (hashOf e) = ys ++ e.ptr :: zs)
    (hload : s.load (linkAfter (.bucket (hashOf e)) ys) = e.ptr) :
    ∃ s', deleteExtConnection s (linkAfter (.bucket (hashOf e)) ys) = .ok s' ∧
      Represents s' (r.remove e.addr) := by
  obtain ⟨iNext, iPrev, hinput, hilists, -, -⟩ :=
    h.inputs.unlink h.sound.addrs_reverse h.accessible_inputs (List.mem_reverse.mpr he)
  obtain ⟨oNext, oPrev, houtput, holists, hoheads, hunbound⟩ := h.unlink_output he
  have haddr : e.addr ∈ r.entries.map Entry.addr := List.mem_map_of_mem he
  have hlive : ∀ a ∈ r.entries.map Entry.addr, s.allocated a = true := by
    intro a ha
    obtain ⟨x, hx, rfl⟩ := List.mem_map.mp ha
    exact (h.cells x.addr).mpr ⟨x, hx, rfl⟩
  let s₁ : ExtTables :=
    { s with iNext := iNext, iPrev := iPrev, oNext := oNext, oPrev := oPrev }
  obtain ⟨lruNext, lruPrev, hlru, hlrulist⟩ :=
    LruList.delete (s := s₁) h.lru hlive haddr
  let s₂ : ExtTables := { s₁ with lruNext := lruNext, lruPrev := lruPrev }
  have hvalid : ({ s with iNext := iNext, iPrev := iPrev } : ExtTables).valid = s.valid := rfl
  simp only [deleteExtConnection, hload, hinput, ok_bind, hvalid, houtput]
  rw [show lruDeleteExtConn s₁ e.ptr = .ok s₂ from hlru]
  let s₃ : ExtTables := s₂.store (linkAfter (.bucket (hashOf e)) ys) (s.hNext e.ptr)
  have hid : s₃.outConnId e.ptr = e.outConnId := (h.fields e he).outConnId
  have href : (s₃.outExtConnections (slotOf e.outConnId)).ref = e.ptr := h.slotRefs e he
  have hslotId : (s₃.outExtConnections (slotOf e.outConnId)).outConnId = e.outConnId :=
    (h.slotIds _ (slotOf_lt _)).trans (h.sound.ids e he).1.symm
  have hchains := chains_store (s := s) h.sound.addrs h.chains he hsplit
  obtain ⟨hrefs, hempty, hids⟩ := h.slots_without he rfl
  simp only [ok_bind]
  change ∃ s', (do
    require ((s₃.outExtConnections (slotOf (s₃.outConnId e.ptr))).ref = e.ptr) .assertion
    require ((s₃.outExtConnections (slotOf (s₃.outConnId e.ptr))).outConnId = s₃.outConnId e.ptr)
      .assertion
    _) = Except.ok s' ∧ _
  rw [hid, require_ok href, ok_bind, require_ok hslotId, ok_bind]
  refine ⟨_, rfl, ?_⟩
  have hne : ∀ x ∈ without r.entries e.addr, x.ptr ≠ e.ptr := fun x hx heq =>
    (mem_without.mp hx).2 (Entry.ptr_inj.mp heq)
  have hclear : ∀ {β : Type} {f : Ptr → β} {z : β} {u : Ptr}, u ≠ e.ptr →
      update f e.ptr z u = f u := fun hu => Function.update_of_ne hu _ _
  constructor
  case sound => exact h.sound.remove e.addr
  case cells =>
    intro a
    change update s.allocated e.addr false a = true ↔ ∃ x ∈ without r.entries e.addr, x.addr = a
    by_cases ha : a = e.addr
    · subst ha
      simp [mem_without]
    · rw [Function.update_of_ne ha, h.cells a, ← List.mem_map, ← List.mem_map, mem_addrs_without,
        and_iff_left ha]
  case fields =>
    intro x hx
    have hxe := hne x hx
    have hold := h.fields x (mem_without.mp hx).1
    constructor
    · exact (hclear hxe).trans hold.inFd
    · exact (hclear hxe).trans hold.inGen
    · exact (hclear hxe).trans hold.inConnId
    · exact (hclear hxe).trans hold.outFd
    · exact (hclear hxe).trans hold.outGen
    · exact (hclear hxe).trans ((hclear hxe).trans hold.outConnId)
    · exact (hclear hxe).trans hold.authKeyId
  case count =>
    change s.extConnections - 1 = ((without r.entries e.addr).length : ℤ)
    have hlen := length_without h.sound.addrs he
    rw [h.count]
    omega
  case chains =>
    intro b
    refine (hchains b).congr (fun u hu => hclear ?_)
    obtain ⟨x, hx, -, rfl⟩ := mem_members.mp hu
    exact hne x hx
  case slotRefs => exact hrefs
  case emptySlots => exact hempty
  case slotIds => exact hids
  case inputs =>
    change Lists (update iNext e.ptr .null) (update iPrev e.ptr .null) Entry.inFd
      (without r.entries e.addr).reverse
    rw [without_reverse]
    apply hilists.clear
    rw [← without_reverse]
    exact fun x hx => hne x (List.mem_reverse.mp hx)
  case outputs =>
    apply holists.clear
    exact fun x hx => hne x (List.mem_reverse.mp (List.mem_of_mem_filter hx))
  case unbound =>
    intro x hx hx0
    exact (hclear (hne x hx)).trans (hunbound x hx hx0)
  case ready =>
    intro fd
    change update oNext e.ptr .null (.head fd) ≠ .null ↔ r.ready fd ≠ none
    rw [hclear (e.ptr_ne_head fd).symm, Ne, hoheads fd]
    exact h.ready fd
  case lru => exact hlrulist.forget (h.lru.nodup.not_mem_erase) (fun b => mem_addrs_without)

/-- The lookup that only finds succeeds and changes nothing. -/
theorem Represents.lookup_find (h : Represents s r) (fd : ℕ) (inGen : ℤ) (inConnId : Int64) :
    ∃ res, getExtConnectionByInConnId s fd inGen inConnId 0 0 [] = .ok (res, s) := by
  simp only [getExtConnectionByInConnId]
  by_cases hfound : ∃ x ∈ r.entries, x.inFd = fd ∧ x.inConnId = inConnId
  · obtain ⟨x, hx, rfl, rfl⟩ := hfound
    obtain ⟨ys, zs, -, hwalk, hload⟩ := h.walk_found hx
    have hid : s.outConnId x.ptr ≠ 0 := by
      rw [(h.fields x hx).outConnId]
      exact h.sound.ids_ne_zero x hx
    rw [show extConnHash x.inFd x.inConnId = hashOf x from rfl, hwalk, ok_bind, hload,
      if_pos x.ptr_ne_null, require_ok hid, ok_bind, if_pos (by decide)]
    exact ⟨_, rfl⟩
  · push Not at hfound
    obtain ⟨prev, hwalk, hload⟩ := h.walk_absent (fun x hx hmatch => hfound x hx hmatch.1 hmatch.2)
    rw [hwalk, ok_bind, hload, if_neg (by simp), if_pos (by decide)]
    exact ⟨_, rfl⟩

/-- **Removing by descriptor and id** deletes the entry. -/
theorem Represents.removeByInConnId (h : Represents s r) (he : e ∈ r.entries)
    (inGen : ℤ) (a : ℕ) (rands : List ℕ) :
    ∃ s', getExtConnectionByInConnId s e.inFd inGen e.inConnId 1 a rands = .ok (.deleted, s') ∧
      Represents s' (r.remove e.addr) := by
  obtain ⟨ys, zs, hsplit, hwalk, hload⟩ := h.walk_found he
  obtain ⟨s', hdelete, hrep⟩ := h.delete he hsplit hload
  have hid : s.outConnId e.ptr ≠ 0 := by
    rw [(h.fields e he).outConnId]
    exact h.sound.ids_ne_zero e he
  refine ⟨s', ?_, hrep⟩
  simp only [getExtConnectionByInConnId]
  rw [show extConnHash e.inFd e.inConnId = hashOf e from rfl, hwalk, ok_bind, hload,
    if_pos e.ptr_ne_null, require_ok hid, ok_bind, if_neg (by decide), if_neg (by decide), hdelete]
  rfl

/-! ## Creating -/

/-- The search for a slot only looks at the slots. -/
theorem findSlot_congr {s' : ExtTables} (heq : s'.outExtConnections = s.outExtConnections) :
    ∀ {rands : List ℕ} {b : ℕ}, findSlot s' b rands = findSlot s b rands := by
  intro rands
  induction rands with
  | nil => intro b; rw [findSlot, findSlot, heq]
  | cons d rands ih => intro b; rw [findSlot, findSlot, heq, ih]

/-- The choice of a slot only looks at the slots. -/
theorem chooseSlot_congr {s' : ExtTables} (heq : s'.outExtConnections = s.outExtConnections)
    {inFd : ℕ} {inConnId : Int64} {rands : List ℕ} :
    chooseSlot s' inFd inConnId rands = chooseSlot s inFd inConnId rands := by
  unfold chooseSlot
  cases rands with
  | nil => simp only [findSlot_congr heq]
  | cons d rands => simp only [findSlot_congr heq]

/-- A slot that was found is free. -/
theorem findSlot_ok : ∀ {rands : List ℕ} {b c : ℕ}, findSlot s b rands = .ok c →
    c < extConnTableSize ∧ (s.outExtConnections c).ref = .null := by
  intro rands
  induction rands with
  | nil =>
    intro b c hc
    rw [findSlot] at hc
    by_cases hfree : (s.outExtConnections (b % extConnTableSize)).ref = .null
    · rw [if_pos hfree] at hc
      obtain rfl := Except.ok.inj hc
      exact ⟨Nat.mod_lt _ (by decide), hfree⟩
    · rw [if_neg hfree] at hc
      exact absurd hc nofun
  | cons d rands ih =>
    intro b c hc
    rw [findSlot] at hc
    by_cases hfree : (s.outExtConnections (b % extConnTableSize)).ref = .null
    · rw [if_pos hfree] at hc
      obtain rfl := Except.ok.inj hc
      exact ⟨Nat.mod_lt _ (by decide), hfree⟩
    · rw [if_neg hfree] at hc
      exact ih hc

/-- A slot that was chosen is free. -/
theorem chooseSlot_ok {inFd b : ℕ} {inConnId : Int64} {rands : List ℕ}
    (h : chooseSlot s inFd inConnId rands = .ok b) :
    b < extConnTableSize ∧ (s.outExtConnections b).ref = .null := by
  unfold chooseSlot at h
  split at h
  · cases rands with
    | nil => exact absurd h nofun
    | cons d rands => exact findSlot_ok h
  · exact findSlot_ok h

/-- There are at most as many entries as descriptors. -/
theorem Registry.Sound.length_le (h : r.Sound) : r.entries.length ≤ maxConnections := by
  have hcard := Finset.card_le_card (s := (r.entries.map Entry.inFd).toFinset)
    (t := Finset.range maxConnections) ?_
  · rw [List.toFinset_card_of_nodup h.fds, List.length_map, Finset.card_range] at hcard
    exact hcard
  · intro fd hfd
    obtain ⟨e, he, rfl⟩ := List.mem_map.mp (List.mem_toFinset.mp hfd)
    exact Finset.mem_range.mpr (h.inFd_lt e he)

/-- A fresh cell joins the list of its client descriptor. -/
theorem linkInput_spec {entries : List Entry}
    (hlists : Lists s.iNext s.iPrev Entry.inFd entries.reverse)
    (hv : Accessible s.valid Entry.inFd entries.reverse)
    (hnodup : (entries.reverse.map Entry.addr).Nodup)
    (hfresh : ∀ x ∈ entries, x.addr ≠ e.addr) (hnone : ∀ x ∈ entries, x.inFd ≠ e.inFd)
    (hpos : 0 < e.inFd) (hlt : e.inFd < maxConnections) :
    ∃ iNext iPrev, linkInput s e.inFd e.ptr = .ok { s with iNext := iNext, iPrev := iPrev } ∧
      Lists iNext iPrev Entry.inFd (e :: entries).reverse := by
  have hempty : members Entry.inFd entries.reverse e.inFd = [] := by
    rw [List.eq_nil_iff_forall_not_mem]
    intro p hp
    obtain ⟨x, hx, hfd, -⟩ := mem_members.mp hp
    exact hnone x (List.mem_reverse.mp hx) hfd
  have hfresh' : ∀ x ∈ entries.reverse, x.addr ≠ e.addr := fun x hx =>
    hfresh x (List.mem_reverse.mp hx)
  rw [List.reverse_cons]
  by_cases hnull : s.iNext (.head e.inFd) = .null
  · have hopened := hlists.setHead (.head e.inFd) hempty (Or.inr rfl)
    obtain ⟨iNext, iPrev, hlink, hafter, -⟩ := hopened.linkLast hv hfresh' hlt
      (by rw [Function.update_self]; exact nofun) hnodup
    refine ⟨iNext, iPrev, ?_, hafter⟩
    simp only [linkInput, if_pos (Nat.pos_iff_ne_zero.mp hpos), if_pos hnull]
    rw [require_ok (Function.update_self _ _ _), ok_bind]
    rw [show linkLast ({ s with
      iNext := update s.iNext (.head e.inFd) (.head e.inFd)
      iPrev := update s.iPrev (.head e.inFd) (.head e.inFd) } : ExtTables).valid _ _ _ _ = _
      from hlink]
    rfl
  · obtain ⟨iNext, iPrev, hlink, hafter, -⟩ := hlists.linkLast hv hfresh' hlt hnull hnodup
    have hself : s.iNext (.head e.inFd) = .head e.inFd :=
      (hlists.ring _ hnull).next_head_eq_self.mpr hempty
    refine ⟨iNext, iPrev, ?_, hafter⟩
    simp only [linkInput, if_pos (Nat.pos_iff_ne_zero.mp hpos), if_neg hnull]
    rw [require_ok hself, ok_bind, hlink]
    rfl

/-- What a new entry must be. -/
structure Fresh (r : Registry) (e : Entry) (b : ℕ) : Prop where
  addr : ∀ x ∈ r.entries, x.addr ≠ e.addr
  inFd : ∀ x ∈ r.entries, x.inFd ≠ e.inFd
  inFd_pos : 0 < e.inFd
  inFd_lt : e.inFd < maxConnections
  slot_lt : b < extConnTableSize
  slot : ∀ x ∈ r.entries, Registry.slot x ≠ b
  id : e.outConnId = slotId b (r.uses b + 1)
  id_ne_zero : e.outConnId ≠ 0

/-- The slot of a new entry. -/
theorem Fresh.slot_eq {b : ℕ} (h : Fresh r e b) : Registry.slot e = b := by
  rw [Registry.slot, h.id, slotOf_slotId h.slot_lt (Nat.succ_pos _)]

/-- The registry with a new entry is sound. -/
theorem Registry.Sound.add (h : r.Sound) {b : ℕ} (hfresh : Fresh r e b)
    (hbound : e.outFd ≠ 0 → r.ready e.outFd ≠ none) :
    (r.add e).Sound := by
  have hslot := hfresh.slot_eq
  constructor
  · refine List.nodup_cons.mpr ⟨fun hin => ?_, h.addrs⟩
    obtain ⟨x, hx, heq⟩ := List.mem_map.mp hin
    exact hfresh.addr x hx heq
  · refine List.nodup_cons.mpr ⟨fun hin => ?_, h.fds⟩
    obtain ⟨x, hx, heq⟩ := List.mem_map.mp hin
    exact hfresh.inFd x hx heq
  · exact List.forall_mem_cons.mpr ⟨hfresh.inFd_pos, h.inFd_pos⟩
  · exact List.forall_mem_cons.mpr ⟨hfresh.inFd_lt, h.inFd_lt⟩
  · refine List.nodup_cons.mpr ⟨fun hin => ?_, h.slots⟩
    obtain ⟨x, hx, heq⟩ := List.mem_map.mp hin
    exact hfresh.slot x hx (heq.trans hslot)
  · refine List.forall_mem_cons.mpr ⟨?_, fun x hx => ?_⟩
    · simp only [Registry.add, Function.update_self, hslot]
      exact ⟨hfresh.id, Nat.succ_pos _⟩
    · simp only [Registry.add, hslot, Function.update_of_ne (hfresh.slot x hx)]
      exact h.ids x hx
  · exact List.forall_mem_cons.mpr ⟨hfresh.id_ne_zero, h.ids_ne_zero⟩
  · exact List.forall_mem_cons.mpr ⟨hbound, h.bound⟩
  · exact h.ready_fd

/-- A free slot belongs to no entry. -/
theorem Represents.slot_ne (h : Represents s r) {b : ℕ}
    (hfree : (s.outExtConnections b).ref = .null) : ∀ x ∈ r.entries, Registry.slot x ≠ b := by
  intro x hx heq
  have href := h.slotRefs x hx
  rw [heq, hfree] at href
  exact x.ptr_ne_null href.symm

/-- A new entry becomes the first of its chain. -/
theorem chains_add {hNext : Ptr → Ptr} {buckets : ℕ → Ptr} {entries : List Entry}
    (hne : ∀ x ∈ entries, x.ptr ≠ e.ptr)
    (hchains : ∀ c, Chain hNext .null (buckets c) (members hashOf entries c)) (c : ℕ) :
    Chain (update hNext e.ptr (buckets (hashOf e))) .null (update buckets (hashOf e) e.ptr c)
      (members hashOf (e :: entries) c) := by
  have hnotin : ∀ d, e.ptr ∉ members hashOf entries d := by
    intro d hin
    obtain ⟨x, hx, -, heq⟩ := mem_members.mp hin
    exact hne x hx heq
  by_cases hc : c = hashOf e
  · subst hc
    have hcons : members hashOf (e :: entries) (hashOf e) =
        e.ptr :: members hashOf entries (hashOf e) := by simp [members]
    rw [Function.update_self, hcons]
    exact (hchains (hashOf e)).cons e.ptr_ne_null (hnotin _)
  · have hskip : members hashOf (e :: entries) c = members hashOf entries c := by
      simp [members, Ne.symm hc]
    rw [Function.update_of_ne hc, hskip]
    exact (hchains c).congr (fun u hu =>
      Function.update_of_ne (ne_of_mem_of_not_mem hu (hnotin c)) _ _)

/-- A new entry takes its slot. -/
theorem Represents.slots_add (h : Represents s r) {b : ℕ} (hfresh : Fresh r e b)
    {slots : ℕ → ExtConnectionRef}
    (hslots : slots = update s.outExtConnections b ⟨e.ptr, e.outConnId⟩) :
    (∀ x ∈ e :: r.entries, (slots (Registry.slot x)).ref = x.ptr) ∧
    (∀ c, (∀ x ∈ e :: r.entries, Registry.slot x ≠ c) → (slots c).ref = .null) ∧
    ∀ c < extConnTableSize, (slots c).outConnId = slotId c ((r.add e).uses c) := by
  subst hslots
  refine ⟨List.forall_mem_cons.mpr ⟨?_, fun x hx => ?_⟩, fun c hc => ?_, fun c hc => ?_⟩
  · rw [hfresh.slot_eq, Function.update_self]
  · rw [Function.update_of_ne (hfresh.slot x hx)]
    exact h.slotRefs x hx
  · have hcb : c ≠ b := fun heq => hc e List.mem_cons_self (hfresh.slot_eq.trans heq.symm)
    rw [Function.update_of_ne hcb]
    exact h.emptySlots c (fun x hx => hc x (List.mem_cons_of_mem _ hx))
  · change _ = slotId c (update r.uses _ _ c)
    rw [hfresh.slot_eq]
    by_cases hcb : c = b
    · subst hcb
      rw [Function.update_self, Function.update_self]
      exact hfresh.id
    · rw [Function.update_of_ne hcb, Function.update_of_ne hcb]
      exact h.slotIds c hc

/-- **A new entry** joins the hash table, the list of its client and a free slot. -/
theorem Represents.alloc (h : Represents s r) {b : ℕ} (hfresh : Fresh r e b)
    (hout : e.outFd = 0 ∧ e.outGen = 0 ∧ e.authKeyId = 0) {rands : List ℕ}
    (hslot : chooseSlot s e.inFd e.inConnId rands = .ok b) :
    ∃ s', allocExtConnection s e.inFd e.inGen e.inConnId e.addr rands = .ok (e.ptr, s') ∧
      Represents s' (r.add e) ∧ s'.oNext e.ptr = .null := by
  have hcount : s.extConnections < (extConnTableSize / 2 : ℕ) := by
    have hle := h.sound.length_le
    rw [h.count]
    simp only [extConnTableSize, maxConnections] at hle ⊢
    omega
  let s₁ : ExtTables := { s.clear e.ptr with
    allocated := update s.allocated e.addr true
    hNext := update (s.clear e.ptr).hNext e.ptr (s.inExtConnectionHash (hashOf e))
    inExtConnectionHash := update s.inExtConnectionHash (hashOf e) e.ptr
    inFd := update (s.clear e.ptr).inFd e.ptr e.inFd
    inGen := update (s.clear e.ptr).inGen e.ptr e.inGen
    inConnId := update (s.clear e.ptr).inConnId e.ptr e.inConnId }
  have hne : ∀ x ∈ r.entries, x.ptr ≠ e.ptr := fun x hx heq =>
    hfresh.addr x hx (Entry.ptr_inj.mp heq)
  have hclear : ∀ {β : Type} {f : Ptr → β} {z : β} {u : Ptr}, u ≠ e.ptr →
      update f e.ptr z u = f u := fun hu => Function.update_of_ne hu _ _
  have hinputs : Lists (update s.iNext e.ptr .null) (update s.iPrev e.ptr .null) Entry.inFd
      r.entries.reverse :=
    h.inputs.clear (fun x hx => hne x (List.mem_reverse.mp hx))
  have hallocated : ∀ x ∈ r.entries, s₁.valid x.ptr = true := by
    intro x hx
    change update s.allocated e.addr true x.addr = true
    rw [Function.update_of_ne (hfresh.addr x hx)]
    exact h.valid hx
  have hv : Accessible s₁.valid Entry.inFd r.entries.reverse :=
    ⟨fun fd hfd => by simp [ExtTables.valid, hfd],
      fun x hx => hallocated x (List.mem_reverse.mp hx),
      fun x hx => h.sound.inFd_lt x (List.mem_reverse.mp hx)⟩
  obtain ⟨iNext, iPrev, hlink, hilists⟩ := linkInput_spec (s := s₁) hinputs hv h.sound.addrs_reverse
    hfresh.addr hfresh.inFd hfresh.inFd_pos hfresh.inFd_lt
  obtain ⟨hrefs, hempty, hids⟩ := h.slots_add hfresh rfl
  have hid : nextOutConnId (s₁.outExtConnections b).outConnId b = e.outConnId := by
    have hold : (s₁.outExtConnections b).outConnId = slotId b (r.uses b) :=
      h.slotIds b hfresh.slot_lt
    rw [hold, nextOutConnId_slotId hfresh.slot_lt, hfresh.id]
  have hslot' : chooseSlot { s₁ with iNext := iNext, iPrev := iPrev } e.inFd e.inConnId rands =
      .ok b := by
    rw [← hslot]
    apply chooseSlot_congr
    rfl
  have hzero : update s₁.outConnId e.ptr e.outConnId e.ptr ≠ 0 := by
    rw [Function.update_self]
    exact hfresh.id_ne_zero
  refine ⟨{ s₁ with
    iNext := iNext
    iPrev := iPrev
    outExtConnections := update s.outExtConnections b ⟨e.ptr, e.outConnId⟩
    outConnId := update s₁.outConnId e.ptr e.outConnId
    extConnections := s.extConnections + 1
    extConnectionsCreated := s.extConnectionsCreated + 1 }, ?_, ?_, ?_⟩
  · simp only [allocExtConnection, require_ok hcount, ok_bind, require_ok hfresh.inFd_lt]
    change (linkInput s₁ e.inFd e.ptr >>= _) = _
    rw [hlink, ok_bind]
    rw [hslot', ok_bind]
    change (require (update s₁.outConnId e.ptr
      (nextOutConnId (s₁.outExtConnections b).outConnId b) e.ptr ≠ 0) .assertion >>= _) = _
    simp only [hid, require_ok hzero, ok_bind]
    rfl
  · constructor
    case sound => exact h.sound.add hfresh (fun hne => absurd hout.1 hne)
    case cells =>
      intro a
      change update s.allocated e.addr true a = true ↔ ∃ x ∈ e :: r.entries, x.addr = a
      by_cases ha : a = e.addr
      · subst ha
        simp
      · rw [Function.update_of_ne ha, h.cells a]
        simp [Ne.symm ha]
    case fields =>
      refine List.forall_mem_cons.mpr ⟨?_, fun x hx => ?_⟩
      · constructor <;> simp [s₁, ExtTables.clear, hout]
      · have hxe := hne x hx
        have hold := h.fields x hx
        constructor
        · exact (hclear hxe).trans ((hclear hxe).trans hold.inFd)
        · exact (hclear hxe).trans ((hclear hxe).trans hold.inGen)
        · exact (hclear hxe).trans ((hclear hxe).trans hold.inConnId)
        · exact (hclear hxe).trans hold.outFd
        · exact (hclear hxe).trans hold.outGen
        · exact (hclear hxe).trans ((hclear hxe).trans hold.outConnId)
        · exact (hclear hxe).trans hold.authKeyId
    case count =>
      change s.extConnections + 1 = ((e :: r.entries).length : ℤ)
      rw [h.count, List.length_cons, Nat.cast_succ]
    case chains =>
      intro c
      change Chain (update (update s.hNext e.ptr .null) e.ptr _) .null _ _
      rw [Function.update_idem]
      exact chains_add hne h.chains c
    case slotRefs => exact hrefs
    case emptySlots => exact hempty
    case slotIds => exact hids
    case inputs => exact hilists
    case outputs =>
      have hskip : bound (r.add e).entries.reverse = bound r.entries.reverse := by
        simp [Registry.add, bound, hout.1]
      rw [hskip]
      apply h.outputs.clear
      exact fun x hx => hne x (List.mem_reverse.mp (List.mem_of_mem_filter hx))
    case unbound =>
      refine List.forall_mem_cons.mpr ⟨fun _ => ?_, fun x hx hx0 => ?_⟩
      · exact Function.update_self _ _ _
      · exact (hclear (hne x hx)).trans (h.unbound x hx hx0)
    case ready =>
      intro fd
      change update s.oNext e.ptr .null (.head fd) ≠ .null ↔ r.ready fd ≠ none
      rw [hclear (e.ptr_ne_head fd).symm]
      exact h.ready fd
    case lru =>
      have hnotin : e.addr ∉ r.entries.map Entry.addr := by
        intro hin
        obtain ⟨x, hx, heq⟩ := List.mem_map.mp hin
        exact hfresh.addr x hx heq
      exact h.lru.join hnotin
  · exact Function.update_self _ _ _

/-- An entry that gets a middle-end and a key. -/
def Entry.bind (e : Entry) (outFd : ℕ) (outGen : ℤ) (authKeyId : Int64) : Entry :=
  { e with outFd := outFd, outGen := outGen, authKeyId := authKeyId }

/-- **The newest entry is bound** to a middle-end and gets its key. -/
theorem Represents.rebind {oNext oPrev : Ptr → Ptr} {outFd : ℕ} {outGen : ℤ}
    {authKeyId : Int64} (h : Represents s (r.add e))
    (houtputs : Lists oNext oPrev Entry.outFd
      (bound (e.bind outFd outGen authKeyId :: r.entries).reverse))
    (hunbound : ∀ x ∈ e.bind outFd outGen authKeyId :: r.entries, x.outFd = 0 →
      oNext x.ptr = .null)
    (hready : ∀ fd, oNext (.head fd) ≠ .null ↔ r.ready fd ≠ none)
    (hbound : outFd ≠ 0 → r.ready outFd ≠ none) :
    Represents { s with
      oNext := oNext
      oPrev := oPrev
      outFd := update s.outFd e.ptr outFd
      outGen := update s.outGen e.ptr outGen
      authKeyId := update s.authKeyId e.ptr authKeyId }
      (r.add (e.bind outFd outGen authKeyId)) := by
  have hsound := h.sound
  have hne : ∀ x ∈ r.entries, x.ptr ≠ e.ptr := by
    intro x hx heq
    apply (List.nodup_cons.mp hsound.addrs).1
    rw [← Entry.ptr_inj.mp heq]
    exact List.mem_map_of_mem hx
  have hmembers : ∀ (key : Entry → ℕ) (c : ℕ), key (e.bind outFd outGen authKeyId) = key e →
      members key (e.bind outFd outGen authKeyId :: r.entries) c = members key (e :: r.entries) c := by
    intro key c hkey
    have hptr : (e.bind outFd outGen authKeyId).ptr = e.ptr := rfl
    by_cases hc : key e = c <;> simp [members, hkey, hc, hptr]
  constructor
  case sound =>
    refine ⟨hsound.addrs, hsound.fds, ?_, ?_, hsound.slots, ?_, ?_, ?_, hsound.ready_fd⟩
    · exact List.forall_mem_cons.mpr (List.forall_mem_cons.mp hsound.inFd_pos)
    · exact List.forall_mem_cons.mpr (List.forall_mem_cons.mp hsound.inFd_lt)
    · exact List.forall_mem_cons.mpr (List.forall_mem_cons.mp hsound.ids)
    · exact List.forall_mem_cons.mpr (List.forall_mem_cons.mp hsound.ids_ne_zero)
    · exact List.forall_mem_cons.mpr ⟨hbound, (List.forall_mem_cons.mp hsound.bound).2⟩
  case cells =>
    intro a
    have hold := h.cells a
    simpa [Registry.add, Entry.bind] using hold
  case fields =>
    obtain ⟨hnew, hrest⟩ := List.forall_mem_cons.mp h.fields
    refine List.forall_mem_cons.mpr ⟨?_, fun x hx => ?_⟩
    · exact ⟨hnew.inFd, hnew.inGen, hnew.inConnId, Function.update_self _ _ _,
        Function.update_self _ _ _, hnew.outConnId, Function.update_self _ _ _⟩
    · have hold := hrest x hx
      have hxe := hne x hx
      exact ⟨hold.inFd, hold.inGen, hold.inConnId,
        (Function.update_of_ne hxe _ _).trans hold.outFd,
        (Function.update_of_ne hxe _ _).trans hold.outGen, hold.outConnId,
        (Function.update_of_ne hxe _ _).trans hold.authKeyId⟩
  case count => exact h.count
  case chains =>
    intro c
    rw [show (r.add (e.bind outFd outGen authKeyId)).entries =
      e.bind outFd outGen authKeyId :: r.entries from rfl, hmembers hashOf c rfl]
    exact h.chains c
  case slotRefs => exact List.forall_mem_cons.mpr (List.forall_mem_cons.mp h.slotRefs)
  case emptySlots =>
    intro c hc
    exact h.emptySlots c (List.forall_mem_cons.mpr (List.forall_mem_cons.mp hc))
  case slotIds => exact h.slotIds
  case inputs =>
    have hsame : ∀ fd, members Entry.inFd (e.bind outFd outGen authKeyId :: r.entries).reverse fd =
        members Entry.inFd (e :: r.entries).reverse fd := by
      intro fd
      have hfd := hmembers Entry.inFd fd rfl
      simp only [members, List.filter_reverse, List.map_reverse] at hfd ⊢
      exact congrArg List.reverse hfd
    constructor
    · intro fd hfd
      have hring := h.inputs.ring fd hfd
      rwa [show (r.add e).entries = e :: r.entries from rfl, ← hsame] at hring
    · intro fd hfd
      have hclosed := h.inputs.closed fd hfd
      rwa [show (r.add e).entries = e :: r.entries from rfl, ← hsame] at hclosed
  case outputs => exact houtputs
  case unbound => exact hunbound
  case ready => exact hready
  case lru => exact h.lru

/-- The entry that `create_ext_connection` makes in the slot `b`. -/
def createdEntry (r : Registry) (CI : ConnRef) (inConnId : Int64) (CO : Option ConnRef)
    (authKeyId : Int64) (a b : ℕ) : Entry where
  addr := a
  inFd := CI.fd
  inGen := CI.generation
  inConnId := inConnId
  outFd := (CO.map ConnRef.fd).getD 0
  outGen := (CO.map ConnRef.generation).getD 0
  outConnId := slotId b (r.uses b + 1)
  authKeyId := authKeyId

/-- A new entry of a registry that has no entry for the client. -/
theorem Represents.fresh (h : Represents s r) {CI : ConnRef} {inConnId : Int64}
    (hnone : r.byInFd CI.fd = none) {a b : ℕ} (ha : ∀ x ∈ r.entries, x.addr ≠ a)
    {rands : List ℕ} (hslot : chooseSlot s CI.fd inConnId rands = .ok b)
    (hid : slotId b (r.uses b + 1) ≠ 0) (CO : Option ConnRef) (authKeyId : Int64) :
    Fresh r (createdEntry r CI inConnId CO authKeyId a b) b where
  addr := ha
  inFd := Registry.byInFd_eq_none.mp hnone
  inFd_pos := CI.fd_pos
  inFd_lt := CI.fd_lt
  slot_lt := (chooseSlot_ok hslot).1
  slot := h.slot_ne (chooseSlot_ok hslot).2
  id := rfl
  id_ne_zero := hid

/-- With no entry for the client, the lookup that creates makes a new one. -/
theorem Represents.lookup_create (h : Represents s r) {fd : ℕ} (hnone : r.byInFd fd = none)
    (inGen : ℤ) (inConnId : Int64) (a : ℕ) (rands : List ℕ) :
    getExtConnectionByInConnId s fd inGen inConnId 2 a rands =
      (allocExtConnection s fd inGen inConnId a rands >>= fun (cur, s') =>
        .ok (.entry cur, s')) := by
  obtain ⟨prev, hwalk, hload⟩ := @Represents.walk_absent s r h fd inConnId
    (fun x hx hmatch => Registry.byInFd_eq_none.mp hnone x hx hmatch.1)
  simp only [getExtConnectionByInConnId]
  rw [hwalk, ok_bind, hload, if_neg (by simp), if_neg (by simp)]
  rfl

/-- **`create_ext_connection` adds exactly one entry.** -/
theorem Represents.create (h : Represents s r) {CI : ConnRef} {CO : Option ConnRef}
    {inConnId authKeyId : Int64} (hnone : r.byInFd CI.fd = none)
    (hready : ∀ C, CO = some C → r.ready C.fd ≠ none ∧ C ≠ CI) {a b : ℕ}
    (ha : ∀ x ∈ r.entries, x.addr ≠ a) {rands : List ℕ}
    (hslot : chooseSlot s CI.fd inConnId rands = .ok b) (hid : slotId b (r.uses b + 1) ≠ 0) :
    ∃ s', createExtConnection s CI inConnId CO authKeyId a rands = .ok (.node a, s') ∧
      Represents s' (r.add (createdEntry r CI inConnId CO authKeyId a b)) := by
  have hfresh := h.fresh hnone ha hslot hid none 0
  obtain ⟨s₁, halloc, h₁, hnull⟩ := h.alloc hfresh ⟨rfl, rfl, rfl⟩ hslot
  have hcell := h₁.fields _ List.mem_cons_self
  have hlookup : getExtConnectionByInConnId s CI.fd CI.generation inConnId 2 a rands =
      .ok (.entry (.node a), s₁) := by
    rw [h.lookup_create hnone, show allocExtConnection s CI.fd CI.generation inConnId a rands = _
      from halloc]
    rfl
  have hzero : s₁.outFd (.node a) = 0 ∧ s₁.oNext (.node a) = .null ∧ s₁.authKeyId (.node a) = 0 :=
    ⟨hcell.outFd, hnull, hcell.authKeyId⟩
  have hold : bound (r.add (createdEntry r CI inConnId none 0 a b)).entries.reverse =
      bound r.entries.reverse := by simp [bound, Registry.add, createdEntry]
  have hlists := h₁.outputs
  have hv := h₁.accessible_outputs
  rw [hold] at hlists hv
  cases CO with
  | none =>
    have hself : update s₁.outFd (.node a) 0 = s₁.outFd := by
      rw [← hzero.1, Function.update_eq_self]
    have hgen : update s₁.outGen (.node a) 0 = s₁.outGen := by
      rw [← show s₁.outGen (.node a) = 0 from hcell.outGen, Function.update_eq_self]
    have hnew : bound (((createdEntry r CI inConnId none 0 a b).bind 0 0 authKeyId) ::
        r.entries).reverse = bound r.entries.reverse := by simp [bound, Entry.bind]
    have houtputs : Lists s₁.oNext s₁.oPrev Entry.outFd
        (bound ((createdEntry r CI inConnId none 0 a b).bind 0 0 authKeyId :: r.entries).reverse) := by
      rw [hnew]
      exact hlists
    have hrebind := h₁.rebind houtputs
      (List.forall_mem_cons.mpr (List.forall_mem_cons.mp h₁.unbound)) h₁.ready
      (fun hne => absurd rfl hne)
    rw [show (createdEntry r CI inConnId none 0 a b).ptr = Ptr.node a from rfl, hself, hgen] at hrebind
    refine ⟨_, ?_, hrebind⟩
    simp only [createExtConnection]
    rw [hlookup, ok_bind]
    simp only [require_ok hzero, ok_bind]
    rw [require_ok (by simp), ok_bind]
    rfl
  | some CO =>
    obtain ⟨hCO, hne⟩ := hready CO rfl
    have hopen : s₁.oNext (.head CO.fd) ≠ .null :=
      (h₁.ready CO.fd).mpr hCO
    have hfreshOut : ∀ x ∈ bound r.entries.reverse, x.addr ≠ a := fun x hx =>
      ha x (List.mem_reverse.mp (List.mem_of_mem_filter hx))
    obtain ⟨oNext, oPrev, hlink, hafter, hheads, hframe⟩ :=
      hlists.linkLast (e := createdEntry r CI inConnId (some CO) authKeyId a b) hv hfreshOut CO.fd_lt
        hopen h.sound.addrs_bound
    have hnew : bound (createdEntry r CI inConnId (some CO) authKeyId a b :: r.entries).reverse =
        bound r.entries.reverse ++ [createdEntry r CI inConnId (some CO) authKeyId a b] := by
      simp [bound, createdEntry, CO.fd_pos.ne']
    have hrebind := h₁.rebind (e := createdEntry r CI inConnId none 0 a b) (hnew ▸ hafter) ?_ ?_
      (fun _ => hCO)
    · refine ⟨_, ?_, hrebind⟩
      simp only [createExtConnection]
      rw [hlookup, ok_bind]
      simp only [require_ok hzero, ok_bind]
      rw [require_ok (by simpa using hne), ok_bind]
      simp only [require_ok hopen, ok_bind]
      rw [show linkLast s₁.valid s₁.oNext s₁.oPrev (.head CO.fd) (.node a) = _ from hlink, ok_bind]
      rfl
    · refine List.forall_mem_cons.mpr ⟨fun h0 => absurd h0 CO.fd_pos.ne', fun x hx hx0 => ?_⟩
      rw [hframe x.ptr]
      · exact h₁.unbound x (List.mem_cons_of_mem _ hx) hx0
      · intro hin
        rcases List.mem_cons.mp hin with heq | hin
        · exact x.ptr_ne_head _ heq
        · obtain ⟨y, hy, -, heq⟩ := mem_members.mp hin
          have hy' := List.mem_filter.mp hy
          rw [h.sound.addr_inj (List.mem_reverse.mp hy'.1) hx (Entry.ptr_inj.mp heq)] at hy'
          simp [hx0] at hy'
      · exact fun heq => ha x hx (Entry.ptr_inj.mp heq)
    · intro fd
      rw [Ne, hheads fd]
      exact h₁.ready fd

/-! ## What a creation that succeeds says -/

/-- A list that was joined was empty, and the slots are as before. -/
theorem linkInput_ok {s' : ExtTables} {fd : ℕ} {p : Ptr} (hfd : fd ≠ 0)
    (h : linkInput s fd p = .ok s') :
    s'.outExtConnections = s.outExtConnections ∧
      (s.iNext (.head fd) = .null ∨ s.iNext (.head fd) = .head fd) := by
  simp only [linkInput, if_pos hfd] at h
  obtain ⟨_, hself, h⟩ := bind_eq_ok.mp h
  obtain ⟨⟨iNext, iPrev⟩, -, h⟩ := bind_eq_ok.mp h
  obtain rfl := Except.ok.inj h
  rw [require_eq_ok] at hself
  by_cases hnull : s.iNext (.head fd) = .null
  · simp [hnull]
  · rw [if_neg hnull] at hself ⊢
    exact ⟨rfl, Or.inr hself⟩

/-- An allocation that succeeds found a slot and an id that is not zero. -/
theorem allocExtConnection_ok {s' : ExtTables} {fd a : ℕ} {inGen : ℤ} {inConnId : Int64} {p : Ptr}
    {rands : List ℕ} (hfd : fd ≠ 0)
    (h : allocExtConnection s fd inGen inConnId a rands = .ok (p, s')) :
    (∃ b, chooseSlot s fd inConnId rands = .ok b ∧
        nextOutConnId (s.outExtConnections b).outConnId b ≠ 0) ∧
      (s.iNext (.head fd) = .null ∨ s.iNext (.head fd) = .head fd) := by
  simp only [allocExtConnection] at h
  obtain ⟨_, -, h⟩ := bind_eq_ok.mp h
  obtain ⟨_, -, h⟩ := bind_eq_ok.mp h
  obtain ⟨s₂, hlink, h⟩ := bind_eq_ok.mp h
  obtain ⟨b, hslot, h⟩ := bind_eq_ok.mp h
  obtain ⟨_, hid, -⟩ := bind_eq_ok.mp h
  obtain ⟨hout, hempty⟩ := linkInput_ok hfd hlink
  have hsame : s₂.outExtConnections = s.outExtConnections := hout
  have hslot' : chooseSlot s fd inConnId rands = .ok b := by
    rw [← hslot]
    exact (chooseSlot_congr hsame).symm
  rw [require_eq_ok, Function.update_self, hsame] at hid
  have hhead : update s.iNext (.node a) .null (.head fd) = s.iNext (.head fd) :=
    Function.update_of_ne (by simp) _ _
  refine ⟨⟨b, hslot', hid⟩, ?_⟩
  rw [← hhead]
  exact hempty

/-- The lookup that creates does so only for a descriptor without an entry. -/
theorem Represents.lookup_ok (h : Represents s r) {s' : ExtTables} {CI : ConnRef}
    {inConnId : Int64} {p : Ptr} {a : ℕ} {rands : List ℕ}
    (hok : getExtConnectionByInConnId s CI.fd CI.generation inConnId 2 a rands =
      .ok (.entry p, s')) :
    r.byInFd CI.fd = none := by
  cases hfind : r.byInFd CI.fd with
  | none => rfl
  | some x =>
    exfalso
    obtain ⟨hx, hfd⟩ := Registry.mem_of_byInFd hfind
    by_cases hid : x.inConnId = inConnId
    · obtain ⟨ys, zs, -, hwalk, hload⟩ := h.walk_found hx
      have hne : s.outConnId x.ptr ≠ 0 := by
        rw [(h.fields x hx).outConnId]
        exact h.sound.ids_ne_zero x hx
      simp only [getExtConnectionByInConnId, ← hfd, ← hid] at hok
      rw [show extConnHash x.inFd x.inConnId = hashOf x from rfl, hwalk, ok_bind, hload,
        if_pos x.ptr_ne_null, require_ok hne, ok_bind, if_neg (by decide),
        if_pos (by decide)] at hok
      exact absurd (Except.ok.inj hok) (by simp)
    · obtain ⟨prev, hwalk, hload⟩ := h.walk_absent (fun y hy hmatch =>
        hid (h.sound.fd_inj hy hx (hmatch.1.trans hfd.symm) ▸ hmatch.2))
      simp only [getExtConnectionByInConnId] at hok
      rw [hwalk, ok_bind, hload, if_neg (by simp), if_neg (by simp)] at hok
      obtain ⟨⟨cur, s₁⟩, halloc, -⟩ := bind_eq_ok.mp hok
      have hempty := (allocExtConnection_ok CI.fd_pos.ne' halloc).2
      have hopen : s.iNext (.head CI.fd) ≠ .null :=
        hfd ▸ h.inputs.head_ne_null (List.mem_reverse.mpr hx)
      have hring := h.inputs.ring CI.fd hopen
      rw [h.sound.members_inFd, hfind] at hring
      have hfirst : s.iNext (.head CI.fd) = x.ptr := hring.segment.1
      rw [hfirst] at hempty
      rcases hempty with heq | heq
      · exact x.ptr_ne_null heq
      · exact x.ptr_ne_head _ heq

/-- **Every creation that succeeds** adds a fresh entry, in a free slot, for a descriptor
without one. -/
theorem Represents.create_ok (h : Represents s r) {s' : ExtTables} {CI : ConnRef}
    {CO : Option ConnRef} {inConnId authKeyId : Int64} {p : Ptr} {a : ℕ} {rands : List ℕ}
    (ha : ∀ x ∈ r.entries, x.addr ≠ a)
    (hok : createExtConnection s CI inConnId CO authKeyId a rands = .ok (p, s')) :
    ∃ b, Fresh r (createdEntry r CI inConnId CO authKeyId a b) b ∧ p = .node a ∧
      Represents s' (r.add (createdEntry r CI inConnId CO authKeyId a b)) := by
  have hok' := hok
  simp only [createExtConnection] at hok
  obtain ⟨⟨res, s₁⟩, hlookup, hrest⟩ := bind_eq_ok.mp hok
  cases res with
  | none => exact absurd hrest (by simp)
  | deleted => exact absurd hrest (by simp)
  | entry Ex =>
    have hnone := h.lookup_ok hlookup
    rw [h.lookup_create hnone] at hlookup
    obtain ⟨⟨cur, s₂⟩, halloc, heq⟩ := bind_eq_ok.mp hlookup
    obtain ⟨rfl, rfl⟩ : cur = Ex ∧ s₂ = s₁ := by
      have hpair := Except.ok.inj heq
      simpa using hpair
    obtain ⟨⟨b, hslot, hid⟩, -⟩ := allocExtConnection_ok CI.fd_pos.ne' halloc
    have hlt := (chooseSlot_ok hslot).1
    rw [h.slotIds b hlt, nextOutConnId_slotId hlt] at hid
    have hfresh := h.fresh hnone ha hslot hid none 0
    obtain ⟨s₃, halloc', h₁, -⟩ := h.alloc hfresh ⟨rfl, rfl, rfl⟩ hslot
    obtain ⟨rfl, rfl⟩ : Ptr.node a = cur ∧ s₃ = s₂ :=
      Prod.mk.inj (Except.ok.inj (halloc'.symm.trans halloc))
    obtain ⟨_, -, hrest⟩ := bind_eq_ok.mp hrest
    obtain ⟨_, hne, hrest⟩ := bind_eq_ok.mp hrest
    rw [require_eq_ok] at hne
    have hready : ∀ C, CO = some C → r.ready C.fd ≠ none ∧ C ≠ CI := by
      rintro C rfl
      obtain ⟨_, hopen, -⟩ := bind_eq_ok.mp hrest
      rw [require_eq_ok] at hopen
      exact ⟨(h₁.ready C.fd).mp hopen, fun heq => hne (heq ▸ rfl)⟩
    obtain ⟨s₄, hcreate, hrep⟩ := h.create hnone hready ha hslot hid
    obtain ⟨rfl, rfl⟩ : Ptr.node a = p ∧ s₄ = s' :=
      Prod.mk.inj (Except.ok.inj (hcreate.symm.trans hok'))
    exact ⟨b, h.fresh hnone ha hslot hid CO authKeyId, rfl, hrep⟩

/-! ## The list of least recently used entries -/

/-- Only the order of `ConnLRU` changes. -/
theorem Represents.withLru (h : Represents s r) {lruNext lruPrev : Ptr → Ptr} {lru : List ℕ}
    (hlru : LruList lruNext lruPrev (r.entries.map Entry.addr) lru) :
    Represents { s with lruNext := lruNext, lruPrev := lruPrev } { r with lru := lru } :=
  ⟨⟨h.sound.addrs, h.sound.fds, h.sound.inFd_pos, h.sound.inFd_lt, h.sound.slots, h.sound.ids,
      h.sound.ids_ne_zero, h.sound.bound, h.sound.ready_fd⟩,
    h.cells, fun e he => ⟨(h.fields e he).inFd, (h.fields e he).inGen, (h.fields e he).inConnId,
      (h.fields e he).outFd, (h.fields e he).outGen, (h.fields e he).outConnId,
      (h.fields e he).authKeyId⟩,
    h.count, h.chains, h.slotRefs, h.emptySlots, h.slotIds, h.inputs, h.outputs, h.unbound,
    h.ready, hlru⟩

/-- Every live cell is allocated. -/
theorem Represents.allocated (h : Represents s r) :
    ∀ a ∈ r.entries.map Entry.addr, s.allocated a = true := by
  intro a ha
  obtain ⟨e, he, rfl⟩ := List.mem_map.mp ha
  exact (h.cells e.addr).mpr ⟨e, he, rfl⟩

/-- `lru_delete_ext_conn` takes an entry off the list. -/
theorem Represents.lruDelete (h : Represents s r) {a : ℕ} (ha : a ∈ r.entries.map Entry.addr) :
    ∃ s', lruDeleteExtConn s (.node a) = .ok s' ∧ Represents s' { r with lru := r.lru.erase a } := by
  obtain ⟨next, prev, hdelete, hlru⟩ := h.lru.delete h.allocated ha
  exact ⟨_, hdelete, h.withLru hlru⟩

/-- `lru_insert_ext_conn` puts an entry at the end of the list. -/
theorem Represents.lruInsert (h : Represents s r) {a : ℕ} (ha : a ∈ r.entries.map Entry.addr) :
    ∃ s', lruInsertExtConn s (.node a) = .ok s' ∧
      Represents s' { r with lru := r.lru.erase a ++ [a] } := by
  obtain ⟨next, prev, hinsert, hlru⟩ := h.lru.insert h.allocated ha
  exact ⟨_, hinsert, h.withLru hlru⟩

/-! ## Middle-ends that come and go -/

/-- The registry with a middle-end that is ready on its descriptor, or with none. -/
def Registry.setReady (r : Registry) (fd : ℕ) (C : Option ConnRef) : Registry :=
  { r with ready := update r.ready fd C }

/-- **The head of a descriptor is initialised or zeroed** when it has no entries. -/
theorem Represents.setHead (h : Represents s r) {fd : ℕ} {p : Ptr} {C : Option ConnRef}
    (hempty : ∀ e ∈ r.entries, e.outFd ≠ fd) (hp : p = .null ∨ p = .head fd)
    (hC : p ≠ .null ↔ C ≠ none) (hfd : ∀ c, C = some c → c.fd = fd) (n : ℕ) :
    Represents { s with
      oNext := update s.oNext (.head fd) p
      oPrev := update s.oPrev (.head fd) p
      outFd := update s.outFd (.head fd) n } (r.setReady fd C) := by
  have hcell : ∀ {β : Type} {f : Ptr → β} {z : β} (e : Entry), update f (.head fd) z e.ptr = f e.ptr :=
    fun e => Function.update_of_ne (e.ptr_ne_head fd) _ _
  have hmembers : members Entry.outFd (bound r.entries.reverse) fd = [] := by
    rw [List.eq_nil_iff_forall_not_mem]
    intro q hq
    obtain ⟨e, he, heq, -⟩ := mem_members.mp hq
    exact hempty e (List.mem_reverse.mp (List.mem_of_mem_filter he)) heq
  have hfields : ∀ e ∈ r.entries, update s.outFd (.head fd) n e.ptr = e.outFd := by
    intro e he
    rw [hcell]
    exact (h.fields e he).outFd
  have hunbound : ∀ e ∈ r.entries, e.outFd = 0 → update s.oNext (.head fd) p e.ptr = .null := by
    intro e he h0
    rw [hcell]
    exact h.unbound e he h0
  refine ⟨⟨h.sound.addrs, h.sound.fds, h.sound.inFd_pos, h.sound.inFd_lt, h.sound.slots, h.sound.ids,
      h.sound.ids_ne_zero, ?_, ?_⟩,
    h.cells, fun e he => ⟨(h.fields e he).inFd, (h.fields e he).inGen, (h.fields e he).inConnId,
      hfields e he, (h.fields e he).outGen, (h.fields e he).outConnId, (h.fields e he).authKeyId⟩,
    h.count, h.chains, h.slotRefs, h.emptySlots, h.slotIds, h.inputs,
    h.outputs.setHead p hmembers hp, hunbound, ?_, h.lru⟩
  · intro e he hout
    change update r.ready fd C e.outFd ≠ none
    rw [Function.update_of_ne (hempty e he)]
    exact h.sound.bound e he hout
  · intro fd' c hc
    by_cases heq : fd' = fd
    · subst heq
      change update r.ready fd' C fd' = some c at hc
      rw [Function.update_self] at hc
      exact hfd c hc
    · change update r.ready fd C fd' = some c at hc
      rw [Function.update_of_ne heq] at hc
      exact h.sound.ready_fd fd' c hc
  · intro fd'
    change update s.oNext (.head fd) p (.head fd') ≠ .null ↔ update r.ready fd C fd' ≠ none
    by_cases heq : fd' = fd
    · subst heq
      rw [Function.update_self, Function.update_self]
      exact hC
    · rw [Function.update_of_ne heq, Function.update_of_ne (fun h' => heq (Ptr.head.inj h'))]
      exact h.ready fd'

end

end MtprotoProxy
