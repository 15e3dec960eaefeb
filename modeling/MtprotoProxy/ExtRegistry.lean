/-
# The registry of external connections

What the tables of `mtproto/mtproto-proxy.c` are for: a `Registry` lists the live external
connections, newest first, together with the order of `ConnLRU`, the middle-ends that are
ready and how often each slot of `OutExtConnections` was used.  `Represents s r` says that
the memory of the program holds exactly the registry `r`, in all five structures.

The lookups and the walk over a hash chain are specified here: on a memory that represents
a registry they succeed, and return what the registry says.
-/
import MtprotoProxy.ExtLists

namespace MtprotoProxy

open Function (update)
open Linked

/-! ## Connection ids -/

/-- The id that a slot holds after it was used `k` times. -/
def slotId (h k : ℕ) : Int64 :=
  if k = 0 then 0 else Int64.ofNat (k * extConnTableSize + h)

/-- The low bits of a word with all of them set. -/
theorem or_low_bits {k h : ℕ} (hh : h < extConnTableSize) :
    (k * extConnTableSize + h) ||| (extConnTableSize - 1) =
      k * extConnTableSize + (extConnTableSize - 1) := by
  have hlow : h ||| (2 ^ 22 - 1) = 2 ^ 22 - 1 := by
    apply Nat.eq_of_testBit_eq
    intro i
    rw [Nat.testBit_or, Nat.testBit_two_pow_sub_one]
    by_cases hi : i < 22
    · simp [hi]
    · have hbit : h.testBit i = false :=
        Nat.testBit_lt_two_pow (lt_of_lt_of_le hh (Nat.pow_le_pow_right (by norm_num) (by omega)))
      simp [hi, hbit]
  have hsplit : ∀ b < 2 ^ 22, k * 2 ^ 22 + b = 2 ^ 22 * k ||| b := fun b hb => by
    rw [Nat.mul_comm, Nat.two_pow_add_eq_or_of_lt hb]
  have hh' : h < 2 ^ 22 := hh
  simp only [extConnTableSize]
  rw [hsplit h hh', hsplit _ (by norm_num), Nat.or_assoc, hlow]

/-- The bits of the id of a slot. -/
theorem toBitVec_slotId {h k : ℕ} (hk : 0 < k) :
    (slotId h k).toBitVec.toNat = (k * extConnTableSize + h) % 2 ^ 64 := by
  rw [slotId, if_neg (by omega)]
  simp [Int64.ofNat, Int64.toBitVec]

/-- **The next id of a slot.** -/
theorem nextOutConnId_slotId {h k : ℕ} (hh : h < extConnTableSize) :
    nextOutConnId (slotId h k) h = slotId h (k + 1) := by
  have hold : (slotId h k).toBitVec.toNat ||| (extConnTableSize - 1) =
      k % 2 ^ 42 * extConnTableSize + (extConnTableSize - 1) := by
    by_cases hk : k = 0
    · subst hk
      simp [slotId, extConnTableSize]
    · rw [toBitVec_slotId (by omega), ← or_low_bits hh]
      congr 1
      simp only [extConnTableSize] at hh ⊢
      omega
  apply Int64.toBitVec.inj
  apply BitVec.eq_of_toNat_eq
  rw [toBitVec_slotId (Nat.succ_pos k)]
  have hmask : (Int64.ofNat (extConnTableSize - 1)).toBitVec.toNat = extConnTableSize - 1 := by
    decide
  have hnat : ((slotId h k ||| Int64.ofNat (extConnTableSize - 1)) + 1 + Int64.ofNat h).toBitVec.toNat
      = (((slotId h k).toBitVec.toNat ||| (extConnTableSize - 1)) + 1 + h) % 2 ^ 64 := by
    rw [← hmask]
    simp [Int64.toBitVec_add, Int64.toBitVec_or, BitVec.toNat_add, BitVec.toNat_or]
  rw [nextOutConnId, hnat, hold]
  simp only [extConnTableSize] at hh ⊢
  omega

/-- The slot of an id. -/
theorem slotOf_slotId {h k : ℕ} (hh : h < extConnTableSize) (hk : 0 < k) :
    slotOf (slotId h k) = h := by
  have hmask : (Int64.ofNat (extConnTableSize - 1)).toBitVec.toNat = 2 ^ 22 - 1 := by decide
  rw [slotOf, Int64.toBitVec_and, BitVec.toNat_and, hmask, Nat.and_two_pow_sub_one_eq_mod,
    toBitVec_slotId hk]
  simp only [extConnTableSize] at hh ⊢
  omega

theorem slotOf_lt (id : Int64) : slotOf id < extConnTableSize := by
  have hmask : (Int64.ofNat (extConnTableSize - 1)).toBitVec.toNat = 2 ^ 22 - 1 := by decide
  rw [slotOf, Int64.toBitVec_and, BitVec.toNat_and, hmask, Nat.and_two_pow_sub_one_eq_mod]
  exact Nat.mod_lt _ (by decide)

/-- The ids of a slot other than slot 0 are never zero. -/
theorem slotId_ne_zero {h k : ℕ} (hh : h < extConnTableSize) (hk : 0 < k) (hpos : 0 < h) :
    slotId h k ≠ 0 := by
  intro heq
  have hslot := slotOf_slotId hh hk
  rw [heq] at hslot
  have hzero : slotOf 0 = 0 := by decide
  omega

/-- **Ids are different** as long as no slot was used `2^64 / EXT_CONN_TABLE_SIZE` times. -/
theorem slotId_inj {h h' k k' : ℕ} (hh : h < extConnTableSize) (hh' : h' < extConnTableSize)
    (hk : 0 < k) (hk' : 0 < k') (hlt : k < 2 ^ 42) (hlt' : k' < 2 ^ 42)
    (heq : slotId h k = slotId h' k') : h = h' ∧ k = k' := by
  have hslot : h = h' := by
    rw [← slotOf_slotId hh hk, heq, slotOf_slotId hh' hk']
  have hbits := congrArg (fun x : Int64 => x.toBitVec.toNat) heq
  simp only [toBitVec_slotId hk, toBitVec_slotId hk'] at hbits
  simp only [extConnTableSize] at hh hh' hbits
  omega

/-! ## The registry -/

/-- **The registry of external connections.** -/
structure Registry where
  /-- the live entries, newest first -/
  entries : List Entry
  /-- the cells on `ConnLRU`, oldest first -/
  lru : List ℕ
  /-- the middle-end that is ready on a descriptor -/
  ready : ℕ → Option ConnRef
  /-- how often a slot of `OutExtConnections` was used -/
  uses : ℕ → ℕ

namespace Registry

/-- The registry of a program that has just started. -/
def empty : Registry := ⟨[], [], fun _ => none, fun _ => 0⟩

/-- The slot of an entry. -/
def slot (e : Entry) : ℕ := slotOf e.outConnId

/-- The entry of a client descriptor. -/
def byInFd (r : Registry) (fd : ℕ) : Option Entry := r.entries.find? (fun e => e.inFd = fd)

/-- The entry with this id. -/
def byOutConnId (r : Registry) (id : Int64) : Option Entry :=
  r.entries.find? (fun e => e.outConnId = id)

/-- The registry without the entry at this address. -/
def remove (r : Registry) (a : ℕ) : Registry :=
  { r with entries := without r.entries a, lru := r.lru.erase a }

/-- The registry with a new entry, whose slot is used once more. -/
def add (r : Registry) (e : Entry) : Registry :=
  { r with entries := e :: r.entries, uses := update r.uses (slot e) (r.uses (slot e) + 1) }

/-- **What holds of every registry.** There is one entry for a client descriptor, cells and
slots are not shared, ids are the current ids of their slots, and a middle-end is ready on the
descriptor that an entry is bound to. -/
structure Sound (r : Registry) : Prop where
  addrs : (r.entries.map Entry.addr).Nodup
  fds : (r.entries.map Entry.inFd).Nodup
  inFd_pos : ∀ e ∈ r.entries, 0 < e.inFd
  inFd_lt : ∀ e ∈ r.entries, e.inFd < maxConnections
  slots : (r.entries.map slot).Nodup
  ids : ∀ e ∈ r.entries, e.outConnId = slotId (slot e) (r.uses (slot e)) ∧ 0 < r.uses (slot e)
  ids_ne_zero : ∀ e ∈ r.entries, e.outConnId ≠ 0
  bound : ∀ e ∈ r.entries, e.outFd ≠ 0 → r.ready e.outFd ≠ none
  ready_fd : ∀ fd C, r.ready fd = some C → C.fd = fd

end Registry

/-- The entries that are bound to a middle-end. -/
def bound (order : List Entry) : List Entry := order.filter (fun e => e.outFd ≠ 0)

/-- The bucket of an entry. -/
def hashOf (e : Entry) : ℕ := extConnHash e.inFd e.inConnId

/-- The cell of an entry, or the null pointer. -/
def ptrOf : Option Entry → Ptr
  | some e => e.ptr
  | none => .null

/-- The cell of an entry holds its fields. -/
structure Holds (s : ExtTables) (e : Entry) : Prop where
  inFd : s.inFd e.ptr = e.inFd
  inGen : s.inGen e.ptr = e.inGen
  inConnId : s.inConnId e.ptr = e.inConnId
  outFd : s.outFd e.ptr = e.outFd
  outGen : s.outGen e.ptr = e.outGen
  outConnId : s.outConnId e.ptr = e.outConnId
  authKeyId : s.authKeyId e.ptr = e.authKeyId

/-- **The memory holds exactly this registry.** -/
structure Represents (s : ExtTables) (r : Registry) : Prop where
  sound : r.Sound
  cells : ∀ a, s.allocated a = true ↔ ∃ e ∈ r.entries, e.addr = a
  fields : ∀ e ∈ r.entries, Holds s e
  count : s.extConnections = r.entries.length
  chains : ∀ h, Chain s.hNext .null (s.inExtConnectionHash h) (members hashOf r.entries h)
  slotRefs : ∀ e ∈ r.entries, (s.outExtConnections (Registry.slot e)).ref = e.ptr
  emptySlots : ∀ h, (∀ e ∈ r.entries, Registry.slot e ≠ h) →
    (s.outExtConnections h).ref = .null
  slotIds : ∀ h < extConnTableSize, (s.outExtConnections h).outConnId = slotId h (r.uses h)
  inputs : Lists s.iNext s.iPrev Entry.inFd r.entries.reverse
  outputs : Lists s.oNext s.oPrev Entry.outFd (bound r.entries.reverse)
  unbound : ∀ e ∈ r.entries, e.outFd = 0 → s.oNext e.ptr = .null
  ready : ∀ fd, s.oNext (.head fd) ≠ .null ↔ r.ready fd ≠ none
  lru : LruList s.lruNext s.lruPrev (r.entries.map Entry.addr) r.lru

/-- The memory at the start holds the empty registry. -/
theorem represents_init : Represents .init .empty := by
  have hlists : ∀ order : List Entry, order = [] → ∀ key,
      Lists (fun _ => .null) (fun _ => .null) key order := by
    rintro order rfl key
    exact ⟨fun fd h => absurd rfl h, fun fd _ => ⟨rfl, rfl⟩⟩
  constructor
  case sound => constructor <;> simp [Registry.empty]
  case cells => intro a; simp [ExtTables.init, Registry.empty]
  case fields => intro e he; simp [Registry.empty] at he
  case count => rfl
  case chains => intro h; rfl
  case slotRefs => intro e he; simp [Registry.empty] at he
  case emptySlots => intro h _; rfl
  case slotIds => intro h _; rfl
  case inputs => exact hlists _ rfl _
  case outputs => exact hlists _ rfl _
  case unbound => intro e he; simp [Registry.empty] at he
  case ready => intro fd; simp [ExtTables.init, Registry.empty]
  case lru =>
    refine ⟨?_, ?_, ?_⟩
    · simp [ring_nil, ExtTables.init, Registry.empty]
    · intro a ha; simp [Registry.empty] at ha
    · intro a ha; simp [Registry.empty] at ha

/-! ## Looking up -/

section

variable {s : ExtTables} {r : Registry}

/-- A live cell can be accessed. -/
theorem Represents.valid (h : Represents s r) {e : Entry} (he : e ∈ r.entries) :
    s.valid e.ptr = true := (h.cells e.addr).mpr ⟨e, he, rfl⟩

/-- Entries at one address are one entry. -/
theorem Registry.Sound.addr_inj (h : r.Sound) {e e' : Entry} (he : e ∈ r.entries)
    (he' : e' ∈ r.entries) (haddr : e.addr = e'.addr) : e = e' :=
  List.inj_on_of_nodup_map h.addrs he he' haddr

/-- Entries of one client descriptor are one entry. -/
theorem Registry.Sound.fd_inj (h : r.Sound) {e e' : Entry} (he : e ∈ r.entries)
    (he' : e' ∈ r.entries) (hfd : e.inFd = e'.inFd) : e = e' :=
  List.inj_on_of_nodup_map h.fds he he' hfd

/-- The entry of a client descriptor. -/
theorem Registry.Sound.byInFd_eq (h : r.Sound) {e : Entry} (he : e ∈ r.entries) :
    r.byInFd e.inFd = some e := by
  rw [Registry.byInFd, List.find?_eq_some_iff_append]
  refine ⟨by simp, ?_⟩
  obtain ⟨ys, zs, hsplit⟩ := List.append_of_mem he
  refine ⟨ys, zs, hsplit, ?_⟩
  intro y hy
  have hmem : y ∈ r.entries := hsplit ▸ List.mem_append_left _ hy
  have hfds := h.fds
  rw [hsplit, List.map_append, List.map_cons, List.nodup_append] at hfds
  have hne := hfds.2.2 y.inFd (List.mem_map_of_mem hy) e.inFd List.mem_cons_self
  simpa using hne

/-- What it means to be found under a client descriptor. -/
theorem Registry.mem_of_byInFd {e : Entry} {fd : ℕ} (h : r.byInFd fd = some e) :
    e ∈ r.entries ∧ e.inFd = fd := by
  refine ⟨List.mem_of_find?_eq_some h, ?_⟩
  simpa using List.find?_some h

/-- What it means to be found under an id. -/
theorem Registry.mem_of_byOutConnId {e : Entry} {id : Int64} (h : r.byOutConnId id = some e) :
    e ∈ r.entries ∧ e.outConnId = id := by
  refine ⟨List.mem_of_find?_eq_some h, ?_⟩
  simpa using List.find?_some h

/-- The entry with an id. -/
theorem Registry.Sound.byOutConnId_eq (h : r.Sound) {e : Entry} (he : e ∈ r.entries) :
    r.byOutConnId e.outConnId = some e := by
  cases hfind : r.byOutConnId e.outConnId with
  | none =>
    have hmiss := List.find?_eq_none.mp hfind e he
    simp at hmiss
  | some x =>
    obtain ⟨hx, hid⟩ := Registry.mem_of_byOutConnId hfind
    rw [List.inj_on_of_nodup_map h.slots hx he (congrArg slotOf hid)]

theorem Registry.byInFd_eq_none {fd : ℕ} :
    r.byInFd fd = none ↔ ∀ e ∈ r.entries, e.inFd ≠ fd := by
  simp [Registry.byInFd]

theorem Registry.byOutConnId_eq_none {id : Int64} :
    r.byOutConnId id = none ↔ ∀ e ∈ r.entries, e.outConnId ≠ id := by
  simp [Registry.byOutConnId]

/-- The list of a client descriptor has at most the one entry. -/
theorem Registry.Sound.members_inFd (h : r.Sound) (fd : ℕ) :
    members Entry.inFd r.entries.reverse fd = ((r.byInFd fd).map Entry.ptr).toList := by
  cases hfind : r.byInFd fd with
  | none =>
    rw [Registry.byInFd_eq_none] at hfind
    have hempty : r.entries.reverse.filter (fun e => e.inFd = fd) = [] := by
      rw [List.filter_eq_nil_iff]
      intro e he
      simpa using hfind e (List.mem_reverse.mp he)
    rw [members, hempty]
    rfl
  | some e =>
    obtain ⟨he, hfd⟩ := Registry.mem_of_byInFd hfind
    obtain ⟨ys, zs, hsplit⟩ := List.append_of_mem he
    have hfds := h.fds
    rw [hsplit, List.map_append, List.map_cons] at hfds
    have hothers : ∀ x ∈ ys ++ zs, ¬ x.inFd = fd := by
      intro x hx heq
      have hnotin := (List.nodup_cons.mp (List.nodup_middle.mp hfds)).1
      rw [← List.map_append, hfd] at hnotin
      exact hnotin (heq ▸ List.mem_map_of_mem hx)
    have hfilter : r.entries.filter (fun e => e.inFd = fd) = [e] := by
      rw [hsplit, List.filter_append, List.filter_cons_of_pos (by simpa using hfd)]
      rw [List.filter_eq_nil_iff.mpr, List.filter_eq_nil_iff.mpr]
      · rfl
      · intro x hx; simpa using hothers x (List.mem_append_right _ hx)
      · intro x hx; simpa using hothers x (List.mem_append_left _ hx)
    rw [members, List.filter_reverse, hfilter]
    rfl

/-- **`get_ext_connection_by_in_fd` returns the only entry of the descriptor.** -/
theorem Represents.getByInFd (h : Represents s r) {fd : ℕ} (hfd : fd < maxConnections) :
    getExtConnectionByInFd s fd = .ok (ptrOf (r.byInFd fd)) := by
  have hmembers := h.sound.members_inFd fd
  by_cases hnull : s.iNext (.head fd) = .null
  · obtain ⟨hprev, hempty⟩ := h.inputs.closed fd hnull
    have hnone : r.byInFd fd = none := by
      rw [hempty] at hmembers
      cases hfind : r.byInFd fd with
      | none => rfl
      | some e => simp [hfind] at hmembers
    simp [getExtConnectionByInFd, require_ok hfd, hnull, hprev, hnone, ptrOf]
  · have hring := h.inputs.ring fd hnull
    rw [hmembers] at hring
    cases hfind : r.byInFd fd with
    | none =>
      rw [hfind] at hring
      obtain ⟨hn, hp⟩ := ring_nil.mp hring
      simp [getExtConnectionByInFd, require_ok hfd, hn, hp, ptrOf]
    | some e =>
      rw [hfind] at hring
      obtain ⟨he, heq⟩ := Registry.mem_of_byInFd hfind
      have hn : s.iNext (.head fd) = e.ptr := hring.segment.1
      have hp : s.iPrev (.head fd) = e.ptr := hring.segment.2.2.2
      have hinFd : s.inFd e.ptr = fd := by rw [(h.fields e he).inFd, heq]
      simp [getExtConnectionByInFd, require_ok hfd, hn, hp, h.valid he, hinFd, ptrOf]

/-- **`find_ext_connection_by_out_conn_id` returns the live entry with the id.** -/
theorem Represents.find (h : Represents s r) (id : Int64) :
    findExtConnectionByOutConnId s id = .ok (ptrOf (r.byOutConnId id)) := by
  have hslotId := h.slotIds (slotOf id) (slotOf_lt id)
  cases hfind : r.byOutConnId id with
  | some e =>
    obtain ⟨he, hid⟩ := Registry.mem_of_byOutConnId hfind
    have href := h.slotRefs e he
    have hids := (h.sound.ids e he).1
    rw [Registry.slot, hid] at href hids
    have hout : s.outConnId e.ptr = id := by rw [(h.fields e he).outConnId, hid]
    simp [findExtConnectionByOutConnId, href, hslotId, ← hids, h.valid he, hout, ptrOf]
  | none =>
    rw [Registry.byOutConnId_eq_none] at hfind
    by_cases hused : ∃ e ∈ r.entries, Registry.slot e = slotOf id
    · obtain ⟨e, he, hslot⟩ := hused
      have hids := (h.sound.ids e he).1
      rw [hslot] at hids
      have hne : (s.outExtConnections (slotOf id)).outConnId ≠ id := by
        rw [hslotId, ← hids]
        exact hfind e he
      simp [findExtConnectionByOutConnId, hne, ptrOf]
    · push Not at hused
      have hnull := h.emptySlots (slotOf id) hused
      simp [findExtConnectionByOutConnId, hnull, ptrOf]

/-! ## Walking a hash chain -/

/-- The place of the link after these cells. -/
def linkAfter (prev : Link) : List Ptr → Link
  | [] => prev
  | x :: xs => linkAfter (.next x) xs

/-- The walk passes the cells that do not match and stops where the next one does, or where there
is no next one. -/
theorem walkChain_passes {inFd : ℕ} {inConnId : Int64} {zs : List Ptr}
    (hvalid : ∀ y ∈ zs, s.valid y = true)
    (hmatch : ∀ z ∈ zs.head?, s.inFd z = inFd ∧ s.inConnId z = inConnId) :
    ∀ {ys : List Ptr} {prev : Link} {fuel : ℕ},
      Chain s.hNext .null (s.load prev) (ys ++ zs) → (∀ y ∈ ys, s.valid y = true) →
      (∀ y ∈ ys, ¬ (s.inFd y = inFd ∧ s.inConnId y = inConnId)) → ys.length < fuel →
      walkChain s inFd inConnId fuel prev = .ok (linkAfter prev ys) ∧
        Chain s.hNext .null (s.load (linkAfter prev ys)) zs := by
  intro ys
  induction ys with
  | nil =>
    rintro prev (_ | fuel) hchain - - hfuel
    · simp at hfuel
    · refine ⟨?_, hchain⟩
      rw [walkChain]
      cases zs with
      | nil =>
        have hnull : s.load prev = .null := hchain
        simp only [hnull, if_true, linkAfter, pure_eq_ok]
      | cons z zs =>
        obtain ⟨hload, hne, -⟩ := hchain
        simp only [hload, if_neg hne, require_ok (hvalid z List.mem_cons_self), ok_bind,
          if_pos (hmatch z rfl), linkAfter, pure_eq_ok]
  | cons y ys ih =>
    rintro prev (_ | fuel) ⟨hload, hne, hrest⟩ hys hmiss hfuel
    · simp at hfuel
    · have hwalk := @ih (.next y) fuel hrest (fun u hu => hys u (List.mem_cons_of_mem _ hu))
        (fun u hu => hmiss u (List.mem_cons_of_mem _ hu)) (by simpa using hfuel)
      rw [walkChain]
      simp only [hload, if_neg hne, require_ok (hys y List.mem_cons_self), ok_bind,
        if_neg (hmiss y List.mem_cons_self), linkAfter]
      exact hwalk

/-- A list has at most as many cells as there are entries. -/
theorem length_members_le (key : Entry → ℕ) (entries : List Entry) (h : ℕ) :
    (members key entries h).length ≤ entries.length := by
  rw [members, List.length_map]
  exact List.length_filter_le _ _

/-- **The walk for a live entry** ends at the place that leads to it. -/
theorem Represents.walk_found (h : Represents s r) {e : Entry} (he : e ∈ r.entries) :
    ∃ ys zs, members hashOf r.entries (hashOf e) = ys ++ e.ptr :: zs ∧
      walkChain s e.inFd e.inConnId (s.extConnections.toNat + 1)
        (.bucket (hashOf e)) =
          .ok (linkAfter (.bucket (hashOf e)) ys) ∧
      s.load (linkAfter (.bucket (hashOf e)) ys) = e.ptr := by
  have hmem : e.ptr ∈ members hashOf r.entries (hashOf e) :=
    mem_members.mpr ⟨e, he, rfl, rfl⟩
  obtain ⟨ys, zs, hsplit⟩ := List.append_of_mem hmem
  have hchain := h.chains (hashOf e)
  have hnodup : (members hashOf r.entries (hashOf e)).Nodup := nodup_members h.sound.addrs _
  have hlength := length_members_le hashOf r.entries (hashOf e)
  rw [hsplit] at hchain hnodup hlength
  have hcell : ∀ y ∈ ys ++ e.ptr :: zs, ∃ x ∈ r.entries, x.ptr = y := by
    intro y hy
    rw [← hsplit] at hy
    obtain ⟨x, hx, -, rfl⟩ := mem_members.mp hy
    exact ⟨x, hx, rfl⟩
  have hvalid : ∀ y ∈ ys ++ e.ptr :: zs, s.valid y = true := by
    intro y hy
    obtain ⟨x, hx, rfl⟩ := hcell y hy
    exact h.valid hx
  have hmatch : ∀ z ∈ (e.ptr :: zs).head?, s.inFd z = e.inFd ∧ s.inConnId z = e.inConnId := by
    rintro z hz
    obtain rfl := Option.some.inj hz
    exact ⟨(h.fields e he).inFd, (h.fields e he).inConnId⟩
  suffices hwalk : walkChain s e.inFd e.inConnId (s.extConnections.toNat + 1) (.bucket (hashOf e))
      = .ok (linkAfter (.bucket (hashOf e)) ys) ∧
      Chain s.hNext .null (s.load (linkAfter (.bucket (hashOf e)) ys)) (e.ptr :: zs) from
    ⟨ys, zs, hsplit, hwalk.1, hwalk.2.1⟩
  refine walkChain_passes (fun y hy => hvalid y (List.mem_append_right _ hy)) hmatch hchain
    (fun y hy => hvalid y (List.mem_append_left _ hy)) ?_ ?_
  · rintro y hy ⟨hfd, -⟩
    obtain ⟨x, hx, rfl⟩ := hcell y (List.mem_append_left _ hy)
    rw [(h.fields x hx).inFd] at hfd
    have hsame := h.sound.fd_inj hx he hfd
    rw [hsame] at hy
    exact (List.nodup_append.mp hnodup).2.2 _ hy _ List.mem_cons_self rfl
  · rw [h.count, Int.toNat_natCast]
    simp at hlength
    omega

/-- **The walk for an entry that does not exist** ends at the end of the chain. -/
theorem Represents.walk_absent (h : Represents s r) {fd : ℕ} {inConnId : Int64}
    (hnone : ∀ x ∈ r.entries, ¬ (x.inFd = fd ∧ x.inConnId = inConnId)) :
    ∃ prev, walkChain s fd inConnId (s.extConnections.toNat + 1)
        (.bucket (extConnHash fd inConnId)) = .ok prev ∧ s.load prev = .null := by
  have hcell : ∀ y ∈ members hashOf r.entries (extConnHash fd inConnId), ∃ x ∈ r.entries, x.ptr = y := by
    intro y hy
    obtain ⟨x, hx, -, rfl⟩ := mem_members.mp hy
    exact ⟨x, hx, rfl⟩
  have hchain : Chain s.hNext .null (s.load (.bucket (extConnHash fd inConnId)))
      (members hashOf r.entries (extConnHash fd inConnId) ++ []) := by
    rw [List.append_nil]
    exact h.chains _
  refine ⟨_, walkChain_passes (fun y hy => absurd hy List.not_mem_nil)
    (fun z hz => absurd hz (by simp)) hchain ?_ ?_ ?_⟩
  · intro y hy
    obtain ⟨x, hx, rfl⟩ := hcell y hy
    exact h.valid hx
  · intro y hy
    obtain ⟨x, hx, rfl⟩ := hcell y hy
    rw [(h.fields x hx).inFd, (h.fields x hx).inConnId]
    exact hnone x hx
  · rw [h.count, Int.toNat_natCast]
    have hlength := length_members_le hashOf r.entries (extConnHash fd inConnId)
    omega

end

end MtprotoProxy
