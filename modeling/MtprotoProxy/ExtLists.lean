/-
# The lists that external connections are threaded on

What the pointer surgery of `mtproto/mtproto-proxy.c` does to the circular lists: `Lists`
describes the lists that hang on the heads of the descriptors, one for each value of a key
(`in_fd` or `out_fd`), and `LruList` the list `ConnLRU`.
-/
import MtprotoProxy.ExtTables
import MtprotoProxy.LinkedLists

namespace MtprotoProxy

open Function (update)
open Linked

/-! ## Requirements -/

/-- A requirement that is met. -/
@[simp] theorem require_ok {c : Prop} [Decidable c] {f : Fault} (h : c) :
    require c f = .ok () := if_pos h

/-- A requirement that is not met. -/
theorem require_error {c : Prop} [Decidable c] {f : Fault} (h : ¬ c) :
    require c f = .error f := if_neg h

/-- A step that succeeds, and what follows it. -/
@[simp] theorem ok_bind {β γ : Type} (x : β) (f : β → Except Fault γ) :
    ((Except.ok x : Except Fault β) >>= f) = f x := rfl

/-- A fault ends the call. -/
@[simp] theorem error_bind {β γ : Type} (e : Fault) (f : β → Except Fault γ) :
    ((Except.error e : Except Fault β) >>= f) = .error e := rfl

/-- A call that succeeds took a first step that succeeds. -/
theorem bind_eq_ok {β γ : Type} {x : Except Fault β} {f : β → Except Fault γ} {y : γ} :
    (x >>= f) = .ok y ↔ ∃ z, x = .ok z ∧ f z = .ok y := by
  cases x with
  | error e => simp
  | ok z => simp

theorem require_eq_ok {c : Prop} [Decidable c] {f : Fault} {u : Unit} :
    require c f = .ok u ↔ c := by
  by_cases h : c
  · simp [h]
  · rw [require_error h]
    simp [h]

@[simp] theorem pure_eq_ok {β : Type} (x : β) : (pure x : Except Fault β) = .ok x := rfl

/-! ## Entries -/

/-- The contents of a live `struct ext_connection`, without its links. -/
structure Entry where
  addr : ℕ
  inFd : ℕ
  inGen : ℤ
  inConnId : Int64
  outFd : ℕ
  outGen : ℤ
  outConnId : Int64
  authKeyId : Int64
  deriving DecidableEq

/-- The cell of an entry. -/
def Entry.ptr (e : Entry) : Ptr := .node e.addr

@[simp] theorem Entry.ptr_ne_null (e : Entry) : e.ptr ≠ .null := nofun

@[simp] theorem Entry.ptr_ne_head (e : Entry) (fd : ℕ) : e.ptr ≠ .head fd := nofun

@[simp] theorem Entry.ptr_inj {e e' : Entry} : e.ptr = e'.ptr ↔ e.addr = e'.addr := by
  simp [Entry.ptr]

/-- The cells of the entries with this key, in order. -/
def members (key : Entry → ℕ) (order : List Entry) (fd : ℕ) : List Ptr :=
  (order.filter (fun e => key e = fd)).map Entry.ptr

/-- The entries without the one at this address. -/
def without (order : List Entry) (a : ℕ) : List Entry := order.filter (fun e => e.addr ≠ a)

variable {key : Entry → ℕ} {order : List Entry}

theorem mem_members {fd : ℕ} {p : Ptr} :
    p ∈ members key order fd ↔ ∃ e ∈ order, key e = fd ∧ e.ptr = p := by
  simp [members, and_assoc]

theorem mem_without {order : List Entry} {a : ℕ} {e : Entry} :
    e ∈ without order a ↔ e ∈ order ∧ e.addr ≠ a := by
  simp [without]

/-- No head is a member of a list, and the null pointer is not. -/
theorem head_notMem_members {fd fd' : ℕ} :
    Ptr.head fd' ∉ members key order fd := by
  intro h
  obtain ⟨e, -, -, he⟩ := (mem_members).mp h
  exact e.ptr_ne_head fd' he

/-- The cells of different lists are different. -/
theorem notMem_members_of_ne {fd fd' : ℕ} {u : Ptr}
    (hnodup : (order.map Entry.addr).Nodup) (hfd : fd' ≠ fd)
    (hu : u ∈ Ptr.head fd' :: members key order fd') :
    u ∉ Ptr.head fd :: members key order fd := by
  intro hmem
  rcases List.mem_cons.mp hu with rfl | hu
  · rcases List.mem_cons.mp hmem with heq | hmem
    · exact hfd (Ptr.head.inj heq)
    · exact head_notMem_members hmem
  · obtain ⟨e', he', hkey', rfl⟩ := (mem_members).mp hu
    rcases List.mem_cons.mp hmem with heq | hmem
    · exact e'.ptr_ne_head fd heq
    · obtain ⟨e, he, hkey, heq⟩ := (mem_members).mp hmem
      have hsame : e = e' := List.inj_on_of_nodup_map hnodup he he' ((Entry.ptr_inj).mp heq)
      rw [hsame, hkey'] at hkey
      exact hfd hkey

/-- The cells of a list are different. -/
theorem nodup_members (hnodup : (order.map Entry.addr).Nodup) (fd : ℕ) :
    (members key order fd).Nodup := by
  have hsub : (members key order fd).Sublist (order.map Entry.ptr) :=
    List.filter_sublist.map Entry.ptr
  apply hsub.nodup
  have hmap : order.map Entry.ptr = (order.map Entry.addr).map Ptr.node := by
    rw [List.map_map]; rfl
  rw [hmap]
  exact hnodup.map (fun a b => Ptr.node.inj)

/-- An entry taken out of all entries is taken out of its list. -/
theorem members_without {e : Entry}
    (hnodup : (order.map Entry.addr).Nodup) (fd : ℕ) :
    members key (without order e.addr) fd = (members key order fd).erase e.ptr := by
  rw [(nodup_members hnodup fd).erase_eq_filter, members, members, without, List.filter_map, List.filter_filter,
    List.filter_filter]
  congr 1
  refine List.filter_congr (fun x _ => ?_)
  have hiff : (x.ptr == e.ptr) = decide (x.addr = e.addr) := by
    rw [Bool.eq_iff_iff]
    simp
  simp [hiff, bne, Bool.and_comm]

/-- An entry of another list is not missed. -/
theorem members_without_of_ne {e : Entry} {fd : ℕ}
    (hnodup : (order.map Entry.addr).Nodup) (he : e ∈ order) (hfd : key e ≠ fd) :
    members key (without order e.addr) fd = members key order fd := by
  rw [members_without hnodup]
  refine List.erase_of_not_mem (fun h => ?_)
  obtain ⟨e', he', hkey, heq⟩ := (mem_members).mp h
  have hsame : e' = e := List.inj_on_of_nodup_map hnodup he' he ((Entry.ptr_inj).mp heq)
  exact hfd (hsame ▸ hkey)

theorem members_append {e : Entry} {fd : ℕ} :
    members key (order ++ [e]) fd =
      members key order fd ++ if key e = fd then [e.ptr] else [] := by
  by_cases h : key e = fd <;> simp [members, h]

/-! ## The lists of the descriptors -/

/-- **The lists that hang on the heads of the descriptors.** A head whose links are zero has
no members; every other head heads a ring of exactly the entries with its key. -/
structure Lists (next prev : Ptr → Ptr) (key : Entry → ℕ) (order : List Entry) : Prop where
  ring : ∀ fd, next (.head fd) ≠ .null →
    Ring next prev (.head fd) (members key order fd)
  closed : ∀ fd, next (.head fd) = .null →
    prev (.head fd) = .null ∧ members key order fd = []

/-- The cells that the lists may run through can be accessed. -/
structure Accessible (valid : Ptr → Bool) (key : Entry → ℕ) (order : List Entry) : Prop where
  heads : ∀ fd, fd < maxConnections → valid (.head fd)
  cells : ∀ e ∈ order, valid e.ptr
  keys : ∀ e ∈ order, key e < maxConnections

/-- The cells of the ring of a descriptor can be accessed. -/
theorem Accessible.ring {valid : Ptr → Bool} {fd : ℕ}
    {u : Ptr} (hv : Accessible valid key order) (hfd : fd < maxConnections)
    (hu : u ∈ Ptr.head fd :: members key order fd) : valid u := by
  rcases List.mem_cons.mp hu with rfl | hu
  · exact hv.heads fd hfd
  · obtain ⟨e, he, -, rfl⟩ := (mem_members).mp hu
    exact hv.cells e he

/-- The null pointer is in no ring of a descriptor. -/
theorem ne_null_of_mem_ring {fd : ℕ} {u : Ptr}
    (hu : u ∈ Ptr.head fd :: members key order fd) : u ≠ .null := by
  rcases List.mem_cons.mp hu with rfl | hu
  · exact nofun
  · obtain ⟨e, -, -, rfl⟩ := (mem_members).mp hu
    exact e.ptr_ne_null

variable {next prev : Ptr → Ptr}

/-- The lists only look at the links of heads and entries. -/
theorem Lists.congr {next' prev' : Ptr → Ptr} (h : Lists next prev key order)
    (hhead : ∀ fd, next' (.head fd) = next (.head fd) ∧ prev' (.head fd) = prev (.head fd))
    (hcell : ∀ e ∈ order, next' e.ptr = next e.ptr ∧ prev' e.ptr = prev e.ptr) :
    Lists next' prev' key order := by
  have hboth : ∀ fd, ∀ u ∈ Ptr.head fd :: members key order fd,
      next' u = next u ∧ prev' u = prev u := by
    intro fd u hu
    rcases List.mem_cons.mp hu with rfl | hu
    · exact hhead fd
    · obtain ⟨e, he, -, rfl⟩ := (mem_members).mp hu
      exact hcell e he
  constructor
  · intro fd hfd
    rw [(hhead fd).1] at hfd
    exact (h.ring fd hfd).congr (fun u hu => (hboth fd u hu).1) (fun u hu => (hboth fd u hu).2)
  · intro fd hfd
    rw [(hhead fd).1] at hfd
    rw [(hhead fd).2]
    exact h.closed fd hfd

/-- The links of another cell may be cleared. -/
theorem Lists.clear (h : Lists next prev key order) {e : Entry}
    (hne : ∀ x ∈ order, x.ptr ≠ e.ptr) :
    Lists (update next e.ptr .null) (update prev e.ptr .null) key order := by
  refine h.congr (fun fd => ?_) (fun x hx => ?_)
  · exact ⟨Function.update_of_ne (e.ptr_ne_head fd).symm _ _,
      Function.update_of_ne (e.ptr_ne_head fd).symm _ _⟩
  · exact ⟨Function.update_of_ne (hne x hx) _ _, Function.update_of_ne (hne x hx) _ _⟩

/-- The head of the list of an entry is not zero. -/
theorem Lists.head_ne_null (h : Lists next prev key order) {e : Entry} (he : e ∈ order) :
    next (.head (key e)) ≠ .null := by
  intro hnull
  have hmem : e.ptr ∈ members key order (key e) := (mem_members).mpr ⟨e, he, rfl, rfl⟩
  rw [(h.closed _ hnull).2] at hmem
  exact List.not_mem_nil hmem

/-- Bridging over a member of a ring, whose cells can be accessed. -/
theorem bridge_eq {valid : Ptr → Bool} {H x : Ptr} {xs : List Ptr} (h : Ring next prev H xs)
    (hx : x ∈ xs) (hv : ∀ u ∈ H :: xs, valid u) :
    bridge valid next prev x =
      .ok (update next (prev x) (next x), update prev (next x) (prev x)) := by
  obtain ⟨⟨hn, hnx⟩, hp, -⟩ := h.neighbours hx
  have hself : update prev (next x) (prev x) x = prev x := Function.update_of_ne hnx.symm _ _
  simp only [bridge, require_ok (hv _ hn), ok_bind, hself, require_ok (hv _ hp), pure_eq_ok]

/-- **An entry leaves its list.** -/
theorem Lists.unlink {valid : Ptr → Bool} (h : Lists next prev key order)
    (hnodup : (order.map Entry.addr).Nodup) (hv : Accessible valid key order) {e : Entry}
    (he : e ∈ order) :
    ∃ next' prev', unlink valid next prev e.ptr = .ok (next', prev') ∧
      Lists next' prev' key (without order e.addr) ∧
      (∀ fd, next' (.head fd) = .null ↔ next (.head fd) = .null) ∧
      ∀ u ∉ Ptr.head (key e) :: members key order (key e), next' u = next u := by
  have hring := h.ring (key e) (h.head_ne_null he)
  have hmem : e.ptr ∈ members key order (key e) := (mem_members).mpr ⟨e, he, rfl, rfl⟩
  obtain ⟨⟨hn, -⟩, -⟩ := hring.neighbours hmem
  have hbridge := bridge_eq hring hmem (fun u hu => hv.ring (hv.keys e he) hu)
  have hframe : ∀ fd ≠ key e, ∀ u ∈ Ptr.head fd :: members key order fd, _ := fun fd hfd u hu =>
    hring.unlink_frame hmem .null (notMem_members_of_ne hnodup hfd hu)
  have hafter := hring.unlink hmem .null
  have hheads : ∀ fd, update (update next (prev e.ptr) (next e.ptr)) e.ptr .null (.head fd) =
      .null ↔ next (.head fd) = .null := by
    intro fd
    by_cases hfd : fd = key e
    · subst hfd
      have hend := hafter.ends_mem.1
      rw [← members_without hnodup] at hend
      exact iff_of_false (ne_null_of_mem_ring hend) (h.head_ne_null he)
    · rw [(hframe fd hfd _ List.mem_cons_self).1]
  refine ⟨update (update next (prev e.ptr) (next e.ptr)) e.ptr .null,
    update (update prev (next e.ptr) (prev e.ptr)) e.ptr .null, ?_, ⟨?_, ?_⟩, hheads,
    fun u hu => (hring.unlink_frame hmem .null hu).1⟩
  · simp only [MtprotoProxy.unlink, if_pos (ne_null_of_mem_ring hn), hbridge, ok_bind, pure_eq_ok]
  · intro fd hfd
    by_cases hkey : fd = key e
    · subst hkey
      rw [members_without hnodup]
      exact hafter
    · rw [members_without_of_ne hnodup he (Ne.symm hkey)]
      rw [Ne, hheads] at hfd
      exact (h.ring fd hfd).congr (fun u hu => (hframe fd hkey u hu).1)
        (fun u hu => (hframe fd hkey u hu).2)
  · intro fd hfd
    have hnull := (hheads fd).mp hfd
    have hkey : fd ≠ key e := fun heq => h.head_ne_null he (heq ▸ hnull)
    rw [members_without_of_ne hnodup he (Ne.symm hkey),
      (hframe fd hkey _ List.mem_cons_self).2]
    exact h.closed fd hnull

/-- **A new entry joins its list,** as the last one. -/
theorem Lists.linkLast {valid : Ptr → Bool} (h : Lists next prev key order)
    (hv : Accessible valid key order) {e : Entry} (hfresh : ∀ x ∈ order, x.addr ≠ e.addr)
    (hkey : key e < maxConnections) (hopen : next (.head (key e)) ≠ .null)
    (hnodup : (order.map Entry.addr).Nodup) :
    ∃ next' prev', linkLast valid next prev (.head (key e)) e.ptr = .ok (next', prev') ∧
      Lists next' prev' key (order ++ [e]) ∧
      (∀ fd, next' (.head fd) = .null ↔ next (.head fd) = .null) ∧
      ∀ u ∉ Ptr.head (key e) :: members key order (key e), u ≠ e.ptr → next' u = next u := by
  have hring := h.ring (key e) hopen
  have hout : ∀ fd, e.ptr ∉ Ptr.head fd :: members key order fd := by
    intro fd hmem
    rcases List.mem_cons.mp hmem with heq | hmem
    · exact e.ptr_ne_head _ heq
    · obtain ⟨x, hx, -, heq⟩ := (mem_members).mp hmem
      exact hfresh x hx ((Entry.ptr_inj).mp heq)
  have hlast := hring.ends_mem.2
  have hlaste : prev (.head (key e)) ≠ e.ptr := fun heq => hout _ (heq ▸ hlast)
  have hhe : Ptr.head (key e) ≠ e.ptr := (e.ptr_ne_head _).symm
  have hframe : ∀ fd ≠ key e, ∀ u ∈ Ptr.head fd :: members key order fd, _ := fun fd hfd u hu =>
    hring.insert_frame (notMem_members_of_ne hnodup hfd hu)
      (fun heq : u = e.ptr => hout fd (heq ▸ hu))
  have hafter := hring.insert (hout (key e))
  have hheads : ∀ fd, update (update next (prev (.head (key e))) e.ptr) e.ptr (.head (key e))
      (.head fd) = .null ↔ next (.head fd) = .null := by
    intro fd
    by_cases hfd : fd = key e
    · subst hfd
      have hend := hafter.ends_mem.1
      have hmembers : members key (order ++ [e]) (key e) = members key order (key e) ++ [e.ptr] := by
        rw [members_append, if_pos rfl]
      rw [← hmembers] at hend
      exact iff_of_false (ne_null_of_mem_ring hend) hopen
    · rw [(hframe fd hfd _ List.mem_cons_self).1]
  refine ⟨update (update next (prev (.head (key e))) e.ptr) e.ptr (.head (key e)),
    update (update prev e.ptr (prev (.head (key e)))) (.head (key e)) e.ptr, ?_, ⟨?_, ?_⟩, hheads,
    fun u hu hue => (hring.insert_frame hu hue).1⟩
  · have hprev : update prev e.ptr (prev (.head (key e))) (.head (key e)) =
        prev (.head (key e)) := Function.update_of_ne hhe _ _
    simp only [MtprotoProxy.linkLast, hprev, require_ok (hv.ring hkey hlast), ok_bind, pure_eq_ok]
    rw [Function.update_comm hlaste]
  · intro fd hfd
    by_cases hkeyfd : fd = key e
    · subst hkeyfd
      rw [members_append, if_pos rfl]
      exact hafter
    · rw [members_append, if_neg (Ne.symm hkeyfd), List.append_nil]
      rw [Ne, hheads] at hfd
      exact (h.ring fd hfd).congr (fun u hu => (hframe fd hkeyfd u hu).1)
        (fun u hu => (hframe fd hkeyfd u hu).2)
  · intro fd hfd
    have hnull := (hheads fd).mp hfd
    have hkeyfd : fd ≠ key e := fun heq => hopen (heq ▸ hnull)
    rw [members_append, if_neg (Ne.symm hkeyfd), List.append_nil,
      (hframe fd hkeyfd _ List.mem_cons_self).2]
    exact h.closed fd hnull

/-- The links of one head are written: the lists of the other heads stay. -/
theorem Lists.setHead (h : Lists next prev key order) {fd : ℕ} (p : Ptr)
    (hempty : members key order fd = []) (hp : p = .null ∨ p = .head fd) :
    Lists (update next (.head fd) p) (update prev (.head fd) p) key order := by
  have hother : ∀ {f : Ptr → Ptr} {u : Ptr}, u ≠ .head fd → update f (.head fd) p u = f u :=
    fun hu => Function.update_of_ne hu _ _
  constructor
  · intro fd' hfd'
    by_cases heq : fd' = fd
    · subst heq
      rw [Function.update_self] at hfd'
      have hself : p = .head fd' := hp.resolve_left hfd'
      rw [hempty, ring_nil, Function.update_self, Function.update_self]
      exact ⟨hself, hself⟩
    · have hne : Ptr.head fd' ≠ .head fd := fun h' => heq (Ptr.head.inj h')
      rw [hother hne] at hfd'
      refine (h.ring fd' hfd').congr (fun u hu => hother ?_) (fun u hu => hother ?_) <;>
      · rcases List.mem_cons.mp hu with rfl | hu
        · exact hne
        · obtain ⟨e, -, -, rfl⟩ := (mem_members).mp hu
          exact e.ptr_ne_head fd
  · intro fd' hfd'
    by_cases heq : fd' = fd
    · subst heq
      rw [Function.update_self] at hfd' ⊢
      exact ⟨hfd', hempty⟩
    · have hne : Ptr.head fd' ≠ .head fd := fun h' => heq (Ptr.head.inj h')
      rw [hother hne] at hfd' ⊢
      exact h.closed fd' hfd'

/-! ## The list of least recently used entries -/

/-- **The list `ConnLRU`.** It is a ring of the entries of `lru`; the links of every other
live entry are zero. -/
structure LruList (next prev : Ptr → Ptr) (live lru : List ℕ) : Prop where
  ring : Ring next prev .lru (lru.map Ptr.node)
  loose : ∀ a ∈ live, a ∉ lru → next (.node a) = .null ∧ prev (.node a) = .null
  sub : ∀ a ∈ lru, a ∈ live

/-- The members of the list are different cells. -/
theorem LruList.nodup {live lru : List ℕ} (h : LruList next prev live lru) : lru.Nodup :=
  List.Nodup.of_map _ (List.nodup_cons.mp h.ring.nodup).2

/-- A cell that is on no list is cleared and no longer live. -/
theorem LruList.forget {live live' lru : List ℕ} (h : LruList next prev live lru) {a : ℕ}
    (ha : a ∉ lru) (hlive : ∀ b, b ∈ live' ↔ b ∈ live ∧ b ≠ a) :
    LruList (update next (.node a) .null) (update prev (.node a) .null) live' lru := by
  have hother : ∀ {f : Ptr → Ptr} {b : ℕ}, b ≠ a →
      update f (.node a) .null (.node b) = f (.node b) := fun hb =>
    Function.update_of_ne (fun heq => hb (Ptr.node.inj heq)) _ _
  have hring : ∀ {f : Ptr → Ptr}, ∀ u ∈ Ptr.lru :: lru.map Ptr.node,
      update f (.node a) .null u = f u := by
    intro f u hu
    rcases List.mem_cons.mp hu with rfl | hu
    · exact Function.update_of_ne (by simp) _ _
    · obtain ⟨b, hb, rfl⟩ := List.mem_map.mp hu
      exact hother (ne_of_mem_of_not_mem hb ha)
  refine ⟨h.ring.congr hring hring, ?_, ?_⟩
  · intro b hb hlru
    obtain ⟨hb, hba⟩ := (hlive b).mp hb
    rw [hother hba, hother hba]
    exact h.loose b hb hlru
  · intro b hb
    exact (hlive b).mpr ⟨h.sub b hb, ne_of_mem_of_not_mem hb ha⟩

/-- A cleared cell becomes live; it is on no list. -/
theorem LruList.join {live lru : List ℕ} (h : LruList next prev live lru) {a : ℕ}
    (ha : a ∉ live) :
    LruList (update next (.node a) .null) (update prev (.node a) .null) (a :: live) lru := by
  have hlru : a ∉ lru := fun hin => ha (h.sub a hin)
  have hkeep : ∀ b, b ∈ live ↔ b ∈ live ∧ b ≠ a := fun b =>
    ⟨fun hb => ⟨hb, ne_of_mem_of_not_mem hb ha⟩, fun hb => hb.1⟩
  have hforget := h.forget hlru hkeep
  refine ⟨hforget.ring, ?_, fun b hb => List.mem_cons_of_mem _ (h.sub b hb)⟩
  intro b hb hout
  rcases List.mem_cons.mp hb with rfl | hb
  · simp
  · exact hforget.loose b hb hout

/-- A cell of the list has a successor that is not zero. -/
theorem LruList.next_ne_null {live lru : List ℕ} (h : LruList next prev live lru) {a : ℕ}
    (ha : a ∈ lru) : next (.node a) ≠ .null := by
  have hmem := (h.ring.neighbours (List.mem_map_of_mem ha)).1.1
  rcases List.mem_cons.mp hmem with heq | hmem
  · rw [heq]; exact nofun
  · obtain ⟨b, -, heq⟩ := List.mem_map.mp hmem
    rw [← heq]; exact nofun

/-- The links after `lru_delete_ext_conn`. -/
theorem LruList.delete {s : ExtTables} {live lru : List ℕ}
    (h : LruList s.lruNext s.lruPrev live lru) (hlive : ∀ a ∈ live, s.allocated a = true)
    {a : ℕ} (ha : a ∈ live) :
    ∃ next' prev', lruDeleteExtConn s (.node a) =
        .ok { s with lruNext := next', lruPrev := prev' } ∧
      LruList next' prev' live (lru.erase a) := by
  have hva : s.valid (.node a) = true := hlive a ha
  by_cases hmem : a ∈ lru
  · have hx : Ptr.node a ∈ lru.map Ptr.node := List.mem_map_of_mem hmem
    have hbridge (hv : ∀ u ∈ Ptr.lru :: lru.map Ptr.node, s.valid u = true) :=
      bridge_eq h.ring hx hv
    have hbridge := hbridge ?_
    · have hafter := h.ring.unlink hx .null
      have herase : (lru.map Ptr.node).erase (Ptr.node a) = (lru.erase a).map Ptr.node :=
        (List.map_erase (fun _ _ => Ptr.node.inj) lru).symm
      rw [herase] at hafter
      refine ⟨update (update s.lruNext (s.lruPrev (.node a)) (s.lruNext (.node a))) (.node a) .null,
        update (update s.lruPrev (s.lruNext (.node a)) (s.lruPrev (.node a))) (.node a) .null,
        ?_, hafter, ?_, ?_⟩
      · simp only [lruDeleteExtConn, require_ok hva, ok_bind, if_pos (h.next_ne_null hmem),
          hbridge, pure_eq_ok]
      · intro b hb hout
        by_cases hba : b = a
        · subst hba
          simp
        · have hb' : b ∉ lru := fun hin => hout ((List.mem_erase_of_ne hba).mpr hin)
          have hframe := h.ring.unlink_frame hx .null (u := .node b) ?_
          · rw [hframe.1, hframe.2]
            exact h.loose b hb hb'
          · simp [hb']
      · exact fun b hb => h.sub b (List.mem_of_mem_erase hb)
    · intro u hu
      rcases List.mem_cons.mp hu with rfl | hu
      · rfl
      · obtain ⟨b, hb, rfl⟩ := List.mem_map.mp hu
        exact hlive b (h.sub b hb)
  · obtain ⟨hn, hp⟩ := h.loose a ha hmem
    refine ⟨update s.lruNext (.node a) .null, update s.lruPrev (.node a) .null, ?_, ?_⟩
    · simp only [lruDeleteExtConn, require_ok hva, ok_bind, hn, ne_eq, not_true_eq_false,
        if_false, pure_eq_ok]
    · rw [List.erase_of_not_mem hmem, ← hn, Function.update_eq_self, hn, ← hp,
        Function.update_eq_self]
      exact h

/-- The links after `lru_insert_ext_conn`. -/
theorem LruList.insert {s : ExtTables} {live lru : List ℕ}
    (h : LruList s.lruNext s.lruPrev live lru) (hlive : ∀ a ∈ live, s.allocated a = true)
    {a : ℕ} (ha : a ∈ live) :
    ∃ next' prev', lruInsertExtConn s (.node a) =
        .ok { s with lruNext := next', lruPrev := prev' } ∧
      LruList next' prev' live (lru.erase a ++ [a]) := by
  obtain ⟨next₁, prev₁, hdelete, h₁⟩ := h.delete hlive ha
  have hout : a ∉ lru.erase a := h.nodup.not_mem_erase
  have hx : Ptr.node a ∉ Ptr.lru :: (lru.erase a).map Ptr.node := by simp [hout]
  have hlast := h₁.ring.ends_mem.2
  have hlasta : prev₁ .lru ≠ .node a := fun heq => hx (heq ▸ hlast)
  have hvalid : s.valid (prev₁ .lru) = true := by
    rcases List.mem_cons.mp hlast with heq | hmem
    · rw [heq]; rfl
    · obtain ⟨b, hb, heq⟩ := List.mem_map.mp hmem
      rw [← heq]
      exact hlive b (h₁.sub b hb)
  have hafter := h₁.ring.insert hx
  refine ⟨update (update next₁ (prev₁ .lru) (.node a)) (.node a) .lru,
    update (update prev₁ (.node a) (prev₁ .lru)) .lru (.node a), ?_, ?_, ?_, ?_⟩
  · have hself : update (update prev₁ (.node a) (prev₁ .lru)) .lru (.node a) (.node a) =
        prev₁ .lru := by
      rw [Function.update_of_ne (by simp), Function.update_self]
    simp only [lruInsertExtConn, hdelete, ok_bind, Function.update_self, hself]
    rw [require_ok (show ({ s with lruNext := next₁, lruPrev := prev₁ } : ExtTables).valid
      (prev₁ .lru) = true from hvalid)]
    simp only [ok_bind, pure_eq_ok]
    rw [Function.update_comm hlasta]
  · rw [List.map_append]
    exact hafter
  · intro b hb hnot
    have hb' : b ∉ lru.erase a := fun hin => hnot (List.mem_append_left _ hin)
    have hba : b ≠ a := fun heq => hnot (heq ▸ by simp)
    have hframe := h₁.ring.insert_frame (x := .node a) (u := .node b) (by simp [hb'])
      (by simp [hba])
    rw [hframe.1, hframe.2]
    exact h₁.loose b hb hb'
  · intro b hb
    rcases List.mem_append.mp hb with hb | hb
    · exact h₁.sub b hb
    · rw [List.mem_singleton.mp hb]
      exact ha

end MtprotoProxy
