/-
# What the engine thread does to the registry

`Tracks e r` says that the state of the engine thread represents the registry `r`: the
tables do, and a connection carries a tag exactly when it is the middle-end that is ready
on its descriptor.  One lemma for each function of the engine thread says what happens to
the registry and which effects the call has.
-/
import MtprotoProxy.ExtSpecs
import MtprotoProxy.ExtEngine

namespace MtprotoProxy

open Function (update)
open Linked

/-- **The engine thread is in a state that represents this registry.** -/
structure Tracks (e : Engine) (r : Registry) : Prop where
  tables : Represents e.tables r
  tags : ∀ C, e.extraInt C = if r.ready C.fd = some C then getConnTag C else 0

/-- The entries that the proxy makes: it passes no `in_conn_id` and always a middle-end, so that
an entry gets the slot of its client descriptor. -/
structure Registry.Proxied (r : Registry) : Prop where
  inConnId : ∀ x ∈ r.entries, x.inConnId = 0
  outFd : ∀ x ∈ r.entries, x.outFd ≠ 0
  slot : ∀ x ∈ r.entries, Registry.slot x = x.inFd

/-- A tag is never zero. -/
theorem getConnTag_ne_zero (C : ConnRef) : getConnTag C ≠ 0 := by
  have h := Int.emod_nonneg C.generation (show (2 : ℤ) ^ 24 ≠ 0 by norm_num)
  unfold getConnTag
  omega

theorem ConnRef.ext_iff' {c d : ConnRef} :
    c = d ↔ c.fd = d.fd ∧ c.generation = d.generation := by
  cases c
  cases d
  simp

theorem tracks_init : Tracks .init .empty :=
  ⟨represents_init, fun C => by simp [Engine.init, Registry.empty]⟩

theorem proxied_empty : Registry.empty.Proxied := by
  constructor <;> simp [Registry.empty]

section

variable {e : Engine} {r : Registry}

/-- A connection carries its tag exactly when it is ready. -/
theorem Tracks.extraInt_eq_tag (h : Tracks e r) (C : ConnRef) :
    e.extraInt C = getConnTag C ↔ r.ready C.fd = some C := by
  rw [h.tags C]
  by_cases hr : r.ready C.fd = some C
  · simp [hr]
  · simp [hr, (getConnTag_ne_zero C).symm]

theorem Tracks.extraInt_ne_zero (h : Tracks e r) (C : ConnRef) :
    e.extraInt C ≠ 0 ↔ r.ready C.fd = some C := by
  rw [h.tags C]
  by_cases hr : r.ready C.fd = some C
  · simp [hr, getConnTag_ne_zero C]
  · simp [hr]

/-- Effects do not change what is represented. -/
theorem Tracks.emit (h : Tracks e r) (x : Effect) : Tracks (e.emit x) r := ⟨h.tables, h.tags⟩

@[simp] theorem Engine.emit_effects (e : Engine) (x : Effect) :
    (e.emit x).effects = e.effects ++ [x] := rfl

/-! ## Removing -/

/-- What a removal tells the middle-end of the entry. -/
def outputEffects (net : Net) (x : Entry) (sendNotifications : ℕ) : List Effect :=
  if x.outFd ≠ 0 ∧ sendNotifications.testBit 0 then
    ((connectionGetByFdGeneration net x.outFd x.outGen).map
      (fun CO => Effect.send CO (.closeConn x.outConnId))).toList
  else []

/-- What a removal does to the client of the entry. -/
def inputEffects (net : Net) (x : Entry) (sendNotifications : ℕ) : List Effect :=
  if sendNotifications.testBit 1 then
    ((connectionGetByFdGeneration net x.inFd x.inGen).map (fun CI => Effect.fail CI (-33))).toList
  else []

/-- The effects of removing an entry. -/
def removeEffects (net : Net) (x : Entry) (sendNotifications : ℕ) : List Effect :=
  outputEffects net x sendNotifications ++ inputEffects net x sendNotifications

/-- The notification of the middle-end. -/
theorem Tracks.notifyOutput (net : Net) (h : Tracks e r) {x : Entry} (hx : x ∈ r.entries) (n : ℕ) :
    notifyOutput net e x.ptr n = .ok { e with effects := e.effects ++ outputEffects net x n } := by
  have hcell := h.tables.fields x hx
  simp only [MtprotoProxy.notifyOutput, hcell.outFd, hcell.outGen, hcell.outConnId]
  by_cases hout : x.outFd = 0
  · simp [hout, outputEffects]
  · have hmem : x ∈ bound r.entries.reverse :=
      List.mem_filter.mpr ⟨List.mem_reverse.mpr hx, by simpa using hout⟩
    have hcellmem : x.ptr ∈ members Entry.outFd (bound r.entries.reverse) x.outFd :=
      mem_members.mpr ⟨x, hmem, rfl, rfl⟩
    have hring := h.tables.outputs.ring _ (h.tables.outputs.head_ne_null hmem)
    have ho : e.tables.oNext x.ptr ≠ .null :=
      ne_null_of_mem_ring (hring.neighbours hcellmem).1.1
    rw [if_pos hout, require_ok (h.tables.sound.outFd_lt hx hout), ok_bind, require_ok ho, ok_bind]
    by_cases hbit : n.testBit 0 = true
    · rw [if_pos hbit, outputEffects, if_pos ⟨hout, hbit⟩]
      cases connectionGetByFdGeneration net x.outFd x.outGen with
      | none => simp
      | some CO => rfl
    · rw [if_neg hbit, outputEffects, if_neg (fun hc => hbit hc.2)]
      simp

/-- The notification of the client. -/
theorem Tracks.notifyInput (net : Net) (h : Tracks e r) {x : Entry} (hx : x ∈ r.entries) {n : ℕ}
    (hn : n.testBit 1 = true → x.inConnId = 0) :
    notifyInput net e x.ptr n = .ok { e with effects := e.effects ++ inputEffects net x n } := by
  have hcell := h.tables.fields x hx
  have hpos := h.tables.sound.inFd_pos x hx
  have hi : e.tables.iNext x.ptr ≠ .null := by
    have hmem : x.ptr ∈ members Entry.inFd r.entries.reverse x.inFd :=
      mem_members.mpr ⟨x, List.mem_reverse.mpr hx, rfl, rfl⟩
    have hring := h.tables.inputs.ring _ (h.tables.inputs.head_ne_null (List.mem_reverse.mpr hx))
    exact ne_null_of_mem_ring (hring.neighbours hmem).1.1
  simp only [MtprotoProxy.notifyInput, hcell.inFd, hcell.inGen, hcell.inConnId]
  rw [if_pos (by omega), require_ok (h.tables.sound.inFd_lt x hx), ok_bind, require_ok hi, ok_bind]
  by_cases hbit : n.testBit 1 = true
  · rw [if_pos hbit, require_ok (hn hbit), ok_bind, inputEffects, if_pos hbit]
    cases connectionGetByFdGeneration net x.inFd x.inGen with
    | none => simp
    | some CI => rfl
  · rw [if_neg hbit, inputEffects, if_neg hbit]
    simp

/-- More effects do not change what is represented. -/
theorem Tracks.withEffects (h : Tracks e r) (xs : List Effect) :
    Tracks { e with effects := xs } r := ⟨h.tables, h.tags⟩

/-- **`remove_ext_connection` removes exactly the entry** and tells its two ends. -/
theorem Tracks.remove (net : Net) (h : Tracks e r) {x : Entry} (hx : x ∈ r.entries) {n : ℕ}
    (hn : n.testBit 1 = true → x.inConnId = 0) :
    ∃ t, removeExtConnection net e x.ptr n =
        .ok { e with tables := t, effects := e.effects ++ removeEffects net x n } ∧
      Represents t (r.remove x.addr) := by
  have hcell := h.tables.fields x hx
  obtain ⟨t, hlookup, hrep⟩ := h.tables.removeByInConnId hx x.inGen 0 []
  refine ⟨t, ?_, hrep⟩
  have hne : e.tables.outConnId x.ptr ≠ 0 := by
    rw [hcell.outConnId]
    exact h.tables.sound.ids_ne_zero x hx
  have hfind : findExtConnectionByOutConnId e.tables (e.tables.outConnId x.ptr) = .ok x.ptr := by
    rw [h.tables.find, hcell.outConnId, h.tables.sound.byOutConnId_eq hx]
    rfl
  simp only [removeExtConnection]
  rw [require_ok x.ptr_ne_null, ok_bind, require_ok (h.tables.valid hx), ok_bind, require_ok hne,
    ok_bind, hfind, ok_bind, require_ok rfl, ok_bind, h.notifyOutput net hx, ok_bind,
    (h.withEffects _).notifyInput net hx hn, ok_bind]
  simp only [hcell.inFd, hcell.inGen, hcell.inConnId, hlookup, ok_bind, removeEffects,
    List.append_assoc, pure_eq_ok]

/-! ## Middle-ends that come and go -/

/-- **`mtfront_client_ready`** makes the middle-end the ready one of its descriptor. -/
theorem Tracks.clientReady (h : Tracks e r) {C : ConnRef} (hnone : r.ready C.fd = none) :
    ∃ e', mtfrontClientReady e C = .ok e' ∧ Tracks e' (r.setReady C.fd (some C)) ∧
      e'.effects = e.effects ∧ e'.dropped = e.dropped := by
  have hzero : e.extraInt C = 0 := by
    rw [h.tags C, if_neg (by simp [hnone])]
  have hnull : e.tables.oNext (.head C.fd) = .null := by
    by_contra hne
    exact (h.tables.ready C.fd).mp hne hnone
  have hprev : e.tables.oPrev (.head C.fd) = .null := (h.tables.outputs.closed _ hnull).1
  have hempty : ∀ x ∈ r.entries, x.outFd ≠ C.fd := by
    intro x hx heq
    have hready := h.tables.sound.bound x hx (heq ▸ C.fd_pos.ne')
    rw [heq] at hready
    exact hready hnone
  have hrep := h.tables.setHead (p := .head C.fd) (C := some C) hempty (Or.inr rfl) (by simp)
    (by rintro c ⟨⟩; rfl) C.fd
  simp only [mtfrontClientReady]
  rw [require_ok hzero, ok_bind, require_ok hprev, ok_bind]
  refine ⟨_, rfl, ⟨hrep, fun C' => ?_⟩, rfl, rfl⟩
  change update e.extraInt C (getConnTag C) C' = if update r.ready C.fd (some C) C'.fd = some C' then _ else 0
  by_cases hC : C' = C
  · subst hC
    rw [Function.update_self, Function.update_self, if_pos rfl]
  · rw [Function.update_of_ne hC, h.tags C']
    by_cases hfd : C'.fd = C.fd
    · rw [hfd, Function.update_self, if_neg (by simp [hnone]),
        if_neg (fun heq => hC (Option.some.inj heq).symm)]
    · rw [Function.update_of_ne hfd]

/-- The entries that are bound to the middle-end of a descriptor, oldest first. -/
def Registry.outs (r : Registry) (fd : ℕ) : List Entry :=
  r.entries.reverse.filter (fun x => x.outFd = fd)

/-- The registry without the entries that are bound to the middle-end of a descriptor. -/
def Registry.closeOut (r : Registry) (fd : ℕ) : Registry :=
  { r with
    entries := r.entries.filter (fun x => x.outFd ≠ fd)
    lru := r.lru.filter (fun a => ∀ x ∈ r.entries, x.addr = a → x.outFd ≠ fd) }

theorem Registry.mem_outs {fd : ℕ} {x : Entry} :
    x ∈ r.outs fd ↔ x ∈ r.entries ∧ x.outFd = fd := by
  simp [Registry.outs]

/-- Nothing is left to close. -/
theorem Registry.closeOut_of_nil {fd : ℕ} (h : r.outs fd = []) : r.closeOut fd = r := by
  have hne : ∀ x ∈ r.entries, x.outFd ≠ fd := by
    intro x hx heq
    have hmem := (Registry.mem_outs).mpr ⟨hx, heq⟩
    rw [h] at hmem
    exact List.not_mem_nil hmem
  have hentries : r.entries.filter (fun x => x.outFd ≠ fd) = r.entries :=
    List.filter_eq_self.mpr (fun x hx => by simpa using hne x hx)
  have hlru : r.lru.filter (fun a => ∀ x ∈ r.entries, x.addr = a → x.outFd ≠ fd) = r.lru :=
    List.filter_eq_self.mpr (fun a _ => by simpa using fun x hx _ => hne x hx)
  rw [Registry.closeOut, hentries, hlru]

/-- Closing one entry first does not matter. -/
theorem Registry.closeOut_remove {fd : ℕ} {x : Entry} (hlru : r.lru.Nodup) (hx : x ∈ r.entries)
    (hsound : r.Sound) (hfd : x.outFd = fd) : (r.remove x.addr).closeOut fd = r.closeOut fd := by
  have hentries : (r.remove x.addr).entries.filter (fun y => y.outFd ≠ fd) =
      r.entries.filter (fun y => y.outFd ≠ fd) := by
    rw [show (r.remove x.addr).entries = without r.entries x.addr from rfl, without, List.filter_filter]
    refine List.filter_congr (fun y hy => ?_)
    have himp : y.outFd ≠ fd → y.addr ≠ x.addr := fun hne heq =>
      hne (hsound.addr_inj hy hx heq ▸ hfd)
    by_cases hy' : y.outFd = fd
    · simp [hy']
    · simp [hy', himp hy']
  have hkept : (r.remove x.addr).lru.filter
        (fun a => ∀ y ∈ (r.remove x.addr).entries, y.addr = a → y.outFd ≠ fd) =
      r.lru.filter (fun a => ∀ y ∈ r.entries, y.addr = a → y.outFd ≠ fd) := by
    rw [show (r.remove x.addr).lru = r.lru.erase x.addr from rfl, hlru.erase_eq_filter, List.filter_filter]
    refine List.filter_congr (fun a _ => ?_)
    rw [Bool.eq_iff_iff]
    simp only [Bool.and_eq_true, decide_eq_true_eq, bne_iff_ne]
    constructor
    · rintro ⟨hall, hne⟩ y hy rfl
      exact hall y (mem_without.mpr ⟨hy, hne⟩) rfl
    · intro hall
      refine ⟨fun y hy => hall y (mem_without.mp hy).1, ?_⟩
      rintro rfl
      exact hall x hx rfl hfd
  rw [Registry.closeOut, Registry.closeOut, hentries, hkept]
  rfl

/-- The list of the middle-end of a descriptor, once an entry was removed. -/
theorem Registry.outs_remove {fd : ℕ} {x : Entry} {xs : List Entry} (hsound : r.Sound)
    (h : r.outs fd = x :: xs) : (r.remove x.addr).outs fd = xs := by
  have hfilter : (r.remove x.addr).outs fd = without (r.outs fd) x.addr := by
    rw [Registry.outs, show (r.remove x.addr).entries = without r.entries x.addr from rfl,
      without_reverse, without, without, Registry.outs, List.filter_filter, List.filter_filter]
    simp only [Bool.and_comm]
  have hnodup : ((r.outs fd).map Entry.addr).Nodup :=
    (List.filter_sublist.map Entry.addr).nodup hsound.addrs_reverse
  rw [h, List.map_cons, List.nodup_cons] at hnodup
  rw [hfilter, h, without, List.filter_cons_of_neg (by simp), List.filter_eq_self]
  intro y hy
  have hne : y.addr ≠ x.addr := fun heq => hnodup.1 (heq ▸ List.mem_map_of_mem hy)
  simpa using hne

/-- The ring of the middle-end of a descriptor. -/
theorem Represents.outs_ring {s : ExtTables} (h : Represents s r) {fd : ℕ} (hfd : 0 < fd)
    (hready : r.ready fd ≠ none) :
    Ring s.oNext s.oPrev (.head fd) ((r.outs fd).map Entry.ptr) := by
  have hring := h.outputs.ring fd ((h.ready fd).mpr hready)
  have hsame : members Entry.outFd (bound r.entries.reverse) fd = (r.outs fd).map Entry.ptr := by
    rw [members, bound, List.filter_filter, Registry.outs]
    congr 1
    refine List.filter_congr (fun x _ => ?_)
    by_cases hx : x.outFd = fd
    · simp [hx, hfd.ne']
    · simp [hx]
  rwa [hsame] at hring

/-- **The loop of `mtfront_client_close`** removes the entries of the list while it walks over
it: the successor that it remembers is the head of the list after the removal. -/
theorem Tracks.closeLoop (net : Net) {fd : ℕ} (hfd : 0 < fd) :
    ∀ {xs : List Entry} {e : Engine} {r : Registry} {fuel : ℕ}, Tracks e r → r.outs fd = xs →
      (∀ x ∈ xs, x.inConnId = 0) → r.ready fd ≠ none → xs.length < fuel →
      ∃ t, closeLoop net fd fuel e (e.tables.oNext (.head fd)) =
          .ok { e with tables := t, effects := e.effects ++ xs.flatMap (removeEffects net · 2) } ∧
        Represents t (r.closeOut fd) := by
  intro xs
  induction xs with
  | nil =>
    rintro e r (_ | fuel) h hxs - hready hfuel
    · simp at hfuel
    · have hring := h.tables.outs_ring hfd hready
      rw [hxs] at hring
      have hself : e.tables.oNext (.head fd) = .head fd := hring.segment.1
      refine ⟨e.tables, ?_, ?_⟩
      · rw [MtprotoProxy.closeLoop, if_pos hself]
        simp
      · rw [Registry.closeOut_of_nil hxs]
        exact h.tables
  | cons x xs ih =>
    rintro e r (_ | fuel) h hxs hzero hready hfuel
    · simp at hfuel
    · obtain ⟨hx, hxfd⟩ := (Registry.mem_outs).mp (hxs ▸ List.mem_cons_self : x ∈ r.outs fd)
      have hring := h.tables.outs_ring hfd hready
      rw [hxs] at hring
      obtain ⟨hfirst, -, hrest⟩ := hring.segment
      have houtFd : e.tables.outFd x.ptr = fd := by rw [(h.tables.fields x hx).outFd, hxfd]
      obtain ⟨t, hremove, hrep⟩ := h.remove net hx (n := 2) (fun _ => hzero x List.mem_cons_self)
      have hnext : e.tables.oNext x.ptr = t.oNext (.head fd) := by
        have hring' := hrep.outs_ring hfd hready
        rw [Registry.outs_remove h.tables.sound hxs] at hring'
        rw [hring'.next_head]
        cases xs with
        | nil => exact hrest.1
        | cons y ys => exact hrest.1
      have htracks : Tracks { e with
          tables := t
          effects := e.effects ++ removeEffects net x 2 } (r.remove x.addr) := ⟨hrep, h.tags⟩
      obtain ⟨t', hloop, hrep'⟩ := ih htracks (Registry.outs_remove h.tables.sound hxs)
        (fun y hy => hzero y (List.mem_cons_of_mem _ hy)) hready (Nat.lt_of_succ_lt_succ hfuel)
      refine ⟨t', ?_, ?_⟩
      · rw [MtprotoProxy.closeLoop, hfirst, if_neg (x.ptr_ne_head fd),
          require_ok (h.tables.valid hx), ok_bind]
        simp only [require_ok houtFd, ok_bind, hremove, hnext]
        rw [hloop]
        simp only [List.flatMap_cons, List.append_assoc]
      · rw [← Registry.closeOut_remove h.tables.lru.nodup hx h.tables.sound hxfd]
        exact hrep'

/-- **`mtfront_client_close`** of the ready middle-end removes all its entries. -/
theorem Tracks.clientClose (net : Net) (h : Tracks e r) {C : ConnRef} (hready : r.ready C.fd = some C)
    (hzero : ∀ x ∈ r.entries, x.outFd = C.fd → x.inConnId = 0) :
    ∃ e', mtfrontClientClose net e C = .ok e' ∧
      Tracks e' ((r.closeOut C.fd).setReady C.fd none) ∧
      e'.effects = e.effects ++ (r.outs C.fd).flatMap (removeEffects net · 2) ∧
      e'.dropped = e.dropped := by
  have htag := (h.extraInt_eq_tag C).mpr hready
  have hne : e.extraInt C ≠ 0 := (h.extraInt_ne_zero C).mpr hready
  have hsome : r.ready C.fd ≠ none := by simp [hready]
  have hopen := (h.tables.ready C.fd).mpr hsome
  have hfuel : (r.outs C.fd).length < e.tables.extConnections.toNat + 1 := by
    rw [h.tables.count, Int.toNat_natCast]
    have hle : (r.outs C.fd).length ≤ r.entries.reverse.length := List.length_filter_le _ _
    rw [List.length_reverse] at hle
    omega
  obtain ⟨t, hloop, hrep⟩ := Tracks.closeLoop net C.fd_pos h rfl
    (fun x hx => hzero x ((Registry.mem_outs).mp hx).1 ((Registry.mem_outs).mp hx).2) hsome hfuel
  have hempty : ∀ x ∈ (r.closeOut C.fd).entries, x.outFd ≠ C.fd := fun x hx => by
    simpa using (List.mem_filter.mp hx).2
  have houts : (r.closeOut C.fd).outs C.fd = [] := by
    rw [List.eq_nil_iff_forall_not_mem]
    intro x hx
    obtain ⟨hx, heq⟩ := (Registry.mem_outs).mp hx
    exact hempty x hx heq
  have hring := hrep.outs_ring C.fd_pos hsome
  rw [houts] at hring
  have hself : t.oNext (.head C.fd) = .head C.fd ∧ t.oPrev (.head C.fd) = .head C.fd :=
    hring.segment
  have hclosed := hrep.setHead (p := .null) (C := none) hempty (Or.inl rfl) (by simp) (by simp) 0
  simp only [mtfrontClientClose]
  rw [if_pos hne, require_ok htag, ok_bind, require_ok hopen, ok_bind, hloop, ok_bind]
  simp only [require_ok hself, ok_bind]
  refine ⟨_, rfl, ⟨hclosed, fun C' => ?_⟩, rfl, rfl⟩
  change update e.extraInt C 0 C' = if update r.ready C.fd none C'.fd = some C' then _ else 0
  by_cases hC : C' = C
  · subst hC
    rw [Function.update_self, Function.update_self, if_neg (by simp)]
  · rw [Function.update_of_ne hC, h.tags C']
    by_cases hfd : C'.fd = C.fd
    · rw [hfd, Function.update_self, hready, if_neg (by simpa using Ne.symm hC), if_neg (by simp)]
    · rw [Function.update_of_ne hfd]

/-- `mtfront_client_close` of a connection that is not ready changes nothing. -/
theorem Tracks.clientClose_of_not_ready (net : Net) (h : Tracks e r) {C : ConnRef}
    (hready : r.ready C.fd ≠ some C) : mtfrontClientClose net e C = .ok e := by
  have hzero : e.extraInt C = 0 := by
    by_contra hne
    exact hready ((h.extraInt_ne_zero C).mp hne)
  have hself : update e.extraInt C 0 = e.extraInt := by rw [← hzero, Function.update_eq_self]
  simp only [mtfrontClientClose]
  rw [if_neg (by simp [hzero]), pure_eq_ok, ok_bind, hself]
  rfl

/-! ## Clients that close, and the order of clients -/

/-- **`mtproto_ext_rpc_close`** removes the entry of the client descriptor, if there is one. -/
theorem Tracks.extRpcClose (net : Net) (h : Tracks e r) (C : ConnRef) :
    ∃ e', mtprotoExtRpcClose net e C = .ok e' ∧
      (match r.byInFd C.fd with
        | some x => Tracks e' (r.remove x.addr) ∧
            e'.effects = e.effects ++ removeEffects net x 1
        | none => e' = e) ∧ e'.dropped = e.dropped := by
  simp only [mtprotoExtRpcClose]
  rw [h.tables.getByInFd C.fd_lt, ok_bind]
  cases hfind : r.byInFd C.fd with
  | none => exact ⟨e, by simp [removeIfAny, ptrOf], rfl, rfl⟩
  | some x =>
    obtain ⟨hx, -⟩ := Registry.mem_of_byInFd hfind
    obtain ⟨t, hremove, hrep⟩ := h.remove net hx (n := 1) (fun hbit => absurd hbit (by decide))
    refine ⟨{ e with tables := t, effects := e.effects ++ removeEffects net x 1 }, ?_,
      ⟨⟨hrep, h.tags⟩, rfl⟩, rfl⟩
    rw [removeIfAny, ptrOf, if_pos x.ptr_ne_null, hremove]

/-- The registry after `lru_insert_conn`. -/
def Registry.touch (r : Registry) (c : ConnRef) : Registry :=
  match r.byInFd c.fd with
  | some x => if x.inGen = c.generation then { r with lru := r.lru.erase x.addr ++ [x.addr] } else r
  | none => r

/-- The registry after `lru_delete_conn`. -/
def Registry.untouch (r : Registry) (c : ConnRef) : Registry :=
  match r.byInFd c.fd with
  | some x => { r with lru := r.lru.erase x.addr }
  | none => r

@[simp] theorem Registry.touch_entries (r : Registry) (c : ConnRef) :
    (r.touch c).entries = r.entries := by
  unfold Registry.touch
  repeat' split
  all_goals rfl

@[simp] theorem Registry.touch_ready (r : Registry) (c : ConnRef) :
    (r.touch c).ready = r.ready := by
  unfold Registry.touch
  repeat' split
  all_goals rfl

@[simp] theorem Registry.untouch_entries (r : Registry) (c : ConnRef) :
    (r.untouch c).entries = r.entries := by
  unfold Registry.untouch
  split <;> rfl

@[simp] theorem Registry.untouch_ready (r : Registry) (c : ConnRef) :
    (r.untouch c).ready = r.ready := by
  unfold Registry.untouch
  split <;> rfl

/-- **`lru_insert_conn`** moves the client of this generation to the end of `ConnLRU`. -/
theorem Tracks.lruInsertConn (h : Tracks e r) (c : ConnRef) :
    ∃ t, lruInsertConn e c = .ok { e with tables := t } ∧ Represents t (r.touch c) := by
  simp only [MtprotoProxy.lruInsertConn, Registry.touch]
  rw [h.tables.getByInFd c.fd_lt, ok_bind]
  cases hfind : r.byInFd c.fd with
  | none => exact ⟨e.tables, by simp [ptrOf], h.tables⟩
  | some x =>
    obtain ⟨hx, hfd⟩ := Registry.mem_of_byInFd hfind
    have hcell := h.tables.fields x hx
    simp only [ptrOf, hcell.inFd, hcell.inGen, hfd, ne_eq, Entry.ptr_ne_null, not_false_eq_true,
      true_and]
    by_cases hgen : x.inGen = c.generation
    · obtain ⟨t, hinsert, hrep⟩ := h.tables.lruInsert (List.mem_map_of_mem hx)
      refine ⟨t, ?_, ?_⟩
      · rw [if_pos hgen, show lruInsertExtConn e.tables x.ptr = _ from hinsert]
        rfl
      · rw [if_pos hgen]
        exact hrep
    · rw [if_neg hgen, if_neg hgen]
      exact ⟨e.tables, rfl, h.tables⟩

/-- **`lru_delete_conn`** takes the client off `ConnLRU`. -/
theorem Tracks.lruDeleteConn (h : Tracks e r) (c : ConnRef) :
    ∃ t, lruDeleteConn e c = .ok { e with tables := t } ∧ Represents t (r.untouch c) := by
  simp only [MtprotoProxy.lruDeleteConn, Registry.untouch]
  rw [h.tables.getByInFd c.fd_lt, ok_bind]
  cases hfind : r.byInFd c.fd with
  | none => exact ⟨e.tables, by simp [ptrOf], h.tables⟩
  | some x =>
    obtain ⟨hx, hfd⟩ := Registry.mem_of_byInFd hfind
    have hcell := h.tables.fields x hx
    obtain ⟨t, hdelete, hrep⟩ := h.tables.lruDelete (List.mem_map_of_mem hx)
    refine ⟨t, ?_, hrep⟩
    simp only [ptrOf, hcell.inFd, hfd, ne_eq, Entry.ptr_ne_null, not_false_eq_true, and_self,
      if_true]
    rw [show lruDeleteExtConn e.tables x.ptr = _ from hdelete]
    rfl

/-- **A round of `check_all_conn_buffers`** takes the least recently used client off the list. -/
theorem Tracks.evict (net : Net) (h : Tracks e r) :
    ∃ t xs, evictLeastRecent net e = .ok { e with tables := t, effects := e.effects ++ xs } ∧
      Represents t { r with lru := r.lru.tail } := by
  have hring := h.tables.lru.ring
  have hfirst := hring.next_head
  simp only [evictLeastRecent]
  cases hlru : r.lru with
  | nil =>
    rw [hlru] at hfirst
    have hself : e.tables.lruNext .lru = .lru := hfirst
    refine ⟨e.tables, [], by simp [hself], ?_⟩
    rw [show ({ r with lru := ([] : List ℕ).tail } : Registry) = r by rw [List.tail_nil, ← hlru]]
    exact h.tables
  | cons a as =>
    rw [hlru] at hfirst
    have hnode : e.tables.lruNext .lru = .node a := hfirst
    have ha : a ∈ r.entries.map Entry.addr := h.tables.lru.sub a (by simp [hlru])
    obtain ⟨t, hdelete, hrep⟩ := h.tables.lruDelete ha
    rw [hlru, List.erase_cons_head] at hrep
    have hvalid : e.tables.valid (.node a) = true := h.tables.allocated a ha
    rw [hnode, if_pos (by simp), require_ok hvalid, ok_bind, hdelete, ok_bind]
    cases connectionGetByFdGeneration net (e.tables.inFd (.node a)) (e.tables.inGen (.node a)) with
    | none => exact ⟨t, [], by simp, hrep⟩
    | some d => exact ⟨t, [.fail d (-500)], rfl, hrep⟩

end

end MtprotoProxy
