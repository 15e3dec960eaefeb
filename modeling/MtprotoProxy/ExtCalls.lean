/-
# Runs of calls on the tables of external connections

The calls that the proxy makes on its tables, in any order: creating and removing entries,
looking them up, moving them on `ConnLRU`, middle-ends that become ready and close, clients
that close.  `Registry.step` says what such a call is for, and is defined for the calls that
the proxy makes: an entry is created only for a descriptor without one and only for a
middle-end that is ready, and a middle-end becomes ready only on a descriptor whose last
middle-end was closed.

The main result is that the memory of the program follows the registry over every run, so
that no assertion fails and all five structures stay consistent.
-/
import MtprotoProxy.ExtEngineSpecs
import MtprotoProxy.Runs

namespace MtprotoProxy

open Function (update)

/-! ## Calls -/

/-- A call on the tables. -/
inductive ExtCall where
  /-- `create_ext_connection`; `calloc` returns the cell `a`, and `lrand48` the values `rands` -/
  | create (CI : ConnRef) (inConnId : Int64) (CO : Option ConnRef) (authKeyId : Int64) (a : ℕ)
    (rands : List ℕ)
  /-- `remove_ext_connection` of the entry in the cell `a` -/
  | remove (a : ℕ) (sendNotifications : ℕ)
  /-- `find_ext_connection_by_out_conn_id` -/
  | find (outConnId : Int64)
  /-- `get_ext_connection_by_in_fd` -/
  | findByInFd (fd : ℕ)
  /-- `get_ext_connection_by_in_conn_id` with `mode` 0 -/
  | findByInConnId (fd : ℕ) (inGen : ℤ) (inConnId : Int64)
  /-- `lru_insert_conn`, also as `mtproto_ext_rpc_ready` -/
  | lruInsert (c : ConnRef)
  /-- `lru_delete_conn` -/
  | lruDelete (c : ConnRef)
  /-- a round of `check_all_conn_buffers` -/
  | lruEvict
  | mtfrontClientReady (C : ConnRef)
  | mtfrontClientClose (C : ConnRef)
  | mtprotoExtRpcClose (C : ConnRef)

/-- A call of the engine thread, while the network shows `net`. -/
def Engine.call (net : Net) (e : Engine) : ExtCall → Except Fault Engine
  | .create CI inConnId CO authKeyId a rands => do
    let (_, t) ← createExtConnection e.tables CI inConnId CO authKeyId a rands
    return { e with tables := t }
  | .remove a sendNotifications => removeExtConnection net e (.node a) sendNotifications
  | .find outConnId => do
    let _ ← findExtConnectionByOutConnId e.tables outConnId
    return e
  | .findByInFd fd => do
    let _ ← getExtConnectionByInFd e.tables fd
    return e
  | .findByInConnId fd inGen inConnId => do
    let (_, t) ← getExtConnectionByInConnId e.tables fd inGen inConnId 0 0 []
    return { e with tables := t }
  | .lruInsert c => lruInsertConn e c
  | .lruDelete c => lruDeleteConn e c
  | .lruEvict => evictLeastRecent net e
  | .mtfrontClientReady C => MtprotoProxy.mtfrontClientReady e C
  | .mtfrontClientClose C => MtprotoProxy.mtfrontClientClose net e C
  | .mtprotoExtRpcClose C => MtprotoProxy.mtprotoExtRpcClose net e C

/-- A sequence of calls; the network may show something else at each of them. -/
def Engine.calls (e : Engine) : List (Net × ExtCall) → Except Fault Engine
  | [] => .ok e
  | (net, c) :: cs => do
    let e ← e.call net c
    Engine.calls e cs

/-! ## What the calls are for -/

/-- The registry after a call; none if the proxy does not make the call. -/
def Registry.step (r : Registry) : ExtCall → Option Registry
  | .create CI inConnId (some CO) authKeyId a _ =>
    if inConnId = 0 ∧ r.byInFd CI.fd = none ∧ r.ready CO.fd = some CO ∧ CO ≠ CI ∧
        (∀ x ∈ r.entries, x.addr ≠ a) then
      some (r.add (createdEntry r CI 0 (some CO) authKeyId a CI.fd))
    else
      none
  | .create _ _ none _ _ _ => none
  | .remove a _ => if ∃ x ∈ r.entries, x.addr = a then some (r.remove a) else none
  | .find _ => some r
  | .findByInFd fd => if fd < maxConnections then some r else none
  | .findByInConnId _ _ _ => some r
  | .lruInsert c => some (r.touch c)
  | .lruDelete c => some (r.untouch c)
  | .lruEvict => some { r with lru := r.lru.tail }
  | .mtfrontClientReady C => if r.ready C.fd = none then some (r.setReady C.fd (some C)) else none
  | .mtfrontClientClose C =>
    if r.ready C.fd = some C then some ((r.closeOut C.fd).setReady C.fd none) else some r
  | .mtprotoExtRpcClose C =>
    match r.byInFd C.fd with
    | some x => some (r.remove x.addr)
    | none => some r

/-- The registry after a sequence of calls that the proxy may make. -/
def Registry.run (r : Registry) (calls : List (Net × ExtCall)) : Option Registry :=
  Runs.run (fun r (c : Net × ExtCall) => r.step c.2) r calls

section

variable {e : Engine} {r r' : Registry}

/-! ## One call -/

/-- A registry with some of the entries is still one of the proxy. -/
theorem Registry.Proxied.sub (h : r.Proxied) (hsub : ∀ x ∈ r'.entries, x ∈ r.entries) :
    r'.Proxied :=
  ⟨fun x hx => h.inConnId x (hsub x hx), fun x hx => h.outFd x (hsub x hx),
    fun x hx => h.slot x (hsub x hx)⟩

theorem Registry.Proxied.remove (h : r.Proxied) (a : ℕ) : (r.remove a).Proxied :=
  h.sub (fun _ hx => (mem_without.mp hx).1)

/-- Entries that are bound have a middle-end at their slot's descriptor. -/
theorem chooseSlot_proxied {s : ExtTables} (h : Represents s r) (hp : r.Proxied) {CI : ConnRef}
    (hnone : r.byInFd CI.fd = none) (rands : List ℕ) : chooseSlot s CI.fd 0 rands = .ok CI.fd := by
  have hlt : CI.fd < extConnTableSize := by
    have hfd := CI.fd_lt
    simp only [maxConnections, extConnTableSize] at hfd ⊢
    omega
  have hfree : (s.outExtConnections CI.fd).ref = .null := by
    refine h.emptySlots CI.fd (fun x hx heq => ?_)
    rw [hp.slot x hx] at heq
    exact Registry.byInFd_eq_none.mp hnone x hx heq
  unfold chooseSlot
  rw [if_neg (by simp)]
  cases rands with
  | nil => rw [findSlot, Nat.mod_eq_of_lt hlt, if_pos hfree]
  | cons d rands => rw [findSlot, Nat.mod_eq_of_lt hlt, if_pos hfree]

/-- **A client gets the slot of its descriptor,** so that creating an entry succeeds. -/
theorem Tracks.create (h : Tracks e r) (hp : r.Proxied) {CI CO : ConnRef} (authKeyId : Int64)
    {a : ℕ} (rands : List ℕ) (hnone : r.byInFd CI.fd = none) (hready : r.ready CO.fd = some CO)
    (hne : CO ≠ CI) (ha : ∀ x ∈ r.entries, x.addr ≠ a) :
    ∃ t, createExtConnection e.tables CI 0 (some CO) authKeyId a rands = .ok (.node a, t) ∧
      Represents t (r.add (createdEntry r CI 0 (some CO) authKeyId a CI.fd)) ∧
      (r.add (createdEntry r CI 0 (some CO) authKeyId a CI.fd)).Proxied := by
  have hslot := chooseSlot_proxied h.tables hp hnone rands
  have hlt := (chooseSlot_ok hslot).1
  have hid : slotId CI.fd (r.uses CI.fd + 1) ≠ 0 :=
    slotId_ne_zero hlt (Nat.succ_pos _) CI.fd_pos
  have hopen : ∀ C, some CO = some C → r.ready C.fd ≠ none ∧ C ≠ CI := by
    rintro C ⟨⟩
    exact ⟨by simp [hready], hne⟩
  obtain ⟨t, hcreate, hrep⟩ : ∃ t,
      createExtConnection e.tables CI 0 (some CO) authKeyId a rands = .ok (.node a, t) ∧
        Represents t (r.add (createdEntry r CI 0 (some CO) authKeyId a CI.fd)) :=
    h.tables.create hnone hopen ha hslot hid
  refine ⟨t, hcreate, hrep, ?_⟩
  constructor
  · exact List.forall_mem_cons.mpr ⟨rfl, hp.inConnId⟩
  · exact List.forall_mem_cons.mpr ⟨CO.fd_pos.ne', hp.outFd⟩
  · exact List.forall_mem_cons.mpr ⟨slotOf_slotId hlt (Nat.succ_pos _), hp.slot⟩

/-- **One call:** it succeeds and does to the memory what it is for. -/
theorem Tracks.call (net : Net) (h : Tracks e r) (hp : r.Proxied) {c : ExtCall}
    (hstep : r.step c = some r') :
    ∃ e', e.call net c = .ok e' ∧ Tracks e' r' ∧ r'.Proxied := by
  cases c with
  | create CI inConnId CO authKeyId a rands =>
    obtain _ | CO := CO
    · exact absurd hstep nofun
    simp only [Registry.step] at hstep
    split at hstep
    case isTrue hlegal =>
      obtain ⟨rfl, hnone, hready, hne, ha⟩ := hlegal
      obtain ⟨t, hcreate, hrep, hproxied⟩ := h.create hp authKeyId rands hnone hready hne ha
      obtain rfl := Option.some.inj hstep
      exact ⟨{ e with tables := t }, by simp only [Engine.call, hcreate, ok_bind, pure_eq_ok],
        ⟨hrep, h.tags⟩, hproxied⟩
    case isFalse => exact absurd hstep nofun
  | remove a n =>
    simp only [Registry.step] at hstep
    split at hstep
    case isTrue hlive =>
      obtain ⟨x, hx, rfl⟩ := hlive
      obtain ⟨t, hremove, hrep⟩ := h.remove net hx (n := n) (fun _ => hp.inConnId x hx)
      cases hstep
      exact ⟨_, hremove, ⟨hrep, h.tags⟩, hp.remove _⟩
    case isFalse => exact absurd hstep nofun
  | find id =>
    cases hstep
    exact ⟨e, by simp only [Engine.call, h.tables.find, ok_bind, pure_eq_ok], h, hp⟩
  | findByInFd fd =>
    simp only [Registry.step] at hstep
    split at hstep
    case isTrue hfd =>
      cases hstep
      exact ⟨e, by simp only [Engine.call, h.tables.getByInFd hfd, ok_bind, pure_eq_ok], h, hp⟩
    case isFalse => exact absurd hstep nofun
  | findByInConnId fd inGen inConnId =>
    cases hstep
    obtain ⟨res, hlookup⟩ := h.tables.lookup_find fd inGen inConnId
    exact ⟨e, by simp only [Engine.call, hlookup, ok_bind, pure_eq_ok], h, hp⟩
  | lruInsert c =>
    cases hstep
    obtain ⟨t, hinsert, hrep⟩ := h.lruInsertConn c
    exact ⟨_, hinsert, ⟨hrep, by rw [r.touch_ready]; exact h.tags⟩,
      hp.sub (fun x hx => by rwa [r.touch_entries] at hx)⟩
  | lruDelete c =>
    cases hstep
    obtain ⟨t, hdelete, hrep⟩ := h.lruDeleteConn c
    exact ⟨_, hdelete, ⟨hrep, by rw [r.untouch_ready]; exact h.tags⟩,
      hp.sub (fun x hx => by rwa [r.untouch_entries] at hx)⟩
  | lruEvict =>
    cases hstep
    obtain ⟨t, xs, hevict, hrep⟩ := h.evict net
    exact ⟨_, hevict, ⟨hrep, h.tags⟩, hp.sub (fun x hx => hx)⟩
  | mtfrontClientReady C =>
    simp only [Registry.step] at hstep
    split at hstep
    case isTrue hnone =>
      cases hstep
      obtain ⟨e', hready, htracks, -, -⟩ := h.clientReady hnone
      exact ⟨e', hready, htracks, hp.sub (fun x hx => hx)⟩
    case isFalse => exact absurd hstep nofun
  | mtfrontClientClose C =>
    simp only [Registry.step] at hstep
    split at hstep
    case isTrue hready =>
      cases hstep
      obtain ⟨e', hclose, htracks, -, -⟩ := h.clientClose net hready
        (fun x hx _ => hp.inConnId x hx)
      exact ⟨e', hclose, htracks, hp.sub (fun x hx => (List.mem_filter.mp hx).1)⟩
    case isFalse hready =>
      cases hstep
      exact ⟨e, h.clientClose_of_not_ready net hready, h, hp⟩
  | mtprotoExtRpcClose C =>
    obtain ⟨e', hclose, hcase, -⟩ := h.extRpcClose net C
    simp only [Registry.step] at hstep
    cases hfind : r.byInFd C.fd with
    | none =>
      simp only [hfind] at hstep hcase
      cases hstep
      exact ⟨e', hclose, hcase ▸ h, hp⟩
    | some x =>
      simp only [hfind] at hstep hcase
      cases hstep
      exact ⟨e', hclose, hcase.1, hp.remove _⟩

/-! ## Runs of calls -/

/-- **The memory follows the registry over every run of calls.** -/
theorem Tracks.calls : ∀ {cs : List (Net × ExtCall)} {e : Engine} {r r' : Registry},
    Tracks e r → r.Proxied → r.run cs = some r' →
    ∃ e', e.calls cs = .ok e' ∧ Tracks e' r' ∧ r'.Proxied := by
  intro cs
  induction cs with
  | nil =>
    rintro e r r' h hp ⟨⟩
    exact ⟨e, rfl, h, hp⟩
  | cons c cs ih =>
    intro e r r' h hp hrun
    obtain ⟨r₁, hstep, hrest⟩ := Runs.run_cons.mp hrun
    obtain ⟨e₁, hcall, h₁, hp₁⟩ := h.call c.1 hp hstep
    obtain ⟨e', hcalls, hfinal⟩ := ih h₁ hp₁ hrest
    refine ⟨e', ?_, hfinal⟩
    simp only [Engine.calls, hcall, ok_bind, hcalls]

/-- **No assertion fails, and all five structures stay consistent:** over every sequence of
calls as the proxy makes them, the calls succeed and the tables hold exactly the registry. -/
theorem tables_represent_registry (cs : List (Net × ExtCall)) (r : Registry)
    (hrun : Registry.empty.run cs = some r) :
    ∃ e, Engine.init.calls cs = .ok e ∧ Represents e.tables r := by
  obtain ⟨e, hcalls, htracks, -⟩ := tracks_init.calls proxied_empty hrun
  exact ⟨e, hcalls, htracks.tables⟩

/-! ## A sample run -/

/-- A client. -/
def sampleClient : ConnRef := ⟨7, 3, by decide, by decide⟩

/-- A middle-end. -/
def sampleMiddleEnd : ConnRef := ⟨5, 1, by decide, by decide⟩

/-- A network that shows these two. -/
def sampleNet : Net where
  byFd := fun fd => if fd = 7 then some sampleClient else if fd = 5 then some sampleMiddleEnd else none
  byFd_fd := by
    intro fd c h
    -- the descriptor decides which of the two is shown
    split at h
    case isTrue h7 =>
      obtain rfl := Option.some.inj h
      exact h7.symm
    case isFalse =>
      split at h
      case isTrue h5 =>
        obtain rfl := Option.some.inj h
        exact h5.symm
      case isFalse => exact absurd h nofun
  kind := fun _ => .extServer
  hasTarget := fun _ => true
  isCompact := fun _ => false
  isPadded := fun _ => false
  overfull := fun _ => false
  overfullAfter := fun _ => false
  awaitsHttp := fun _ => false
  remoteIpPort := fun _ => List.replicate 20 0
  ourIpPort := fun _ => List.replicate 20 0
  proxyTagSet := false
  extra := fun _ => []

/-- A middle-end becomes ready, a client gets an entry and closes. -/
def sampleCalls : List (Net × ExtCall) :=
  [(sampleNet, .mtfrontClientReady sampleMiddleEnd),
    (sampleNet, .create sampleClient 0 (some sampleMiddleEnd) 9 0 []),
    (sampleNet, .lruInsert sampleClient),
    (sampleNet, .find (slotId 7 1)),
    (sampleNet, .mtprotoExtRpcClose sampleClient),
    (sampleNet, .create sampleClient 0 (some sampleMiddleEnd) 9 0 []),
    (sampleNet, .remove 0 2),
    (sampleNet, .mtfrontClientClose sampleMiddleEnd)]

theorem tables_represent_registry_sample :
    ∃ r, Registry.empty.run sampleCalls = some r ∧ r.uses 7 = 2 ∧
      ∃ e, Engine.init.calls sampleCalls = .ok e ∧ Represents e.tables r := by
  have hrun : (Registry.empty.run sampleCalls).map (fun r => r.uses 7) = some 2 := by decide +kernel
  obtain ⟨r, hr, huses⟩ := Option.map_eq_some_iff.mp hrun
  exact ⟨r, hr, huses, tables_represent_registry _ r hr⟩

end

end MtprotoProxy
