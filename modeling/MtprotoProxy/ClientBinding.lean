/-
# Clients, jobs and notices in any order

The packets of a client travel to the engine thread as jobs of their own
(`ext_rpcs_execute`, `do_rpcs_execute`), the news that it closed travels through the queue of
`net/net-thread.c`.  Nothing orders the two.  This file is the machine of the engine thread
together with everything that is still in flight: events queue and run jobs and notices in any
order, middle-ends come, go and speak, and a descriptor is used again only after every job and
notice of its last connection was processed.

An entry belongs to the client it was created for as long as no packet of a client that was
already closed opens a binding.
-/
import MtprotoProxy.PacketForward
import MtprotoProxy.MiddleEndIsolation

namespace MtprotoProxy

open CLib

/-! ## The machine -/

/-- A packet on its way: `struct rpcs_exec_data`. -/
structure PacketJob where
  conn : ConnRef
  rpcFlags : ℕ
  data : Bytes
  deriving DecidableEq

/-- A notice on its way: `struct notification_event`. -/
inductive Notice where
  /-- `NEV_TCP_CONN_READY` -/
  | ready (c : ConnRef)
  /-- `NEV_TCP_CONN_CLOSE` -/
  | close (c : ConnRef)

/-- The connection that a notice holds. -/
def Notice.who : Notice → ConnRef
  | .ready c => c
  | .close c => c

/-- The connection whose close a notice tells. -/
def Notice.closing : Notice → Option ConnRef
  | .ready _ => none
  | .close c => some c

/-- **The engine thread and what is in flight.** -/
structure Flight where
  engine : Engine
  /-- the client connections that have not been closed -/
  connected : List ConnRef
  jobs : List PacketJob
  notices : List Notice
  /-- the client connections whose close was processed -/
  closed : List ConnRef

/-- What may happen. -/
inductive FlightEvent where
  /-- a client connects -/
  | accept (c : ConnRef)
  /-- `ext_rpcs_execute` queues a packet -/
  | packet (c : ConnRef) (rpcFlags : ℕ) (data : Bytes)
  /-- `notification_event_insert_tcp_conn_ready` -/
  | ready (c : ConnRef)
  /-- the connection closes, with `notification_event_insert_tcp_conn_close` -/
  | hangUp (c : ConnRef)
  /-- `do_rpcs_execute` on the job at this place -/
  | runJob (net : Net) (i : ℕ) (chance : Chance)
  /-- `run_notification_event` on the notice at this place -/
  | runNotice (net : Net) (i : ℕ)
  | middleEndReady (net : Net) (C : ConnRef)
  | middleEndClose (net : Net) (C : ConnRef)
  /-- `process_client_packet` -/
  | middleEndMessage (net : Net) (C : ConnRef) (op : ℕ) (msg : Bytes) (rands : List ℕ)
  /-- a round of `check_all_conn_buffers` -/
  | evict (net : Net)

namespace Flight

/-- The start. -/
def init : Flight := ⟨.init, [], [], [], []⟩

/-- The descriptor is used by a connection, or by something in flight. -/
def fdInUse (w : Flight) (fd : ℕ) : Bool :=
  w.connected.any (fun c => c.fd = fd) || w.jobs.any (fun j => j.conn.fd = fd) ||
    w.notices.any (fun n => n.who.fd = fd)

/-- `calloc` returns a cell that is not allocated; the entry of the client itself may be freed
just before. -/
def cellFree (w : Flight) (c : ConnRef) (a : ℕ) : Bool :=
  !w.engine.tables.allocated a || decide (w.engine.tables.inFd (.node a) = c.fd)

/-- The state after the engine thread did something, if it did not fail. -/
def withEngine (w : Flight) : Except Fault Engine → Option Flight
  | .ok e => some { w with engine := e }
  | .error _ => none

/-- One event; none if it cannot happen now or ends the program. -/
def step (w : Flight) : FlightEvent → Option Flight
  | .accept c =>
    if w.fdInUse c.fd ∨ c ∈ w.closed then none else some { w with connected := c :: w.connected }
  | .packet c rpcFlags data =>
    if c ∈ w.connected then some { w with jobs := w.jobs ++ [⟨c, rpcFlags, data⟩] } else none
  | .ready c =>
    if c ∈ w.connected then some { w with notices := w.notices ++ [.ready c] } else none
  | .hangUp c =>
    if c ∈ w.connected then
      some { w with
        connected := w.connected.erase c
        notices := w.notices ++ [.close c] }
    else none
  | .runJob net i chance =>
    match w.jobs[i]? with
    | none => none
    | some j =>
      if w.cellFree j.conn chance.cell then
        ({ w with jobs := w.jobs.eraseIdx i } : Flight).withEngine
          (doRpcsExecute net w.engine j.conn j.rpcFlags j.data chance)
      else none
  | .runNotice net i =>
    match w.notices[i]? with
    | none => none
    | some (.ready c) =>
      ({ w with notices := w.notices.eraseIdx i } : Flight).withEngine (lruInsertConn w.engine c)
    | some (.close c) =>
      ({ w with notices := w.notices.eraseIdx i, closed := c :: w.closed } : Flight).withEngine
        (mtprotoExtRpcClose net w.engine c)
  | .middleEndReady net C => w.withEngine (w.engine.call net (.mtfrontClientReady C))
  | .middleEndClose net C => w.withEngine (w.engine.call net (.mtfrontClientClose C))
  | .middleEndMessage net C op msg rands =>
    w.withEngine ((processClientPacket net w.engine C op msg rands).map Prod.snd)
  | .evict net => w.withEngine (w.engine.call net .lruEvict)

end Flight

/-! ## The condition and what it promises -/

/-- **No late binding:** the packet of a client whose close was already processed does not open a
binding. -/
def NoLateBinding (w : Flight) : FlightEvent → Prop
  | .runJob net i chance =>
    ∀ j, w.jobs[i]? = some j → j.conn ∈ w.closed →
      opensBinding net w.engine j.conn j.rpcFlags j.data chance = false
  | _ => True

instance (w : Flight) : ∀ ev, Decidable (NoLateBinding w ev)
  | .runJob net i chance =>
    inferInstanceAs (Decidable (∀ j ∈ w.jobs[i]?, j.conn ∈ w.closed →
      opensBinding net w.engine j.conn j.rpcFlags j.data chance = false))
  | .accept _ | .packet _ _ _ | .ready _ | .hangUp _ | .runNotice _ _ | .middleEndReady _ _
  | .middleEndClose _ _ | .middleEndMessage _ _ _ _ _ | .evict _ => isTrue trivial

/-- No external connection is left of a client whose close was processed. -/
def ClosedClientsGone (w : Flight) : Prop :=
  ∀ c ∈ w.closed, ∀ a, w.engine.tables.allocated a = true → ¬ IsClientOf w.engine.tables a c

/-- What the event forwards for a client goes under the id of an external connection of exactly
this client. -/
def ForwardsOwn (w : Flight) (ev : FlightEvent) (w' : Flight) : Prop :=
  match ev with
  | .runJob _ i _ =>
    ∀ j, w.jobs[i]? = some j → ∀ z ∈ w.engine.newEffects w'.engine, ∀ id, z.requestId = some id →
      ∃ a, w'.engine.tables.allocated a = true ∧ w'.engine.tables.outConnId (.node a) = id ∧
        IsClientOf w'.engine.tables a j.conn
  | _ => True

/-! ## The invariant -/

/-- The clients whose close was not processed yet: they are connected, or their close is in
flight. -/
def Flight.active (w : Flight) : List ConnRef := w.connected ++ w.notices.filterMap Notice.closing

/-- **The entries and everything in flight agree** on which connection has a descriptor. -/
structure FlightInv (w : Flight) (r : Registry) : Prop where
  tracks : Tracks w.engine r
  /-- every entry is that of an active client -/
  entries : ∀ x ∈ r.entries, ∃ c ∈ w.active, x.inFd = c.fd ∧ x.inGen = c.generation
  /-- active clients have descriptors of their own -/
  fds : (w.active.map ConnRef.fd).Nodup
  /-- a packet in flight is that of the active client with its descriptor, if there is one -/
  jobs : ∀ j ∈ w.jobs, ∀ d ∈ w.active, j.conn.fd = d.fd → j.conn = d
  /-- a packet in flight is that of a client that is active or closed -/
  known : ∀ j ∈ w.jobs, j.conn ∈ w.active ∨ j.conn ∈ w.closed
  /-- a client that was closed is not active -/
  closed : ∀ c ∈ w.closed, c ∉ w.active

section

variable {w w' : Flight} {r r' : Registry} {e : Engine} {net : Net}

theorem flightInv_init : FlightInv .init .empty := by
  constructor
  case tracks => exact tracks_init
  case entries => intro x hx; exact absurd hx List.not_mem_nil
  case fds => exact List.nodup_nil
  case jobs => intro j hj; exact absurd hj List.not_mem_nil
  case known => intro j hj; exact absurd hj List.not_mem_nil
  case closed => intro c hc; exact absurd hc List.not_mem_nil

/-- The engine thread did not fail. -/
theorem Flight.withEngine_eq_some {result : Except Fault Engine}
    (h : w.withEngine result = some w') : ∃ e, result = .ok e ∧ w' = { w with engine := e } := by
  cases result with
  | error f => exact absurd h nofun
  | ok e => exact ⟨e, rfl, (Option.some.inj h).symm⟩

/-- Events of the engine thread that add no entry. -/
theorem FlightInv.shrink (h : FlightInv w r) (htracks : Tracks e r')
    (hsub : ∀ x ∈ r'.entries, x ∈ r.entries) : FlightInv { w with engine := e } r' :=
  ⟨htracks, fun x hx => h.entries x (hsub x hx), h.fds, h.jobs, h.known, h.closed⟩

/-- The same clients are active, in another order. -/
theorem FlightInv.reorder (h : FlightInv w r) {connected : List ConnRef} {notices : List Notice}
    (hperm : (connected ++ notices.filterMap Notice.closing).Perm w.active) :
    FlightInv { w with connected := connected, notices := notices } r := by
  have hmem : ∀ c, c ∈ connected ++ notices.filterMap Notice.closing ↔ c ∈ w.active :=
    fun c => hperm.mem_iff
  constructor
  case tracks => exact h.tracks
  case entries =>
    intro x hx
    obtain ⟨c, hc, hof⟩ := h.entries x hx
    exact ⟨c, (hmem c).mpr hc, hof⟩
  case fds => exact (hperm.map ConnRef.fd).nodup_iff.mpr h.fds
  case jobs => exact fun j hj d hd hfd => h.jobs j hj d ((hmem d).mp hd) hfd
  case known =>
    intro j hj
    exact (h.known j hj).imp_left (hmem j.conn).mpr
  case closed => exact fun c hc hin => h.closed c hc ((hmem c).mp hin)

/-! ## The network threads -/

/-- A client connects. -/
theorem FlightInv.accept (h : FlightInv w r) {c : ConnRef} (hfree : w.fdInUse c.fd = false)
    (hnew : c ∉ w.closed) : FlightInv { w with connected := c :: w.connected } r := by
  simp only [Flight.fdInUse, Bool.or_eq_false_iff, List.any_eq_false, decide_eq_true_eq] at hfree
  obtain ⟨⟨hconnected, hjobs⟩, hnotices⟩ := hfree
  have hactive : ∀ d ∈ w.active, d.fd ≠ c.fd := by
    intro d hd
    rcases List.mem_append.mp hd with hd | hd
    · exact hconnected d hd
    · obtain ⟨n, hn, hclosing⟩ := List.mem_filterMap.mp hd
      cases n with
      | ready c' => exact absurd hclosing nofun
      | close c' =>
        obtain rfl := Option.some.inj hclosing
        exact hnotices _ hn
  constructor
  case tracks => exact h.tracks
  case entries =>
    intro x hx
    obtain ⟨d, hd, hof⟩ := h.entries x hx
    exact ⟨d, List.mem_cons_of_mem _ hd, hof⟩
  case fds =>
    refine List.nodup_cons.mpr ⟨fun hin => ?_, h.fds⟩
    obtain ⟨d, hd, heq⟩ := List.mem_map.mp hin
    exact hactive d hd heq
  case jobs =>
    intro j hj
    refine List.forall_mem_cons.mpr ⟨fun hfd => absurd hfd (hjobs j hj), h.jobs j hj⟩
  case known =>
    intro j hj
    exact (h.known j hj).imp_left (List.mem_cons_of_mem _)
  case closed =>
    intro d hd hin
    rcases List.mem_cons.mp hin with rfl | hin
    · exact hnew hd
    · exact h.closed d hd hin

/-- A packet is queued. -/
theorem FlightInv.packet (h : FlightInv w r) {c : ConnRef} (hc : c ∈ w.connected) (rpcFlags : ℕ)
    (data : Bytes) : FlightInv { w with jobs := w.jobs ++ [⟨c, rpcFlags, data⟩] } r := by
  have hactive : c ∈ w.active := List.mem_append_left _ hc
  constructor
  case tracks => exact h.tracks
  case entries => exact h.entries
  case fds => exact h.fds
  case jobs =>
    intro j hj d hd hfd
    rcases List.mem_append.mp hj with hj | hj
    · exact h.jobs j hj d hd hfd
    · obtain rfl := List.mem_singleton.mp hj
      exact List.inj_on_of_nodup_map h.fds hactive hd hfd
  case known =>
    intro j hj
    rcases List.mem_append.mp hj with hj | hj
    · exact h.known j hj
    · obtain rfl := List.mem_singleton.mp hj
      exact Or.inl hactive
  case closed => exact h.closed

/-- A notice that a client is ready is queued. -/
theorem FlightInv.ready (h : FlightInv w r) (c : ConnRef) :
    FlightInv { w with notices := w.notices ++ [.ready c] } r := by
  have hsame : (w.notices ++ [Notice.ready c]).filterMap Notice.closing =
      w.notices.filterMap Notice.closing := by
    rw [List.filterMap_append, show [Notice.ready c].filterMap Notice.closing = [] from rfl,
      List.append_nil]
  apply h.reorder
  rw [hsame, Flight.active]

/-- A connection closes, and the notice is queued. -/
theorem FlightInv.hangUp (h : FlightInv w r) {c : ConnRef} (hc : c ∈ w.connected) :
    FlightInv { w with connected := w.connected.erase c, notices := w.notices ++ [.close c] } r := by
  apply h.reorder
  rw [List.filterMap_append, show [Notice.close c].filterMap Notice.closing = [c] from rfl,
    Flight.active]
  calc w.connected.erase c ++ (w.notices.filterMap Notice.closing ++ [c])
      |>.Perm (c :: w.connected.erase c ++ w.notices.filterMap Notice.closing) := by
        rw [← List.append_assoc, List.cons_append]
        exact List.perm_append_singleton c _
    _ |>.Perm (w.connected ++ w.notices.filterMap Notice.closing) :=
        (List.perm_cons_erase hc).symm.append_right _

/-! ## The engine thread -/

/-- The cell that `calloc` returns is free, or that of the entry of the client. -/
theorem Tracks.cellFree (h : Tracks w.engine r) {c : ConnRef} {a : ℕ}
    (hcell : w.cellFree c a = true) : ∀ x ∈ r.entries, x.addr = a → x.inFd = c.fd := by
  intro x hx heq
  simp only [Flight.cellFree, Bool.or_eq_true, Bool.not_eq_true', decide_eq_true_eq] at hcell
  rcases hcell with hfree | hown
  · rw [(h.tables.cells _).mpr ⟨x, hx, heq⟩] at hfree
    exact absurd hfree nofun
  · rw [← heq] at hown
    exact (h.tables.fields x hx).inFd.symm.trans hown

/-- **A packet is forwarded,** unless it is late and opens a binding. -/
theorem FlightInv.runJob (h : FlightInv w r) {i : ℕ} {j : PacketJob} (hj : w.jobs[i]? = some j)
    {chance : Chance} (hcell : w.cellFree j.conn chance.cell = true)
    (hlate : j.conn ∈ w.closed →
      opensBinding net w.engine j.conn j.rpcFlags j.data chance = false)
    (hok : doRpcsExecute net w.engine j.conn j.rpcFlags j.data chance = .ok e) :
    ∃ r', FlightInv { w with jobs := w.jobs.eraseIdx i, engine := e } r' ∧
      ∀ z ∈ w.engine.newEffects e, ∀ id, z.requestId = some id →
        ∃ y ∈ r'.entries, y.outConnId = id ∧ y.inFd = j.conn.fd ∧ y.inGen = j.conn.generation := by
  have hjmem : j ∈ w.jobs := List.mem_of_getElem? hj
  obtain ⟨r', htracks, hkin, xs, heffects, hxs⟩ := 
    (h.tracks.doRpcsExecute_ok (h.tracks.cellFree hcell) hok).registry
  have hentries : ∀ y ∈ r'.entries, ∃ c ∈ w.active, y.inFd = c.fd ∧ y.inGen = c.generation := by
    intro y hy
    rcases hkin y hy with ⟨x, hx, hfd, hgen⟩ | ⟨hfd, hgen, hopens⟩
    · obtain ⟨c, hc, hof⟩ := h.entries x hx
      exact ⟨c, hc, hfd.trans hof.1, hgen.trans hof.2⟩
    · -- a binding was opened, so the client was not closed
      rcases h.known j hjmem with hactive | hclosed
      · exact ⟨j.conn, hactive, hfd, hgen⟩
      · rw [hlate hclosed] at hopens
        exact absurd hopens nofun
  have hsub : ∀ j' ∈ w.jobs.eraseIdx i, j' ∈ w.jobs := fun j' hj' => List.mem_of_mem_eraseIdx hj'
  refine ⟨r', ⟨htracks, hentries, h.fds, fun j' hj' => h.jobs j' (hsub j' hj'),
    fun j' hj' => h.known j' (hsub j' hj'), h.closed⟩, ?_⟩
  rw [Engine.newEffects_eq heffects]
  intro z hz id hid
  obtain ⟨y, hy, hyid, hfd⟩ := hxs z hz id hid
  obtain ⟨c, hc, hyfd, hygen⟩ := hentries y hy
  obtain rfl := h.jobs j hjmem c hc (hfd.symm.trans hyfd)
  exact ⟨y, hy, hyid, hfd, hygen⟩

/-- Active clients without the one whose close was processed. -/
theorem Flight.active_close {i : ℕ} {c : ConnRef} (hn : w.notices[i]? = some (.close c)) :
    w.active.Perm (c :: (w.connected ++ (w.notices.eraseIdx i).filterMap Notice.closing)) := by
  obtain ⟨hi, hget⟩ := List.getElem?_eq_some_iff.mp hn
  have hperm := (List.getElem_cons_eraseIdx_perm hi).filterMap Notice.closing
  rw [hget, List.filterMap_cons_some (show Notice.closing (.close c) = some c from rfl)] at hperm
  exact (hperm.symm.append_left w.connected).trans List.perm_middle

/-- **The close of a client** removes its entry, if it has one, and only that. -/
theorem FlightInv.runClose (h : FlightInv w r) {i : ℕ} {c : ConnRef}
    (hn : w.notices[i]? = some (.close c))
    (hok : mtprotoExtRpcClose net w.engine c = .ok e) :
    ∃ r', FlightInv { w with
      notices := w.notices.eraseIdx i, closed := c :: w.closed, engine := e } r' := by
  have hperm := Flight.active_close hn
  have hnodup := (hperm.map ConnRef.fd).nodup_iff.mp h.fds
  rw [List.map_cons, List.nodup_cons] at hnodup
  have hsplit : ∀ d, d ∈ w.active →
      d = c ∨ d ∈ w.connected ++ (w.notices.eraseIdx i).filterMap Notice.closing :=
    fun d hd => List.mem_cons.mp (hperm.mem_iff.mp hd)
  have hback : ∀ d ∈ w.connected ++ (w.notices.eraseIdx i).filterMap Notice.closing,
      d ∈ w.active := fun d hd => hperm.mem_iff.mpr (List.mem_cons_of_mem _ hd)
  have hstart : ∀ {r'}, Tracks e r' → (∀ x ∈ r'.entries, x ∈ r.entries ∧ x.inFd ≠ c.fd) →
      FlightInv { w with
        notices := w.notices.eraseIdx i, closed := c :: w.closed, engine := e } r' := by
    intro r' htracks hsub
    constructor
    case tracks => exact htracks
    case entries =>
      intro x hx
      obtain ⟨hx', hne⟩ := hsub x hx
      obtain ⟨d, hd, hof⟩ := h.entries x hx'
      rcases hsplit d hd with rfl | hd'
      · exact absurd hof.1 hne
      · exact ⟨d, hd', hof⟩
    case fds => exact hnodup.2
    case jobs => exact fun j hj d hd hfd => h.jobs j hj d (hback d hd) hfd
    case known =>
      intro j hj
      rcases h.known j hj with hactive | hclosed
      · rcases hsplit _ hactive with heq | hd'
        · exact Or.inr (heq ▸ List.mem_cons_self)
        · exact Or.inl hd'
      · exact Or.inr (List.mem_cons_of_mem _ hclosed)
    case closed =>
      refine List.forall_mem_cons.mpr ⟨fun hin => ?_, fun d hd hin => ?_⟩
      · exact hnodup.1 (List.mem_map_of_mem hin)
      · exact h.closed d hd (hback d hin)
  obtain ⟨e₁, hclose, hcase, -⟩ := h.tracks.extRpcClose net c
  obtain rfl := Except.ok.inj (hclose.symm.trans hok)
  cases hfind : r.byInFd c.fd with
  | none =>
    rw [hfind] at hcase
    obtain rfl := hcase
    exact ⟨r, hstart h.tracks (fun x hx => ⟨hx, Registry.byInFd_eq_none.mp hfind x hx⟩)⟩
  | some x =>
    rw [hfind] at hcase
    obtain ⟨hx, hxfd⟩ := Registry.mem_of_byInFd hfind
    refine ⟨_, hstart hcase.1 (fun y hy => ?_)⟩
    obtain ⟨hy', hne⟩ := mem_without.mp hy
    refine ⟨hy', fun hfd => hne ?_⟩
    rw [h.tracks.tables.sound.fd_inj hy' hx (hfd.trans hxfd.symm)]

/-- A notice that a client is ready moves it on `ConnLRU`. -/
theorem FlightInv.runReady (h : FlightInv w r) {i : ℕ} {c : ConnRef}
    (hn : w.notices[i]? = some (.ready c)) (hok : lruInsertConn w.engine c = .ok e) :
    ∃ r', FlightInv { w with notices := w.notices.eraseIdx i, engine := e } r' := by
  obtain ⟨hi, hget⟩ := List.getElem?_eq_some_iff.mp hn
  have hperm := (List.getElem_cons_eraseIdx_perm hi).filterMap Notice.closing
  rw [hget, List.filterMap_cons_none (show Notice.closing (.ready c) = none from rfl)] at hperm
  obtain ⟨t, hinsert, hrep⟩ := h.tracks.lruInsertConn c
  obtain rfl := Except.ok.inj (hinsert.symm.trans hok)
  have htracks : Tracks { w.engine with tables := t } (r.touch c) :=
    ⟨hrep, by rw [r.touch_ready]; exact h.tracks.tags⟩
  exact ⟨_, (h.reorder (hperm.append_left w.connected)).shrink htracks (r.shrinks_touch c).sub⟩

/-- The state after a message that was processed. -/
theorem map_snd_eq_ok {result : Except Fault (ℕ × Engine)} (h : result.map Prod.snd = .ok e) :
    ∃ p, result = .ok p ∧ p.2 = e := by
  cases result with
  | error f => exact absurd h nofun
  | ok p => exact ⟨p, rfl, Except.ok.inj h⟩

/-- A message of a middle-end adds no entry. -/
theorem Tracks.processClientPacket_sub {C : ConnRef} {op res : ℕ} {msg : Bytes} {rands : List ℕ}
    (h : Tracks w.engine r) (hok : processClientPacket net w.engine C op msg rands = .ok (res, e)) :
    ∃ r', Tracks e r' ∧ ∀ x ∈ r'.entries, x ∈ r.entries := by
  cases h.processClientPacket_ok hok with
  | quiet _ h' _ _ _ => exact ⟨r, h', fun x hx => hx⟩
  | deliver _ _ y _ _ _ _ hdelivered =>
    obtain ⟨r', h', rfl | rfl⟩ := hdelivered.registry
    · exact ⟨r', h', fun x hx => hx⟩
    · exact ⟨_, h', fun x hx => (mem_without.mp hx).1⟩
  | close _ _ _ _ _ h' _ => exact ⟨_, h', fun x hx => (mem_without.mp hx).1⟩

/-! ## Steps and runs -/

/-- **One event without a late binding:** the invariant is kept, and what is forwarded goes under
the id of the client itself. -/
theorem FlightInv.step (h : FlightInv w r) {ev : FlightEvent} (hlate : NoLateBinding w ev)
    (hstep : w.step ev = some w') : (∃ r', FlightInv w' r') ∧ ForwardsOwn w ev w' := by
  have hcall : ∀ {net : Net} {c : ExtCall}, c.isCreate = false →
      w.withEngine (w.engine.call net c) = some w' → ∃ r', FlightInv w' r' := by
    intro net c hc hw
    obtain ⟨e, hok, rfl⟩ := Flight.withEngine_eq_some hw
    obtain ⟨r', htracks, hshrinks⟩ := h.tracks.call_ok hc hok
    exact ⟨r', h.shrink htracks hshrinks.sub⟩
  cases ev with
  | accept c =>
    simp only [Flight.step] at hstep
    split at hstep
    case isTrue => exact absurd hstep nofun
    case isFalse hfree =>
      obtain rfl := Option.some.inj hstep
      rw [not_or, Bool.not_eq_true] at hfree
      exact ⟨⟨r, h.accept hfree.1 hfree.2⟩, trivial⟩
  | packet c rpcFlags data =>
    simp only [Flight.step] at hstep
    split at hstep
    case isTrue hc =>
      obtain rfl := Option.some.inj hstep
      exact ⟨⟨r, h.packet hc rpcFlags data⟩, trivial⟩
    case isFalse => exact absurd hstep nofun
  | ready c =>
    simp only [Flight.step] at hstep
    split at hstep
    case isTrue =>
      obtain rfl := Option.some.inj hstep
      exact ⟨⟨r, h.ready c⟩, trivial⟩
    case isFalse => exact absurd hstep nofun
  | hangUp c =>
    simp only [Flight.step] at hstep
    split at hstep
    case isTrue hc =>
      obtain rfl := Option.some.inj hstep
      exact ⟨⟨r, h.hangUp hc⟩, trivial⟩
    case isFalse => exact absurd hstep nofun
  | runJob net i chance =>
    simp only [Flight.step] at hstep
    split at hstep
    case h_1 => exact absurd hstep nofun
    case h_2 j hj =>
      split at hstep
      case isFalse => exact absurd hstep nofun
      case isTrue hcell =>
        obtain ⟨e, hok, rfl⟩ := Flight.withEngine_eq_some hstep
        obtain ⟨r', h', hforwards⟩ := h.runJob hj hcell (hlate j hj) hok
        refine ⟨⟨r', h'⟩, ?_⟩
        intro j' hj' z hz id hid
        obtain rfl := Option.some.inj (hj.symm.trans hj')
        obtain ⟨y, hy, hyid, hfd, hgen⟩ := hforwards z hz id hid
        refine ⟨y.addr, (h'.tracks.tables.cells _).mpr ⟨y, hy, rfl⟩, ?_, ?_⟩
        · exact (h'.tracks.tables.fields y hy).outConnId.trans hyid
        · exact (h'.tracks.tables.isClientOf_iff hy).mpr ⟨hfd.symm, hgen.symm⟩
  | runNotice net i =>
    simp only [Flight.step] at hstep
    split at hstep
    case h_1 => exact absurd hstep nofun
    case h_2 c hn =>
      obtain ⟨e, hok, rfl⟩ := Flight.withEngine_eq_some hstep
      exact ⟨h.runReady hn hok, trivial⟩
    case h_3 c hn =>
      obtain ⟨e, hok, rfl⟩ := Flight.withEngine_eq_some hstep
      exact ⟨h.runClose hn hok, trivial⟩
  | middleEndReady net C => exact ⟨hcall rfl hstep, trivial⟩
  | middleEndClose net C => exact ⟨hcall rfl hstep, trivial⟩
  | middleEndMessage net C op msg rands =>
    obtain ⟨e, hmap, rfl⟩ := Flight.withEngine_eq_some hstep
    obtain ⟨⟨res, e₁⟩, hok, rfl⟩ := map_snd_eq_ok hmap
    obtain ⟨r', h', hsub⟩ := h.tracks.processClientPacket_sub hok
    exact ⟨⟨r', h.shrink h' hsub⟩, trivial⟩
  | evict net => exact ⟨hcall rfl hstep, trivial⟩

/-- Where the invariant holds, nothing is left of clients that were closed. -/
theorem FlightInv.closedClientsGone (h : FlightInv w r) : ClosedClientsGone w := by
  intro c hc a ha hof
  obtain ⟨x, hx, rfl⟩ := (h.tracks.tables.cells a).mp ha
  obtain ⟨d, hd, hfd, hgen⟩ := h.entries x hx
  rw [h.tracks.tables.isClientOf_iff hx] at hof
  obtain rfl : c = d := ConnRef.ext_iff'.mpr ⟨hof.1.trans hfd, hof.2.trans hgen⟩
  exact h.closed c hc hd

/-- **Clients and external connections agree:** in every run without a late binding, in any order
of the events, no external connection is left of a client whose close was processed, and every
packet that is forwarded goes under the id of an external connection of exactly its client. -/
theorem clients_keep_their_bindings (evs : List FlightEvent) (w : Flight)
    (hlate : Runs.Along Flight.step NoLateBinding .init evs)
    (hrun : Runs.run Flight.step .init evs = some w) :
    ClosedClientsGone w ∧
      ∀ ev w', NoLateBinding w ev → w.step ev = some w' → ForwardsOwn w ev w' := by
  have hkeep : ∀ (w : Flight) (ev : FlightEvent) (w' : Flight), (∃ r, FlightInv w r) →
      NoLateBinding w ev → w.step ev = some w' → ∃ r', FlightInv w' r' := by
    rintro w ev w' ⟨r, h⟩ hcond hstep
    exact (h.step hcond hstep).1
  obtain ⟨r, h⟩ := Runs.run_invariant hkeep ⟨.empty, flightInv_init⟩ hlate hrun
  exact ⟨h.closedClientsGone, fun ev w' hcond hstep => (h.step hcond hstep).2⟩

/-- An encrypted packet. -/
def samplePacket : Bytes := leBytes 8 9 ++ List.replicate 48 0

/-- The sample middle-end is chosen, and `calloc` returns the cell 0. -/
def sampleChance : Chance := ⟨some [(0, some sampleMiddleEnd)], [some sampleMiddleEnd], 0, []⟩

/-- A client sends a packet and closes; the packet is processed first. -/
def timelyEvents : List FlightEvent :=
  [.middleEndReady sampleNet sampleMiddleEnd, .accept sampleClient,
    .packet sampleClient 0 samplePacket, .hangUp sampleClient, .runJob sampleNet 0 sampleChance,
    .runNotice sampleNet 0]

/-- The same events as those of a late packet, in the order in which they were queued. -/
theorem clients_keep_their_bindings_sample :
    ∃ w, Runs.run Flight.step .init timelyEvents = some w ∧ sampleClient ∈ w.closed ∧
      ClosedClientsGone w := by
  have hrun : (Runs.run Flight.step .init timelyEvents).map (fun w =>
      decide (sampleClient ∈ w.closed)) = some true := by
    decide +kernel
  have hlate : Runs.Along Flight.step NoLateBinding .init timelyEvents := by
    decide +kernel
  obtain ⟨w, hw, hclosed⟩ := Option.map_eq_some_iff.mp hrun
  exact ⟨w, hw, by simpa using hclosed, (clients_keep_their_bindings timelyEvents w hlate hw).1⟩

/-! ## A late packet -/

/-- **The tables stay consistent** whatever the order of the events. -/
theorem Flight.tracks_step {ev : FlightEvent} (h : Tracks w.engine r) (hstep : w.step ev = some w') :
    ∃ r', Tracks w'.engine r' := by
  have hcall : ∀ (net : Net) (c : ExtCall) {w₁ : Flight}, c.isCreate = false →
      w₁.withEngine (w.engine.call net c) = some w' → ∃ r', Tracks w'.engine r' := by
    intro net c w₁ hc hw
    obtain ⟨e, hok, rfl⟩ := Flight.withEngine_eq_some hw
    obtain ⟨r', htracks, -⟩ := h.call_ok hc hok
    exact ⟨r', htracks⟩
  cases ev with
  | runJob net i chance =>
    simp only [Flight.step] at hstep
    split at hstep
    case h_1 => exact absurd hstep nofun
    case h_2 j hj =>
      split at hstep
      case isFalse => exact absurd hstep nofun
      case isTrue hcell =>
        obtain ⟨e, hok, rfl⟩ := Flight.withEngine_eq_some hstep
        obtain ⟨r', htracks, -⟩ := (h.doRpcsExecute_ok (h.cellFree hcell) hok).registry
        exact ⟨r', htracks⟩
  | runNotice net i =>
    simp only [Flight.step] at hstep
    split at hstep
    case h_1 => exact absurd hstep nofun
    case h_2 c hn => exact hcall net (.lruInsert c) rfl hstep
    case h_3 c hn => exact hcall net (.mtprotoExtRpcClose c) rfl hstep
  | middleEndReady net C => exact hcall net _ rfl hstep
  | middleEndClose net C => exact hcall net _ rfl hstep
  | evict net => exact hcall net _ rfl hstep
  | middleEndMessage net C op msg rands =>
    obtain ⟨e, hmap, rfl⟩ := Flight.withEngine_eq_some hstep
    obtain ⟨⟨res, e₁⟩, hok, rfl⟩ := map_snd_eq_ok hmap
    obtain ⟨r', htracks, -⟩ := h.processClientPacket_sub hok
    exact ⟨r', htracks⟩
  | accept c =>
    simp only [Flight.step] at hstep
    split at hstep
    · exact absurd hstep nofun
    · obtain rfl := Option.some.inj hstep
      exact ⟨r, h⟩
  | _ =>
    simp only [Flight.step] at hstep
    split at hstep
    · obtain rfl := Option.some.inj hstep
      exact ⟨r, h⟩
    · exact absurd hstep nofun

/-- So they are consistent after every run. -/
theorem Flight.tracks_run {evs : List FlightEvent} (hrun : Runs.run Flight.step .init evs = some w) :
    ∃ r, Tracks w.engine r := by
  have hkeep : ∀ (w : Flight) (ev : FlightEvent) (w' : Flight), (∃ r, Tracks w.engine r) → True →
      w.step ev = some w' → ∃ r', Tracks w'.engine r' := by
    rintro w ev w' ⟨r, h⟩ - hstep
    exact Flight.tracks_step h hstep
  exact Runs.run_invariant hkeep ⟨.empty, tracks_init⟩ (Runs.along_of_always fun _ _ _ => trivial) hrun

/-- The next client with the descriptor of the sample client. -/
def nextClient : ConnRef := { sampleClient with generation := 4 }

/-- The close of a client overtakes its last packet. -/
def lateEvents : List FlightEvent :=
  [.middleEndReady sampleNet sampleMiddleEnd, .accept sampleClient,
    .packet sampleClient 0 samplePacket, .hangUp sampleClient, .runNotice sampleNet 0,
    .runJob sampleNet 0 sampleChance]

/-- Then the next client connects, with the same descriptor, and sends a packet. -/
def nextEvents : List FlightEvent := [.accept nextClient, .packet nextClient 0 samplePacket]

/-- Where the sample run gets. -/
theorem lateEvents_run :
    ∃ w, Runs.run Flight.step .init lateEvents = some w ∧ sampleClient ∈ w.closed ∧
      w.engine.tables.allocated 0 = true ∧ w.engine.tables.inFd (.node 0) = 7 ∧
      w.engine.tables.inGen (.node 0) = 3 := by
  have hrun : (Runs.run Flight.step .init lateEvents).map (fun w =>
      (decide (sampleClient ∈ w.closed), w.engine.tables.allocated 0,
        w.engine.tables.inFd (.node 0), w.engine.tables.inGen (.node 0))) = some (true, true, 7, 3) := by
    decide +kernel
  obtain ⟨w, hw, heq⟩ := Option.map_eq_some_iff.mp hrun
  simp only [Prod.mk.injEq, decide_eq_true_eq] at heq
  exact ⟨w, hw, heq⟩

/-- What happens to the packet of the next client. -/
theorem nextEvents_run {w : Flight} (hw : Runs.run Flight.step .init lateEvents = some w) :
    ∃ w₁, Runs.run Flight.step w nextEvents = some w₁ ∧
      ∃ w₂, w₁.step (.runJob sampleNet 0 sampleChance) = some w₂ ∧
        w₁.jobs[0]? = some ⟨nextClient, 0, samplePacket⟩ ∧
        ∃ z ∈ w₁.engine.newEffects w₂.engine, z.requestId = some (slotId 7 1) ∧
          findExtConnectionByOutConnId w₂.engine.tables (slotId 7 1) = .ok (.node 0) ∧
          w₂.engine.tables.inGen (.node 0) = 3 := by
  have hrun : ((Runs.run Flight.step .init lateEvents).bind (fun w =>
      (Runs.run Flight.step w nextEvents).bind (fun w₁ =>
        (w₁.step (.runJob sampleNet 0 sampleChance)).map (fun w₂ =>
          (w₁.jobs, (w₁.engine.newEffects w₂.engine).map Effect.requestId,
            (findExtConnectionByOutConnId w₂.engine.tables (slotId 7 1)).toOption,
            w₂.engine.tables.inGen (.node 0)))))) =
      some ([⟨nextClient, 0, samplePacket⟩], [some (slotId 7 1)], some (.node 0), 3) := by
    decide +kernel
  rw [hw, Option.bind_some] at hrun
  obtain ⟨w₁, hw₁, hrun⟩ := Option.bind_eq_some_iff.mp hrun
  obtain ⟨w₂, hw₂, heq⟩ := Option.map_eq_some_iff.mp hrun
  simp only [Prod.mk.injEq] at heq
  obtain ⟨hjobs, heffects, hfind, hgen⟩ := heq
  obtain ⟨z, hz, hid⟩ := List.mem_map.mp (heffects ▸ List.mem_singleton_self (some (slotId 7 1)))
  refine ⟨w₁, hw₁, w₂, hw₂, by rw [hjobs]; rfl, z, hz, hid, ?_, hgen⟩
  generalize findExtConnectionByOutConnId w₂.engine.tables (slotId 7 1) = result at hfind ⊢
  cases result with
  | error f => exact absurd hfind nofun
  | ok p => exact congrArg Except.ok (Option.some.inj hfind)

/-- **A late packet leaves an entry behind:** after its client was closed an external connection of
this client exists, and the packets of the next client are forwarded under the id of that. -/
theorem late_packet_binds_closed_client :
    ∃ w, Runs.run Flight.step .init lateEvents = some w ∧ ¬ ClosedClientsGone w ∧
      ∃ w₁ w₂, Runs.run Flight.step w nextEvents = some w₁ ∧
        w₁.step (.runJob sampleNet 0 sampleChance) = some w₂ ∧
        ¬ ForwardsOwn w₁ (.runJob sampleNet 0 sampleChance) w₂ := by
  obtain ⟨w, hw, hclosed, halloc, hfd, hgen⟩ := lateEvents_run
  obtain ⟨w₁, hw₁, w₂, hw₂, hjobs, z, hz, hid, hfind, hgen₂⟩ := nextEvents_run hw
  refine ⟨w, hw, fun hgone => ?_, w₁, w₂, hw₁, hw₂, fun howns => ?_⟩
  · exact hgone sampleClient hclosed 0 halloc ⟨hfd.symm, hgen.symm⟩
  · obtain ⟨a, ha, haid, hclient⟩ := howns ⟨nextClient, 0, samplePacket⟩ hjobs z hz _ hid
    -- the id is found in the cell 0, so there is no other entry with this id
    obtain ⟨r₁, h₁⟩ := Flight.tracks_run (Runs.run_append.mpr ⟨w, hw, hw₁⟩)
    obtain ⟨r, h⟩ := Flight.tracks_step h₁ hw₂
    obtain ⟨x, hx, rfl⟩ := (h.tables.cells a).mp ha
    have hxid : x.outConnId = slotId 7 1 := (h.tables.fields x hx).outConnId.symm.trans haid
    rw [h.tables.find, ← hxid, h.tables.sound.byOutConnId_eq hx] at hfind
    have hcell : Ptr.node x.addr = .node 0 := Except.ok.inj hfind
    have hbad := hclient.2
    rw [hcell, hgen₂] at hbad
    exact absurd hbad (by decide)

end

end MtprotoProxy
