/-
# Forwarding a packet of a client

What `do_rpcs_execute` does to the registry when it succeeds.  It looks the client up by its
descriptor alone: an entry that is found is used as it is, whatever its generation; only when
there is none, or its middle-end is gone, an entry of this generation is created.
-/
import MtprotoProxy.ExtOutcomes

namespace MtprotoProxy

open Function (update)
open Linked
open CLib

/-! ## Other keys -/

/-- The entry with the authorization key of its cell. -/
def Entry.rekey (g : Ptr → Int64) (x : Entry) : Entry := { x with authKeyId := g x.ptr }

/-- The registry with other authorization keys. -/
def Registry.rekey (r : Registry) (g : Ptr → Int64) : Registry :=
  { r with entries := r.entries.map (Entry.rekey g) }

@[simp] theorem Entry.rekey_ptr (g : Ptr → Int64) (x : Entry) : (x.rekey g).ptr = x.ptr := rfl

section

variable {s : ExtTables} {r : Registry}

/-- No list is sorted by the authorization key. -/
theorem members_rekey (g : Ptr → Int64) {key : Entry → ℕ} (hkey : ∀ x, key (x.rekey g) = key x)
    (order : List Entry) (fd : ℕ) :
    members key (order.map (Entry.rekey g)) fd = members key order fd := by
  simp only [members, List.filter_map, List.map_map, Function.comp_def, hkey, Entry.rekey_ptr]

theorem Lists.rekey {next prev : Ptr → Ptr} {key : Entry → ℕ} {order : List Entry}
    (h : Lists next prev key order) (g : Ptr → Int64) (hkey : ∀ x, key (x.rekey g) = key x) :
    Lists next prev key (order.map (Entry.rekey g)) := by
  constructor
  · intro fd
    rw [members_rekey g hkey]
    exact h.ring fd
  · intro fd
    rw [members_rekey g hkey]
    exact h.closed fd

/-- **Only the authorization keys change.** -/
theorem Represents.rekey (h : Represents s r) (g : Ptr → Int64) :
    Represents { s with authKeyId := g } (r.rekey g) := by
  have hmem : ∀ {P : Entry → Prop}, (∀ x ∈ r.entries, P (x.rekey g)) →
      ∀ x ∈ (r.rekey g).entries, P x := by
    intro P hall x hx
    obtain ⟨y, hy, rfl⟩ := List.mem_map.mp hx
    exact hall y hy
  have hmap : ∀ {β : Type} (f : Entry → β), (∀ x, f (x.rekey g) = f x) →
      (r.rekey g).entries.map f = r.entries.map f := by
    intro β f hf
    rw [Registry.rekey, List.map_map]
    exact List.map_congr_left (fun x _ => hf x)
  have hbound : bound (r.rekey g).entries.reverse =
      (bound r.entries.reverse).map (Entry.rekey g) := by
    rw [Registry.rekey, ← List.map_reverse, bound, List.filter_map]
    rfl
  constructor
  case sound =>
    constructor
    · rw [hmap Entry.addr (fun _ => rfl)]
      exact h.sound.addrs
    · rw [hmap Entry.inFd (fun _ => rfl)]
      exact h.sound.fds
    · exact hmem h.sound.inFd_pos
    · exact hmem h.sound.inFd_lt
    · rw [hmap Registry.slot (fun _ => rfl)]
      exact h.sound.slots
    · exact hmem h.sound.ids
    · exact hmem h.sound.ids_ne_zero
    · exact hmem h.sound.bound
    · exact h.sound.ready_fd
  case cells =>
    intro a
    rw [show (∃ x ∈ (r.rekey g).entries, x.addr = a) ↔ ∃ x ∈ r.entries, x.addr = a by
      simp [Registry.rekey, Entry.rekey]]
    exact h.cells a
  case fields =>
    refine hmem (fun x hx => ?_)
    have hcell := h.fields x hx
    exact ⟨hcell.inFd, hcell.inGen, hcell.inConnId, hcell.outFd, hcell.outGen, hcell.outConnId, rfl⟩
  case count => rw [Registry.rekey, List.length_map]; exact h.count
  case chains =>
    intro b
    rw [Registry.rekey, members_rekey g (fun _ => rfl)]
    exact h.chains b
  case slotRefs => exact hmem h.slotRefs
  case emptySlots =>
    intro b hb
    refine h.emptySlots b (fun x hx => hb (x.rekey g) (List.mem_map_of_mem hx))
  case slotIds => exact h.slotIds
  case inputs =>
    rw [Registry.rekey, ← List.map_reverse]
    exact h.inputs.rekey g (fun _ => rfl)
  case outputs =>
    rw [hbound]
    exact h.outputs.rekey g (fun _ => rfl)
  case unbound => exact hmem h.unbound
  case ready => exact h.ready
  case lru =>
    rw [hmap Entry.addr (fun _ => rfl)]
    exact h.lru

/-- The entry of a client, with the other key. -/
theorem Registry.byInFd_rekey (g : Ptr → Int64) (fd : ℕ) :
    (r.rekey g).byInFd fd = (r.byInFd fd).map (Entry.rekey g) := by
  rw [Registry.byInFd, Registry.rekey, List.find?_map]
  rfl

end

/-! ## Which packets are forwarded -/

/-- The checks of `forward_mtproto_packet` and `forward_mtproto_enc_packet`: the flags and the
authorization key that are passed on to `forward_tcp_query`. -/
def packetQuery (rpcFlags : ℕ) (data : Bytes) : Option (ℕ × Int64) :=
  let len := data.length
  if len < 28 ∨ len % 4 ≠ 0 then none
  else if leLong data ≠ 0 then
    if len < encryptedHeader then none else some (rpcFlags, leLong data)
  else
    let innerLen := asInt32 (le32 (data.drop 16))
    if wrap32 (innerLen + 20) > len ∨ innerLen < 20 then none
    else if le32 (data.drop 20) ∉ handshakeFunctions then none
    else some (2 ||| rpcFlags, 0)

/-- `forward_mtproto_packet` forwards the packets that pass the checks. -/
theorem forwardMtprotoPacket_eq (net : Net) (e : Engine) (c : ConnRef) (rpcFlags : ℕ)
    (data : Bytes) (chance : Chance) :
    forwardMtprotoPacket net e c rpcFlags data chance =
      match packetQuery rpcFlags data with
      | none => .ok (0, e)
      | some (flags, authKeyId) =>
        forwardTcpQuery net e c (chooseProxyTarget e chance.picks) flags authKeyId data chance := by
  simp only [forwardMtprotoPacket, packetQuery]
  split_ifs <;> rfl

/-- The id under which an effect forwards a packet, if it does. -/
def Effect.requestId : Effect → Option Int64
  | .send _ (.proxyReq _ outConnId _ _ _ _) => some outConnId
  | _ => none

/-- **A packet of a client would open a binding,** if the client had none: it passes the checks, a
middle-end is ready for it, and the client is not being dropped. -/
def opensBinding (net : Net) (e : Engine) (c : ConnRef) (rpcFlags : ℕ) (data : Bytes)
    (chance : Chance) : Bool :=
  match packetQuery rpcFlags data with
  | none => false
  | some (flags, _) =>
    (chooseReady e (chooseProxyTarget e chance.picks) chance.conns).isSome &&
      decide (queryFlags net e c flags &&& rpcFDropped = 0)

/-- **What the forwarding of a packet of `c` does.** Every entry is that of an old client or, if a
binding may be opened, of `c`; and what is forwarded goes under the id of an entry with the
descriptor of `c`. -/
structure Forwarded (c : ConnRef) (opens : Prop) (r : Registry) (e e' : Engine) : Prop where
  registry : ∃ r', Tracks e' r' ∧
    (∀ y ∈ r'.entries, (∃ x ∈ r.entries, y.inFd = x.inFd ∧ y.inGen = x.inGen) ∨
      (y.inFd = c.fd ∧ y.inGen = c.generation ∧ opens)) ∧
    ∃ xs, e'.effects = e.effects ++ xs ∧ ∀ z ∈ xs, ∀ id, z.requestId = some id →
      ∃ y ∈ r'.entries, y.outConnId = id ∧ y.inFd = c.fd

section

variable {e e' : Engine} {r : Registry} {net : Net} {c : ConnRef} {opens : Prop}

/-- The choice of a middle-end looks at the tags alone. -/
theorem chooseReady_congr (e e₁ : Engine) (hextra : e₁.extraInt = e.extraInt) (S : Option ℕ)
    (conns : List (Option ConnRef)) : chooseReady e₁ S conns = chooseReady e S conns := by
  have hready : e₁.isReady = e.isReady := by
    funext d
    rw [Engine.isReady, Engine.isReady, hextra]
  rw [chooseReady, chooseReady, hready]

theorem chooseProxyTarget_congr (e e₁ : Engine) (hextra : e₁.extraInt = e.extraInt)
    (picks : Option (List (ℕ × Option ConnRef))) :
    chooseProxyTarget e₁ picks = chooseProxyTarget e picks := by
  have hready : e₁.isReady = e.isReady := by
    funext d
    rw [Engine.isReady, Engine.isReady, hextra]
  rw [chooseProxyTarget, chooseProxyTarget, hready]

/-- Nothing is forwarded. -/
theorem Tracks.forwarded (h : Tracks e r) : Forwarded c opens r e e :=
  ⟨r, h, fun y hy => Or.inl ⟨y, hy, rfl, rfl⟩, [], by simp, by simp⟩

/-- `send` of the request goes under the id of the entry. -/
theorem sendQuery_ok (h : Tracks e r) {x : Entry} (hx : x ∈ r.entries) {d : ConnRef}
    {flags res : ℕ} {data : Bytes} (hok : sendQuery net e c d x.ptr flags data = .ok (res, e')) :
    Tracks e' r ∧ ∃ z, e'.effects = e.effects ++ [z] ∧ z.requestId = some x.outConnId := by
  simp only [sendQuery] at hok
  obtain ⟨_, -, hok⟩ := bind_eq_ok.mp hok
  obtain ⟨_, -, hok⟩ := bind_eq_ok.mp hok
  obtain ⟨-, rfl⟩ := Prod.mk.inj (Except.ok.inj hok)
  refine ⟨h.emit _, _, rfl, ?_⟩
  exact congrArg some (h.tables.fields x hx).outConnId

/-- A removal forwards nothing. -/
theorem requestId_removeEffects {x : Entry} {n : ℕ} {z : Effect} (hz : z ∈ removeEffects net x n) :
    z.requestId = none := by
  rw [removeEffects, outputEffects, inputEffects] at hz
  rcases List.mem_append.mp hz with hz | hz
  · split at hz
    case isTrue =>
      rw [Option.mem_toList, Option.map_eq_some_iff] at hz
      obtain ⟨CO, -, rfl⟩ := hz
      rfl
    case isFalse => exact absurd hz List.not_mem_nil
  · split at hz
    case isTrue =>
      rw [Option.mem_toList, Option.map_eq_some_iff] at hz
      obtain ⟨CI, -, rfl⟩ := hz
      rfl
    case isFalse => exact absurd hz List.not_mem_nil

/-- The middle-end of an earlier packet is kept, or the entry is removed. -/
theorem keepMiddleEnd_ok (h : Tracks e r) {x? : Option Entry}
    (hx? : ∀ x, x? = some x → x ∈ r.entries) {d : Option ConnRef} {Ex : Ptr}
    (hok : keepMiddleEnd net e (ptrOf x?) = .ok (d, Ex, e')) :
    (∃ x d', x? = some x ∧ d = some d' ∧ Ex = x.ptr ∧ e' = e) ∨
      (d = none ∧ e'.extraInt = e.extraInt ∧
        ∃ r', Tracks e' r' ∧ (∀ y ∈ r'.entries, y ∈ r.entries ∧ x? ≠ some y) ∧
          ∃ xs, e'.effects = e.effects ++ xs ∧ ∀ z ∈ xs, z.requestId = none) := by
  cases x? with
  | none =>
    rw [keepMiddleEnd, ptrOf, if_neg (by simp)] at hok
    obtain ⟨rfl, hrest⟩ := Prod.mk.inj (Except.ok.inj hok)
    obtain ⟨-, rfl⟩ := Prod.mk.inj hrest
    exact Or.inr ⟨rfl, rfl, r, h, fun y hy => ⟨hy, by simp⟩, [], by simp, by simp⟩
  | some x =>
    have hx := hx? x rfl
    rw [ptrOf, keepMiddleEnd, if_pos x.ptr_ne_null] at hok
    obtain ⟨_, -, hok⟩ := bind_eq_ok.mp hok
    split at hok
    case h_1 d' _ =>
      obtain ⟨rfl, hrest⟩ := Prod.mk.inj (Except.ok.inj hok)
      obtain ⟨rfl, rfl⟩ := Prod.mk.inj hrest
      exact Or.inl ⟨x, d', rfl, rfl, rfl, rfl⟩
    case h_2 =>
      obtain ⟨e₁, hremove, hok⟩ := bind_eq_ok.mp hok
      obtain ⟨rfl, hrest⟩ := Prod.mk.inj (Except.ok.inj hok)
      obtain ⟨-, rfl⟩ := Prod.mk.inj hrest
      obtain ⟨y, hy, haddr, htracks, heffects, hextra⟩ := h.remove_ok (a := x.addr) hremove
      refine Or.inr ⟨rfl, hextra, _, htracks, fun z hz => ?_, _, heffects, fun z hz =>
        requestId_removeEffects hz⟩
      obtain ⟨hz', hne⟩ := mem_without.mp hz
      exact ⟨hz', fun heq => hne (Option.some.inj heq ▸ rfl)⟩

/-- **The rest of `forward_tcp_query`,** once the middle-end of an earlier packet is gone: a new
entry is created, and the packet goes under its id. -/
theorem Tracks.openBinding_ok (h : Tracks e r) {CO : ConnRef} {authKeyId : Int64}
    {a : ℕ} {rands : List ℕ} (ha : ∀ y ∈ r.entries, y.addr ≠ a) {Ex : Ptr} {t : ExtTables}
    (hcreate : createExtConnection e.tables c 0 (some CO) authKeyId a rands = .ok (Ex, t))
    {flags res : ℕ} {data : Bytes}
    (hok : sendQuery net { e with tables := t } c CO Ex flags data = .ok (res, e')) :
    ∃ y, y.inFd = c.fd ∧ y.inGen = c.generation ∧ Tracks e' (r.add y) ∧
      ∃ z, e'.effects = e.effects ++ [z] ∧ z.requestId = some y.outConnId := by
  obtain ⟨b, -, rfl, hrep⟩ := h.tables.create_ok ha hcreate
  have htracks : Tracks { e with tables := t }
      (r.add (createdEntry r c 0 (some CO) authKeyId a b)) := ⟨hrep, h.tags⟩
  exact ⟨_, rfl, rfl, sendQuery_ok htracks List.mem_cons_self
    (by exact hok : sendQuery net _ c CO (createdEntry r c 0 (some CO) authKeyId a b).ptr flags data = _)⟩

/-- **`forward_tcp_query`** forwards under the id of an entry with the descriptor of the client. -/
theorem Tracks.forwardTcpQuery_ok (h : Tracks e r) {S : Option ℕ} {flags res : ℕ}
    {authKeyId : Int64} {data : Bytes} {chance : Chance}
    (hcell : ∀ x ∈ r.entries, x.addr = chance.cell → x.inFd = c.fd)
    (hopens : ∀ d, chooseReady e S chance.conns = some d →
      queryFlags net e c flags &&& rpcFDropped = 0 → opens)
    (hok : forwardTcpQuery net e c S flags authKeyId data chance = .ok (res, e')) :
    Forwarded c opens r e e' := by
  simp only [forwardTcpQuery] at hok
  rw [h.tables.getByInFd c.fd_lt, ok_bind] at hok
  -- the key may change; nothing else of the registry does
  obtain ⟨g, hrekey⟩ : ∃ g, (if ptrOf (r.byInFd c.fd) ≠ .null ∧
        e.tables.authKeyId (ptrOf (r.byInFd c.fd)) ≠ authKeyId then
      { e with tables := { e.tables with
          authKeyId := update e.tables.authKeyId (ptrOf (r.byInFd c.fd)) authKeyId } }
      else e) = { e with tables := { e.tables with authKeyId := g } } := by
    split
    · exact ⟨_, rfl⟩
    · exact ⟨e.tables.authKeyId, rfl⟩
  rw [hrekey] at hok
  obtain ⟨⟨d, Ex, e₂⟩, hkeep, hok⟩ := bind_eq_ok.mp hok
  have h₁ : Tracks { e with tables := { e.tables with authKeyId := g } } (r.rekey g) :=
    ⟨h.tables.rekey g, h.tags⟩
  have hptr : ptrOf (r.byInFd c.fd) = ptrOf ((r.rekey g).byInFd c.fd) := by
    rw [Registry.byInFd_rekey]
    cases r.byInFd c.fd with
    | none => rfl
    | some x => rfl
  have hold : ∀ y ∈ (r.rekey g).entries, ∃ x ∈ r.entries,
      y.addr = x.addr ∧ y.inFd = x.inFd ∧ y.inGen = x.inGen := by
    intro y hy
    obtain ⟨x, hx, rfl⟩ := List.mem_map.mp hy
    exact ⟨x, hx, rfl, rfl, rfl⟩
  rw [hptr] at hkeep
  rcases keepMiddleEnd_ok h₁ (fun x hx => (Registry.mem_of_byInFd hx).1) hkeep with
    ⟨x, d', hfind, rfl, rfl, rfl⟩ | ⟨rfl, hextra, r₂, h₂, hsub, xs, heffects, hxs⟩
  · obtain ⟨hx, hfd⟩ := Registry.mem_of_byInFd hfind
    obtain ⟨htracks, z, heffects, hz⟩ := sendQuery_ok h₁ hx hok
    refine ⟨r.rekey g, htracks, fun y hy => ?_, [z], heffects, ?_⟩
    · obtain ⟨x, hx, -, hof⟩ := hold y hy
      exact Or.inl ⟨x, hx, hof⟩
    · intro z' hz' id hid
      rw [List.mem_singleton.mp hz', hz] at hid
      exact ⟨x, hx, Option.some.inj hid, hfd⟩
  · have hkin : ∀ y ∈ r₂.entries, ∃ x ∈ r.entries, y.inFd = x.inFd ∧ y.inGen = x.inGen := by
      intro y hy
      obtain ⟨x, hx, -, hof⟩ := hold y (hsub y hy).1
      exact ⟨x, hx, hof⟩
    have hquiet : ∀ z ∈ xs, ∀ id, z.requestId = some id →
        ∃ y ∈ r₂.entries, y.outConnId = id ∧ y.inFd = c.fd := by
      intro z hz id hid
      rw [hxs z hz] at hid
      exact absurd hid (by simp)
    rw [chooseReady_congr e e₂ hextra] at hok
    simp only at hok
    split at hok
    case h_1 =>
      obtain ⟨-, rfl⟩ := Prod.mk.inj (Except.ok.inj hok)
      refine ⟨r₂, ?_, fun y hy => Or.inl (hkin y hy), xs, ?_, hquiet⟩
      · split
        · exact ⟨h₂.tables, h₂.tags⟩
        · exact h₂
      · rw [← heffects]
        split <;> rfl
    case h_2 CO hchoose =>
      split at hok
      case isTrue =>
        obtain ⟨-, rfl⟩ := Prod.mk.inj (Except.ok.inj hok)
        refine ⟨r₂, h₂.emit _, fun y hy => Or.inl (hkin y hy), xs ++ [.fail c (-35)], ?_, ?_⟩
        · rw [Engine.emit_effects, heffects, List.append_assoc]
        · intro z hz id hid
          rcases List.mem_append.mp hz with hz | hz
          · exact hquiet z hz id hid
          · rw [List.mem_singleton.mp hz] at hid
            exact absurd hid (by simp [Effect.requestId])
      case isFalse hflags =>
        obtain ⟨⟨Ex', t⟩, hcreate, hok⟩ := bind_eq_ok.mp hok
        have hfree : ∀ y ∈ r₂.entries, y.addr ≠ chance.cell := by
          intro y hy heq
          obtain ⟨hy', hne⟩ := hsub y hy
          obtain ⟨x, hx, haddr, hfd, -⟩ := hold y hy'
          have hsame : y.inFd = c.fd := hfd.trans (hcell x hx (haddr.symm.trans heq))
          exact hne (hsame ▸ h₁.tables.sound.byInFd_eq hy')
        obtain ⟨y, hyfd, hygen, htracks, z, heffects', hz⟩ := h₂.openBinding_ok hfree hcreate hok
        refine ⟨r₂.add y, htracks, ?_, xs ++ [z], ?_, ?_⟩
        · refine List.forall_mem_cons.mpr ⟨Or.inr ⟨hyfd, hygen, ?_⟩, fun w hw => Or.inl (hkin w hw)⟩
          exact hopens CO hchoose (by simpa using hflags)
        · rw [heffects', heffects, List.append_assoc]
        · intro z' hz' id hid
          rcases List.mem_append.mp hz' with hz' | hz'
          · obtain ⟨w, hw, hof⟩ := hquiet z' hz' id hid
            exact ⟨w, List.mem_cons_of_mem _ hw, hof⟩
          · rw [List.mem_singleton.mp hz', hz] at hid
            exact ⟨y, List.mem_cons_self, Option.some.inj hid, hyfd⟩

/-- **`do_rpcs_execute`** forwards under the id of an entry with the descriptor of the client. -/
theorem Tracks.doRpcsExecute_ok (h : Tracks e r) {rpcFlags : ℕ} {data : Bytes} {chance : Chance}
    (hcell : ∀ x ∈ r.entries, x.addr = chance.cell → x.inFd = c.fd)
    (hok : doRpcsExecute net e c rpcFlags data chance = .ok e') :
    Forwarded c (opensBinding net e c rpcFlags data chance = true) r e e' := by
  obtain ⟨t, hinsert, hrep⟩ := h.lruInsertConn c
  have h₁ : Tracks { e with tables := t } (r.touch c) :=
    ⟨hrep, by rw [r.touch_ready]; exact h.tags⟩
  simp only [doRpcsExecute] at hok
  rw [hinsert, ok_bind] at hok
  obtain ⟨⟨res, e₂⟩, hforward, hok⟩ := bind_eq_ok.mp hok
  obtain rfl := Except.ok.inj hok
  rw [forwardMtprotoPacket_eq] at hforward
  have hentries := r.touch_entries c
  have hresult : Forwarded c (opensBinding net e c rpcFlags data chance = true) (r.touch c)
      { e with tables := t } e₂ := by
    split at hforward
    case h_1 =>
      obtain ⟨-, rfl⟩ := Prod.mk.inj (Except.ok.inj hforward)
      exact h₁.forwarded
    case h_2 flags authKeyId hquery =>
      refine h₁.forwardTcpQuery_ok (by rw [hentries]; exact hcell) (fun d hd hflags => ?_) hforward
      rw [chooseProxyTarget_congr e { e with tables := t } rfl,
        chooseReady_congr e { e with tables := t } rfl] at hd
      simp only [opensBinding, hquery, hd, Option.isSome_some, Bool.true_and, decide_eq_true_eq]
      exact hflags
  obtain ⟨r', htracks, hkin, hforwarded⟩ := hresult
  rw [hentries] at hkin
  exact ⟨r', htracks, hkin, hforwarded⟩

end

end MtprotoProxy
