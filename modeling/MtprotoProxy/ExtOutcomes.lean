/-
# Calls that succeed

The specifications of the functions of the engine thread say that a call succeeds when the
proxy makes it.  Here it is the other way round: a call that succeeds, from any state that
represents a registry and with any arguments, did to the registry what the call is for.  So
nothing has to be known about who makes the calls.
-/
import MtprotoProxy.ExtCalls

namespace MtprotoProxy

open Function (update)
open Linked
open CLib

/-- What was asked of connections since the state `e`. -/
def Engine.newEffects (e e' : Engine) : List Effect := e'.effects.drop e.effects.length

section

variable {e e' : Engine} {r : Registry} {net : Net}

theorem Engine.newEffects_eq {xs : List Effect} (h : e'.effects = e.effects ++ xs) :
    e.newEffects e' = xs := by
  rw [newEffects, h, List.drop_left]

/-! ## Removing -/

/-- A client is failed only if its entry has no `in_conn_id`. -/
theorem notifyInput_ok (h : Tracks e r) {x : Entry} (hx : x ∈ r.entries) {n : ℕ}
    (hok : notifyInput net e x.ptr n = .ok e') (hn : n.testBit 1 = true) : x.inConnId = 0 := by
  have hcell := h.tables.fields x hx
  have hpos := h.tables.sound.inFd_pos x hx
  simp only [notifyInput, hcell.inFd, hcell.inConnId] at hok
  rw [if_pos (by omega)] at hok
  obtain ⟨_, -, hok⟩ := bind_eq_ok.mp hok
  obtain ⟨_, -, hok⟩ := bind_eq_ok.mp hok
  rw [if_pos hn] at hok
  obtain ⟨_, hzero, -⟩ := bind_eq_ok.mp hok
  exact require_eq_ok.mp hzero

/-- A removal that succeeds is one of a live entry. -/
theorem removeExtConnection_ok (h : Tracks e r) {a n : ℕ}
    (hok : removeExtConnection net e (.node a) n = .ok e') :
    ∃ x ∈ r.entries, x.addr = a ∧ (n.testBit 1 = true → x.inConnId = 0) := by
  simp only [removeExtConnection] at hok
  obtain ⟨_, -, hok⟩ := bind_eq_ok.mp hok
  obtain ⟨_, hvalid, hok⟩ := bind_eq_ok.mp hok
  rw [require_eq_ok] at hvalid
  obtain ⟨x, hx, rfl⟩ := (h.tables.cells a).mp hvalid
  refine ⟨x, hx, rfl, fun hn => ?_⟩
  obtain ⟨_, -, hok⟩ := bind_eq_ok.mp hok
  obtain ⟨_, -, hok⟩ := bind_eq_ok.mp hok
  obtain ⟨_, -, hok⟩ := bind_eq_ok.mp hok
  obtain ⟨e₁, hout, hok⟩ := bind_eq_ok.mp hok
  obtain ⟨e₂, hin, -⟩ := bind_eq_ok.mp hok
  have hsame := h.notifyOutput net hx n
  rw [show x.ptr = .node x.addr from rfl, hout] at hsame
  obtain rfl := Except.ok.inj hsame
  exact notifyInput_ok (h.withEffects _) hx hin hn

/-- **A removal that succeeds** removes exactly the entry and tells its two ends. -/
theorem Tracks.remove_ok (h : Tracks e r) {a n : ℕ}
    (hok : removeExtConnection net e (.node a) n = .ok e') :
    ∃ x ∈ r.entries, x.addr = a ∧ Tracks e' (r.remove a) ∧
      e'.effects = e.effects ++ removeEffects net x n ∧ e'.extraInt = e.extraInt := by
  obtain ⟨x, hx, rfl, hzero⟩ := removeExtConnection_ok h hok
  obtain ⟨t, hremove, hrep⟩ := h.remove net hx hzero
  rw [show x.ptr = .node x.addr from rfl, hok] at hremove
  obtain rfl := Except.ok.inj hremove
  exact ⟨x, hx, rfl, ⟨hrep, h.tags⟩, rfl, rfl⟩

/-- The same with the test for the null pointer, on what a lookup found. -/
theorem Tracks.removeIfAny_ok (h : Tracks e r) {x? : Option Entry}
    (hx? : ∀ x, x? = some x → x ∈ r.entries) {n : ℕ}
    (hok : removeIfAny net e (ptrOf x?) n = .ok e') :
    (x? = none ∧ e' = e) ∨
      ∃ x, x? = some x ∧ x ∈ r.entries ∧ Tracks e' (r.remove x.addr) ∧
        e'.effects = e.effects ++ removeEffects net x n ∧ e'.extraInt = e.extraInt := by
  cases x? with
  | none =>
    rw [removeIfAny, ptrOf, if_neg (by simp)] at hok
    exact Or.inl ⟨rfl, (Except.ok.inj hok).symm⟩
  | some x =>
    rw [removeIfAny, ptrOf, if_pos x.ptr_ne_null] at hok
    have hx := hx? x rfl
    obtain ⟨y, hy, haddr, htracks, heffects, hextra⟩ := h.remove_ok (a := x.addr) hok
    obtain rfl := h.tables.sound.addr_inj hy hx haddr
    exact Or.inr ⟨y, rfl, hx, htracks, heffects, hextra⟩

/-! ## Middle-ends that come and go -/

/-- A middle-end that becomes ready does so on a descriptor without one. -/
theorem mtfrontClientReady_ok (h : Tracks e r) {C : ConnRef}
    (hok : mtfrontClientReady e C = .ok e') : r.ready C.fd = none := by
  simp only [mtfrontClientReady] at hok
  obtain ⟨_, -, hok⟩ := bind_eq_ok.mp hok
  obtain ⟨_, hprev, -⟩ := bind_eq_ok.mp hok
  rw [require_eq_ok] at hprev
  by_contra hready
  have hring := h.tables.outputs.ring C.fd ((h.tables.ready C.fd).mpr hready)
  exact ne_null_of_mem_ring hring.ends_mem.2 hprev

/-- A loop of `mtfront_client_close` that succeeds met only entries without an `in_conn_id`. -/
theorem closeLoop_ok {fd : ℕ} (hfd : 0 < fd) :
    ∀ {xs : List Entry} {e : Engine} {r : Registry} {fuel : ℕ}, Tracks e r → r.outs fd = xs →
      r.ready fd ≠ none → closeLoop net fd fuel e (e.tables.oNext (.head fd)) = .ok e' →
      ∀ x ∈ xs, x.inConnId = 0 := by
  intro xs
  induction xs with
  | nil => intro _ _ _ _ _ _ _ x hx; exact absurd hx List.not_mem_nil
  | cons x xs ih =>
    rintro e r (_ | fuel) h hxs hready hok
    · exact absurd hok nofun
    · obtain ⟨hx, hxfd⟩ := Registry.mem_outs.mp (hxs ▸ List.mem_cons_self : x ∈ r.outs fd)
      have hring := h.tables.outs_ring hfd hready
      rw [hxs] at hring
      obtain ⟨hfirst, -, hrest⟩ := hring.segment
      rw [closeLoop, hfirst, if_neg (x.ptr_ne_head fd)] at hok
      obtain ⟨_, -, hok⟩ := bind_eq_ok.mp hok
      obtain ⟨_, -, hok⟩ := bind_eq_ok.mp hok
      obtain ⟨e₁, hremove, hok⟩ := bind_eq_ok.mp hok
      obtain ⟨y, hy, haddr, hzero⟩ := removeExtConnection_ok h (a := x.addr) hremove
      obtain ⟨-, -, -, htracks, -, -⟩ := h.remove_ok (a := x.addr) hremove
      obtain rfl := h.tables.sound.addr_inj hy hx haddr
      -- the successor that the loop remembers is the first entry of what is left
      have hnext : e.tables.oNext y.ptr = e₁.tables.oNext (.head fd) := by
        have hring' := htracks.tables.outs_ring hfd hready
        rw [Registry.outs_remove h.tables.sound hxs] at hring'
        rw [hring'.next_head]
        cases xs with
        | nil => exact hrest.1
        | cons z zs => exact hrest.1
      rw [hnext] at hok
      exact List.forall_mem_cons.mpr ⟨hzero (by decide),
        ih htracks (Registry.outs_remove h.tables.sound hxs) hready hok⟩

/-- A close of the ready middle-end that succeeds met only entries without an `in_conn_id`. -/
theorem mtfrontClientClose_ok (h : Tracks e r) {C : ConnRef} (hready : r.ready C.fd = some C)
    (hok : mtfrontClientClose net e C = .ok e') :
    ∀ x ∈ r.entries, x.outFd = C.fd → x.inConnId = 0 := by
  have hne : e.extraInt C ≠ 0 := (h.extraInt_ne_zero C).mpr hready
  simp only [mtfrontClientClose] at hok
  rw [if_pos hne] at hok
  obtain ⟨_, -, hok⟩ := bind_eq_ok.mp hok
  obtain ⟨_, -, hok⟩ := bind_eq_ok.mp hok
  obtain ⟨e₂, hloop, -⟩ := bind_eq_ok.mp hok
  intro x hx hfd
  exact closeLoop_ok C.fd_pos h rfl (by simp [hready]) hloop x (Registry.mem_outs.mpr ⟨hx, hfd⟩)

/-! ## Calls -/

/-- Nothing was added: the entries are among the old ones, and no slot was used. -/
structure Registry.Shrinks (r r' : Registry) : Prop where
  uses : r'.uses = r.uses
  sub : ∀ x ∈ r'.entries, x ∈ r.entries

theorem Registry.Shrinks.rfl {r : Registry} : r.Shrinks r := ⟨Eq.refl _, fun _ hx => hx⟩

theorem Registry.shrinks_remove (r : Registry) (a : ℕ) : r.Shrinks (r.remove a) :=
  ⟨Eq.refl _, fun _ hx => (mem_without.mp hx).1⟩

theorem Registry.shrinks_touch (r : Registry) (c : ConnRef) : r.Shrinks (r.touch c) := by
  refine ⟨?_, fun x hx => by rwa [r.touch_entries] at hx⟩
  unfold Registry.touch
  repeat' split
  all_goals exact Eq.refl _

theorem Registry.shrinks_untouch (r : Registry) (c : ConnRef) : r.Shrinks (r.untouch c) := by
  refine ⟨?_, fun x hx => by rwa [r.untouch_entries] at hx⟩
  unfold Registry.untouch
  split
  all_goals exact Eq.refl _

/-- The calls that are not a creation. -/
def ExtCall.isCreate : ExtCall → Bool
  | .create .. => true
  | _ => false

/-- A close of a middle-end removes the entries of its list, if it is the ready one. -/
theorem Tracks.clientClose_ok (h : Tracks e r) {C : ConnRef}
    (hok : mtfrontClientClose net e C = .ok e') : ∃ r', Tracks e' r' ∧ r.Shrinks r' := by
  by_cases hready : r.ready C.fd = some C
  · obtain ⟨e₁, hclose, htracks, -, -⟩ :=
      h.clientClose net hready (mtfrontClientClose_ok h hready hok)
    obtain rfl := Except.ok.inj (hclose.symm.trans hok)
    exact ⟨_, htracks, Eq.refl _, fun x hx => (List.mem_filter.mp hx).1⟩
  · have hsame := h.clientClose_of_not_ready net hready
    obtain rfl := Except.ok.inj (hsame.symm.trans hok)
    exact ⟨r, h, .rfl⟩

/-- **A call that succeeds and is not a creation** adds no entry. -/
theorem Tracks.call_ok (h : Tracks e r) {c : ExtCall} (hc : c.isCreate = false)
    (hok : e.call net c = .ok e') : ∃ r', Tracks e' r' ∧ r.Shrinks r' := by
  cases c with
  | create => exact absurd hc nofun
  | remove a n =>
    obtain ⟨x, -, -, htracks, -, -⟩ := h.remove_ok hok
    exact ⟨_, htracks, r.shrinks_remove a⟩
  | find id =>
    simp only [Engine.call, h.tables.find, ok_bind, pure_eq_ok] at hok
    obtain rfl := Except.ok.inj hok
    exact ⟨r, h, .rfl⟩
  | findByInFd fd =>
    obtain ⟨_, -, hsame⟩ := bind_eq_ok.mp hok
    obtain rfl := Except.ok.inj hsame
    exact ⟨r, h, .rfl⟩
  | findByInConnId fd inGen inConnId =>
    obtain ⟨res, hlookup⟩ := h.tables.lookup_find fd inGen inConnId
    simp only [Engine.call, hlookup, ok_bind, pure_eq_ok] at hok
    obtain rfl := Except.ok.inj hok
    exact ⟨r, h, .rfl⟩
  | lruInsert c =>
    obtain ⟨t, hinsert, hrep⟩ := h.lruInsertConn c
    obtain rfl := Except.ok.inj (hinsert.symm.trans hok)
    exact ⟨_, ⟨hrep, by rw [r.touch_ready]; exact h.tags⟩, r.shrinks_touch c⟩
  | lruDelete c =>
    obtain ⟨t, hdelete, hrep⟩ := h.lruDeleteConn c
    obtain rfl := Except.ok.inj (hdelete.symm.trans hok)
    exact ⟨_, ⟨hrep, by rw [r.untouch_ready]; exact h.tags⟩, r.shrinks_untouch c⟩
  | lruEvict =>
    obtain ⟨t, xs, hevict, hrep⟩ := h.evict net
    obtain rfl := Except.ok.inj (hevict.symm.trans hok)
    exact ⟨_, ⟨hrep, h.tags⟩, Eq.refl _, fun x hx => hx⟩
  | mtfrontClientReady C =>
    obtain ⟨e₁, hready, htracks, -, -⟩ := h.clientReady (mtfrontClientReady_ok h hok)
    obtain rfl := Except.ok.inj (hready.symm.trans hok)
    exact ⟨_, htracks, Eq.refl _, fun x hx => hx⟩
  | mtfrontClientClose C => exact h.clientClose_ok hok
  | mtprotoExtRpcClose C =>
    obtain ⟨e₁, hclose, hcase, -⟩ := h.extRpcClose net C
    obtain rfl := Except.ok.inj (hclose.symm.trans hok)
    cases hfind : r.byInFd C.fd with
    | none =>
      rw [hfind] at hcase
      obtain rfl := hcase
      exact ⟨r, h, .rfl⟩
    | some x =>
      rw [hfind] at hcase
      exact ⟨_, hcase.1, r.shrinks_remove _⟩

/-- **A creation that succeeds** adds one fresh entry, in the cell that was given. -/
theorem Tracks.create_ok (h : Tracks e r) {CI : ConnRef} {CO : Option ConnRef}
    {inConnId authKeyId : Int64} {a : ℕ} {rands : List ℕ} (ha : e.tables.allocated a = false)
    (hok : e.call net (.create CI inConnId CO authKeyId a rands) = .ok e') :
    ∃ b, Fresh r (createdEntry r CI inConnId CO authKeyId a b) b ∧
      Tracks e' (r.add (createdEntry r CI inConnId CO authKeyId a b)) := by
  obtain ⟨⟨p, t⟩, hcreate, hsame⟩ := bind_eq_ok.mp hok
  obtain rfl := Except.ok.inj hsame
  have hfree : ∀ x ∈ r.entries, x.addr ≠ a := by
    intro x hx heq
    have halloc := (h.tables.cells a).mpr ⟨x, hx, heq⟩
    rw [ha] at halloc
    exact absurd halloc nofun
  obtain ⟨b, hfresh, -, hrep⟩ := h.tables.create_ok hfree hcreate
  exact ⟨b, hfresh, hrep, h.tags⟩

/-! ## Messages of middle-ends -/

/-- The `out_conn_id` that a message of a middle-end names. -/
def messageId (op : ℕ) (msg : Bytes) : Int64 :=
  if op = rpcProxyAns then leLong (msg.drop 8) else leLong (msg.drop 4)

/-- **A delivery to the client `D` of the entry `y`** of the middle-end `C`: it changes at most
this entry, and asks something only of the client, or of the middle-end to close this entry. -/
structure Delivered (r : Registry) (C D : ConnRef) (y : Entry) (e e' : Engine) : Prop where
  registry : ∃ r', Tracks e' r' ∧ (r' = r ∨ r' = r.remove y.addr)
  effects : ∃ xs, e'.effects = e.effects ++ xs ∧
    ∀ x ∈ xs, x = .send C (.closeConn y.outConnId) ∨ x.target = D

variable {C D : ConnRef} {y : Entry}

/-- Nothing is delivered. -/
theorem Tracks.delivered (h : Tracks e r) : Delivered r C D y e e :=
  ⟨⟨r, h, Or.inl rfl⟩, [], by simp, by simp⟩

/-- One more effect on the client. -/
theorem Delivered.emit (h : Delivered r C D y e e') {x : Effect} (hx : x.target = D) :
    Delivered r C D y e (e'.emit x) := by
  obtain ⟨⟨r', htracks, hr'⟩, xs, heffects, hxs⟩ := h
  refine ⟨⟨r', htracks.emit x, hr'⟩, xs ++ [x], ?_, ?_⟩
  · rw [Engine.emit_effects, heffects, List.append_assoc]
  · intro z hz
    rcases List.mem_append.mp hz with hz | hz
    · exact hxs z hz
    · exact Or.inr (List.mem_singleton.mp hz ▸ hx)

/-- The check of the buffers fails at most the client. -/
theorem Delivered.checkConnBuffers (h : Delivered r C D y e e') (overfull : Bool) :
    Delivered r C D y e (checkConnBuffers e' D overfull).2 := by
  cases overfull with
  | false => exact h
  | true => exact h.emit rfl

/-- What a removal tells the middle-end that the entry is bound to. -/
theorem mem_removeEffects_one (hC : y.outFd = C.fd ∧ y.outGen = C.generation) {x : Effect}
    (hx : x ∈ removeEffects net y 1) : x = .send C (.closeConn y.outConnId) := by
  have hinput : inputEffects net y 1 = [] := if_neg (by decide)
  rw [removeEffects, hinput, List.append_nil, outputEffects] at hx
  split at hx
  case isFalse => exact absurd hx List.not_mem_nil
  case isTrue =>
    rw [Option.mem_toList, Option.map_eq_some_iff] at hx
    obtain ⟨CO, hCO, rfl⟩ := hx
    obtain ⟨hfd, hgen⟩ := connectionGetByFdGeneration_eq hCO
    obtain rfl : CO = C := ConnRef.ext_iff'.mpr ⟨hfd.trans hC.1, hgen.trans hC.2⟩
    rfl

/-- The entry of a client is removed; its middle-end is told. -/
theorem Delivered.removeIfAny (h : Delivered r C D y e e') (hsound : r.Sound)
    (hy : y ∈ r.entries) (hC : y.outFd = C.fd ∧ y.outGen = C.generation) (hD : y.inFd = D.fd) {Ex : Ptr} {e'' : Engine}
    (hfind : getExtConnectionByInFd e'.tables D.fd = .ok Ex)
    (hok : MtprotoProxy.removeIfAny net e' Ex 1 = .ok e'') : Delivered r C D y e e'' := by
  obtain ⟨⟨r', htracks, hr'⟩, xs, heffects, hxs⟩ := h
  rw [htracks.tables.getByInFd D.fd_lt] at hfind
  obtain rfl := Except.ok.inj hfind
  have hsub : ∀ x ∈ r'.entries, x ∈ r.entries := by
    rcases hr' with rfl | rfl
    · exact fun x hx => hx
    · exact fun x hx => (mem_without.mp hx).1
  rcases htracks.removeIfAny_ok (fun x hx => (Registry.mem_of_byInFd hx).1) hok with
    ⟨-, rfl⟩ | ⟨x, hx, hmem, htracks', heffects', -⟩
  · exact ⟨⟨r', htracks, hr'⟩, xs, heffects, hxs⟩
  · have hfd := (Registry.mem_of_byInFd hx).2
    obtain rfl := hsound.fd_inj (hsub x hmem) hy (hfd.trans hD.symm)
    have hremoved : r'.remove x.addr = r.remove x.addr := by
      rcases hr' with rfl | rfl
      · rfl
      · exact absurd rfl (mem_without.mp hmem).2
    refine ⟨⟨_, htracks', Or.inr hremoved⟩, xs ++ removeEffects net x 1, ?_, ?_⟩
    · rw [heffects', heffects, List.append_assoc]
    · intro z hz
      rcases List.mem_append.mp hz with hz | hz
      · exact hxs z hz
      · exact Or.inl (mem_removeEffects_one hC hz)

/-- **`client_send_message`** delivers to the client. -/
theorem Tracks.clientSendMessage_ok (h : Tracks e r) (hy : y ∈ r.entries)
    (hC : y.outFd = C.fd ∧ y.outGen = C.generation) (hD : y.inFd = D.fd) {inConnId : Int64}
    {data : Bytes} {flags : ℕ} (hok : clientSendMessage net e D inConnId data flags = .ok e') :
    Delivered r C D y e e' := by
  have hstart : Delivered r C D y e (checkConnBuffers e D (net.overfull D)).2 :=
    h.delivered.checkConnBuffers _
  simp only [clientSendMessage] at hok
  split at hok
  case isFalse =>
    obtain rfl := Except.ok.inj hok
    exact hstart
  case isTrue =>
    obtain ⟨_, -, hok⟩ := bind_eq_ok.mp hok
    split at hok
    case isFalse =>
      obtain rfl := Except.ok.inj hok
      exact (hstart.emit rfl).checkConnBuffers _
    case isTrue =>
      simp only [httpSendMessage] at hok
      obtain ⟨_, -, hok⟩ := bind_eq_ok.mp hok
      obtain ⟨Ex, hfind, hok⟩ := bind_eq_ok.mp hok
      obtain ⟨e₁, hremove, hok⟩ := bind_eq_ok.mp hok
      obtain rfl := Except.ok.inj hok
      refine Delivered.emit (Delivered.removeIfAny ?_ h.tables.sound hy hC hD hfind hremove) rfl
      split
      · exact hstart.emit rfl
      · exact hstart.emit rfl

/-- **`push_rpc_confirmation`** delivers to the client. -/
theorem Tracks.pushRpcConfirmation_ok (h : Tracks e r) (confirm : ℕ) (rands : List ℕ) :
    Delivered r C D y e (pushRpcConfirmation net e D confirm rands) := by
  have hstart : Delivered r C D y e e := h.delivered
  unfold pushRpcConfirmation
  split
  · exact hstart.emit rfl
  · exact (hstart.emit rfl).emit rfl

/-- The client of an entry that a message finds. -/
theorem Tracks.boundClient_eq (h : Tracks e r) {id : Int64}
    (hbound : boundClient net e.tables C (ptrOf (r.byOutConnId id)) = some D) :
    ∃ y, r.byOutConnId id = some y ∧ y ∈ r.entries ∧ y.outConnId = id ∧
      (y.outFd = C.fd ∧ y.outGen = C.generation) ∧
      y.inFd = D.fd ∧ y.inGen = D.generation := by
  cases hfind : r.byOutConnId id with
  | none =>
    rw [hfind, boundClient, ptrOf, if_neg (by simp)] at hbound
    exact absurd hbound (by simp)
  | some y =>
    obtain ⟨hy, hid⟩ := Registry.mem_of_byOutConnId hfind
    have hcell := h.tables.fields y hy
    rw [hfind, boundClient, ptrOf, hcell.outFd, hcell.outGen, hcell.inFd, hcell.inGen] at hbound
    split at hbound
    case isFalse => exact absurd hbound (by simp)
    case isTrue hC =>
      obtain ⟨hfd, hgen⟩ := connectionGetByFdGeneration_eq hbound
      exact ⟨y, rfl, hy, hid, hC.2, hfd.symm, hgen.symm⟩

/-- **What a message of the middle-end `C` does.** -/
inductive Outcome (net : Net) (r : Registry) (C : ConnRef) (op : ℕ) (msg : Bytes)
    (e e' : Engine) : Prop
  /-- nothing to the entries; at most the middle-end is told to close an id -/
  | quiet (hclose : op = rpcCloseExt → msg.length = 12 →
      ∀ y ∈ r.entries, y.outConnId ≠ messageId op msg)
    (h : Tracks e' r) (xs : List Effect) (heffects : e'.effects = e.effects ++ xs)
    (hxs : ∀ x ∈ xs, ∃ id, x = .send C (.closeConn id))
  /-- a delivery to the client of the entry that the message names and that is bound to `C` -/
  | deliver (hop : op ≠ rpcCloseExt) (D : ConnRef) (y : Entry) (hy : y ∈ r.entries) (hid : y.outConnId = messageId op msg)
    (hC : y.outFd = C.fd ∧ y.outGen = C.generation)
    (hD : y.inFd = D.fd ∧ y.inGen = D.generation) (h : Delivered r C D y e e')
  /-- the removal of the entry that `RPC_CLOSE_EXT` names -/
  | close (hop : op = rpcCloseExt) (hlen : msg.length = 12) (y : Entry) (hy : y ∈ r.entries)
    (hid : y.outConnId = messageId op msg) (h : Tracks e' (r.remove y.addr))
    (heffects : e'.effects = e.effects ++ removeEffects net y 2)

/-- **Every message that is processed** has one of these outcomes. -/
theorem Tracks.processClientPacket_ok (h : Tracks e r) {op res : ℕ} {msg : Bytes} {rands : List ℕ}
    (hok : processClientPacket net e C op msg rands = .ok (res, e')) :
    Outcome net r C op msg e e' := by
  have hquiet : (op = rpcCloseExt → msg.length = 12 →
      ∀ y ∈ r.entries, y.outConnId ≠ messageId op msg) → Outcome net r C op msg e e :=
    fun hclose => .quiet hclose h [] (by simp) (by simp)
  have hunknown : op ≠ rpcCloseExt → ∀ id,
      Outcome net r C op msg e (notifyRemoteClosed e C id) := fun hop id =>
    .quiet (fun heq => absurd heq hop) (h.emit _) [.send C (.closeConn id)] rfl (by simp)
  simp only [processClientPacket] at hok
  obtain ⟨_, -, hok⟩ := bind_eq_ok.mp hok
  split at hok
  case isTrue hop =>
    -- RPC_PONG
    obtain ⟨-, rfl⟩ := Prod.mk.inj (Except.ok.inj hok)
    exact hquiet (fun heq => absurd (hop.symm.trans heq) (by decide))
  case isFalse =>
  split at hok
  case isTrue hop =>
    -- RPC_PROXY_ANS
    have hne : op ≠ rpcCloseExt := fun heq => absurd (hop.symm.trans heq) (by decide)
    split at hok
    case isFalse =>
      obtain ⟨-, rfl⟩ := Prod.mk.inj (Except.ok.inj hok)
      exact hquiet (fun heq => absurd heq hne)
    case isTrue =>
      obtain ⟨_, -, hok⟩ := bind_eq_ok.mp hok
      rw [h.tables.find, ok_bind] at hok
      split at hok
      case h_2 =>
        obtain ⟨-, rfl⟩ := Prod.mk.inj (Except.ok.inj hok)
        exact hunknown hne _
      case h_1 D hbound =>
        obtain ⟨y, hfind, hy, hid, hC, hD⟩ := h.boundClient_eq hbound
        obtain ⟨e₁, hsend, hok⟩ := bind_eq_ok.mp hok
        obtain ⟨-, rfl⟩ := Prod.mk.inj (Except.ok.inj hok)
        refine .deliver hne D y hy ?_ hC hD (h.clientSendMessage_ok hy hC hD.1 hsend)
        rw [hid, messageId, if_pos hop, List.drop_drop]
  case isFalse hans =>
  split at hok
  case isTrue hop =>
    -- RPC_SIMPLE_ACK
    have hne : op ≠ rpcCloseExt := fun heq => absurd (hop.symm.trans heq) (by decide)
    split at hok
    case isFalse =>
      obtain ⟨-, rfl⟩ := Prod.mk.inj (Except.ok.inj hok)
      exact hquiet (fun heq => absurd heq hne)
    case isTrue =>
      rw [h.tables.find, ok_bind] at hok
      split at hok
      case h_2 =>
        obtain ⟨-, rfl⟩ := Prod.mk.inj (Except.ok.inj hok)
        exact hunknown hne _
      case h_1 D hbound =>
        obtain ⟨y, hfind, hy, hid, hC, hD⟩ := h.boundClient_eq hbound
        obtain ⟨_, -, hok⟩ := bind_eq_ok.mp hok
        obtain ⟨-, rfl⟩ := Prod.mk.inj (Except.ok.inj hok)
        refine .deliver hne D y hy ?_ hC hD (h.pushRpcConfirmation_ok _ _)
        rw [hid, messageId, if_neg hans]
  case isFalse =>
  split at hok
  case isTrue hop =>
    -- RPC_CLOSE_EXT, which does not ask which middle-end the entry is bound to
    split at hok
    case isFalse hlen =>
      obtain ⟨-, rfl⟩ := Prod.mk.inj (Except.ok.inj hok)
      exact hquiet (fun _ hlen' => absurd hlen' hlen)
    case isTrue hlen =>
      rw [h.tables.find, ok_bind] at hok
      obtain ⟨e₁, hremove, hok⟩ := bind_eq_ok.mp hok
      obtain ⟨-, rfl⟩ := Prod.mk.inj (Except.ok.inj hok)
      rcases h.removeIfAny_ok (fun x hx => (Registry.mem_of_byOutConnId hx).1) hremove with
        ⟨hnone, rfl⟩ | ⟨y, hfind, hy, htracks, heffects, -⟩
      · refine hquiet (fun _ _ => ?_)
        rw [messageId, if_neg hans]
        exact Registry.byOutConnId_eq_none.mp hnone
      · refine .close hop hlen y hy ?_ htracks heffects
        rw [(Registry.mem_of_byOutConnId hfind).2, messageId, if_neg hans]
  case isFalse hclose =>
    obtain ⟨-, rfl⟩ := Prod.mk.inj (Except.ok.inj hok)
    exact hquiet (fun heq => absurd heq hclose)

end

end MtprotoProxy
