/-
# Middle-ends are kept apart, but for `RPC_CLOSE_EXT`

A message of the middle-end `C` should reach only the external connections that are bound to
`C`.  `RPC_PROXY_ANS` and `RPC_SIMPLE_ACK` compare `out_fd` and `out_gen` with the connection
that the message came from; `RPC_CLOSE_EXT` removes whatever its id names.
-/
import MtprotoProxy.ExtOutcomes

namespace MtprotoProxy

open CLib

/-! ## Isolation -/

/-- The external connection in the cell `a` is bound to the middle-end `C`. -/
def BoundTo (t : ExtTables) (a : ℕ) (C : ConnRef) : Prop :=
  t.outFd (.node a) = C.fd ∧ t.outGen (.node a) = C.generation

instance (t : ExtTables) (a : ℕ) (C : ConnRef) : Decidable (BoundTo t a C) :=
  inferInstanceAs (Decidable (_ ∧ _))

/-- The external connection in the cell `a` is still there, with all its fields. -/
structure Unchanged (t t' : ExtTables) (a : ℕ) : Prop where
  allocated : t'.allocated a = true
  inFd : t'.inFd (.node a) = t.inFd (.node a)
  inGen : t'.inGen (.node a) = t.inGen (.node a)
  inConnId : t'.inConnId (.node a) = t.inConnId (.node a)
  outFd : t'.outFd (.node a) = t.outFd (.node a)
  outGen : t'.outGen (.node a) = t.outGen (.node a)
  outConnId : t'.outConnId (.node a) = t.outConnId (.node a)
  authKeyId : t'.authKeyId (.node a) = t.authKeyId (.node a)

/-- `c` is the client connection of the external connection in the cell `a`. -/
def IsClientOf (t : ExtTables) (a : ℕ) (c : ConnRef) : Prop :=
  c.fd = t.inFd (.node a) ∧ c.generation = t.inGen (.node a)

/-- **Every external connection that is not bound to `C`** is unchanged, and nothing is asked of
its client connection. -/
def Isolated (C : ConnRef) (e e' : Engine) : Prop :=
  ∀ a, e.tables.allocated a = true → ¬ BoundTo e.tables a C →
    Unchanged e.tables e'.tables a ∧
      ∀ x ∈ e.newEffects e', ¬ IsClientOf e.tables a x.target

/-- A message `RPC_CLOSE_EXT` of the middle-end `C` that names an external connection which is not
bound to `C`. -/
def ForeignClose (t : ExtTables) (C : ConnRef) (op : ℕ) (msg : Bytes) : Prop :=
  op = rpcCloseExt ∧ msg.length = 12 ∧
    ∃ a, t.allocated a = true ∧ t.outConnId (.node a) = leLong (msg.drop 4) ∧ ¬ BoundTo t a C

section

variable {e e' : Engine} {r r' : Registry} {net : Net} {C : ConnRef} {op res : ℕ} {msg : Bytes}
  {rands : List ℕ}

/-- An entry of both registries is unchanged. -/
theorem Represents.unchanged {t t' : ExtTables} (h : Represents t r) (h' : Represents t' r')
    {x : Entry} (hx : x ∈ r.entries) (hx' : x ∈ r'.entries) : Unchanged t t' x.addr := by
  have hcell := h.fields x hx
  have hcell' := h'.fields x hx'
  exact ⟨(h'.cells x.addr).mpr ⟨x, hx', rfl⟩, hcell'.inFd.trans hcell.inFd.symm,
    hcell'.inGen.trans hcell.inGen.symm, hcell'.inConnId.trans hcell.inConnId.symm,
    hcell'.outFd.trans hcell.outFd.symm, hcell'.outGen.trans hcell.outGen.symm,
    hcell'.outConnId.trans hcell.outConnId.symm, hcell'.authKeyId.trans hcell.authKeyId.symm⟩

/-- A cell is bound to the middle-end that its entry says. -/
theorem Represents.boundTo_iff {t : ExtTables} (h : Represents t r) {x : Entry}
    (hx : x ∈ r.entries) : BoundTo t x.addr C ↔ x.outFd = C.fd ∧ x.outGen = C.generation := by
  have hcell := h.fields x hx
  rw [← hcell.outFd, ← hcell.outGen]
  rfl

/-- The client of a cell is that of its entry. -/
theorem Represents.isClientOf_iff {t : ExtTables} (h : Represents t r) {x : Entry}
    (hx : x ∈ r.entries) {c : ConnRef} :
    IsClientOf t x.addr c ↔ c.fd = x.inFd ∧ c.generation = x.inGen := by
  have hcell := h.fields x hx
  rw [← hcell.inFd, ← hcell.inGen]
  rfl

/-- Isolation in terms of the registry: the entries that are not bound to `C` stay, and nothing
is asked of their clients. -/
theorem Tracks.isolated (h : Tracks e r) (h' : Tracks e' r') {xs : List Effect}
    (heffects : e'.effects = e.effects ++ xs)
    (hall : ∀ x ∈ r.entries, ¬ (x.outFd = C.fd ∧ x.outGen = C.generation) →
      x ∈ r'.entries ∧ ∀ z ∈ xs, ¬ (z.target.fd = x.inFd ∧ z.target.generation = x.inGen)) :
    Isolated C e e' := by
  intro a ha hbound
  obtain ⟨x, hx, rfl⟩ := (h.tables.cells a).mp ha
  obtain ⟨hx', hclient⟩ := hall x hx (fun hC => hbound ((h.tables.boundTo_iff hx).mpr hC))
  refine ⟨h.tables.unchanged h'.tables hx hx', ?_⟩
  rw [Engine.newEffects_eq heffects]
  exact fun z hz hof => hclient z hz ((h.tables.isClientOf_iff hx).mp hof)

/-- Entries that differ stay when one of them is removed. -/
theorem Registry.mem_remove {x y : Entry} (hsound : r.Sound) (hx : x ∈ r.entries)
    (hy : y ∈ r.entries) (hne : x ≠ y) : x ∈ (r.remove y.addr).entries :=
  mem_without.mpr ⟨hx, fun heq => hne (hsound.addr_inj hx hy heq)⟩

/-- The client of an entry that is failed when the entry is removed. -/
theorem mem_removeEffects_two {y : Entry} {z : Effect} (hz : z ∈ removeEffects net y 2) :
    z.target.fd = y.inFd ∧ z.target.generation = y.inGen := by
  have houtput : outputEffects net y 2 = [] := if_neg (by simp)
  rw [removeEffects, houtput, List.nil_append, inputEffects, if_pos (by decide), Option.mem_toList,
    Option.map_eq_some_iff] at hz
  obtain ⟨CI, hCI, rfl⟩ := hz
  exact connectionGetByFdGeneration_eq hCI

/-- **A message that is no foreign close** leaves the entries of other middle-ends alone. -/
theorem Tracks.isolated_of_not_foreignClose (h : Tracks e r)
    (hC : ∀ a, e.tables.allocated a = true → ¬ IsClientOf e.tables a C)
    (hok : processClientPacket net e C op msg rands = .ok (res, e'))
    (hnot : ¬ ForeignClose e.tables C op msg) : Isolated C e e' := by
  have hclient : ∀ x ∈ r.entries, ¬ (C.fd = x.inFd ∧ C.generation = x.inGen) := fun x hx hof =>
    hC x.addr ((h.tables.cells x.addr).mpr ⟨x, hx, rfl⟩) ((h.tables.isClientOf_iff hx).mpr hof)
  cases h.processClientPacket_ok hok with
  | quiet _ h' xs heffects hxs =>
    refine h.isolated h' heffects (fun x hx _ => ⟨hx, fun z hz => ?_⟩)
    obtain ⟨id, rfl⟩ := hxs z hz
    exact hclient x hx
  | deliver _ D y hy _ hbound hD hdelivered =>
    obtain ⟨⟨r', h', hr'⟩, xs, heffects, hxs⟩ := hdelivered
    refine h.isolated h' heffects (fun x hx hfree => ?_)
    have hne : x ≠ y := fun heq => hfree (heq ▸ hbound)
    refine ⟨?_, fun z hz hof => ?_⟩
    · rcases hr' with rfl | rfl
      · exact hx
      · exact Registry.mem_remove h.tables.sound hx hy hne
    · rcases hxs z hz with rfl | rfl
      · exact hclient x hx hof
      · exact hne (h.tables.sound.fd_inj hx hy (hof.1.symm.trans hD.1.symm))
  | close hop hlen y hy hid h' heffects =>
    -- the entry is bound to `C`, or this is a foreign close
    have hbound : y.outFd = C.fd ∧ y.outGen = C.generation := by
      by_contra hfree
      refine hnot ⟨hop, hlen, y.addr, (h.tables.cells y.addr).mpr ⟨y, hy, rfl⟩, ?_, ?_⟩
      · rw [show Ptr.node y.addr = y.ptr from rfl, (h.tables.fields y hy).outConnId, hid, messageId,
          if_neg (by rw [hop]; decide)]
      · exact fun hb => hfree ((h.tables.boundTo_iff hy).mp hb)
    refine h.isolated h' heffects (fun x hx hfree => ?_)
    have hne : x ≠ y := fun heq => hfree (heq ▸ hbound)
    refine ⟨Registry.mem_remove h.tables.sound hx hy hne, fun z hz hof => ?_⟩
    exact hne (h.tables.sound.fd_inj hx hy (hof.1.symm.trans (mem_removeEffects_two hz).1))

/-- **A foreign close** removes an entry of another middle-end. -/
theorem Tracks.not_isolated_of_foreignClose (h : Tracks e r)
    (hok : processClientPacket net e C op msg rands = .ok (res, e'))
    (hforeign : ForeignClose e.tables C op msg) : ¬ Isolated C e e' := by
  obtain ⟨hop, hlen, a, ha, hid, hfree⟩ := hforeign
  obtain ⟨x, hx, rfl⟩ := (h.tables.cells a).mp ha
  have hname : x.outConnId = messageId op msg := by
    rw [messageId, if_neg (by rw [hop]; decide), ← hid]
    exact (h.tables.fields x hx).outConnId.symm
  cases h.processClientPacket_ok hok with
  | quiet hclose _ _ _ _ => exact absurd hname (hclose hop hlen x hx)
  | deliver hne => exact absurd hop hne
  | close _ _ y hy hid' h' _ =>
    have hsame : x.outConnId = y.outConnId := hname.trans hid'.symm
    obtain rfl : x = y := by
      have hx' := h.tables.sound.byOutConnId_eq hx
      have hy' := h.tables.sound.byOutConnId_eq hy
      rw [hsame] at hx'
      exact Option.some.inj (hx'.symm.trans hy')
    intro hisolated
    have halloc := (hisolated x.addr ha hfree).1.allocated
    obtain ⟨z, hz, heq⟩ := (h'.tables.cells x.addr).mp halloc
    exact (mem_without.mp hz).2 heq

/-- **When middle-ends are kept apart:** in every state of the tables, a message of a middle-end
leaves the external connections of the others alone if and only if it is not an `RPC_CLOSE_EXT`
that names one of them. -/
theorem isolated_iff_not_foreign_close (e e' : Engine) (r : Registry) (net : Net) (C : ConnRef)
    (op res : ℕ) (msg : Bytes) (rands : List ℕ) (htables : Tracks e r)
    (hC : ∀ a, e.tables.allocated a = true → ¬ IsClientOf e.tables a C)
    (hok : processClientPacket net e C op msg rands = .ok (res, e')) :
    Isolated C e e' ↔ ¬ ForeignClose e.tables C op msg := by
  constructor
  · exact fun hisolated hforeign => htables.not_isolated_of_foreignClose hok hforeign hisolated
  · exact htables.isolated_of_not_foreignClose hC hok

/-! ## A foreign close -/

/-- A second middle-end, that no external connection is bound to. -/
def strangerMiddleEnd : ConnRef := ⟨6, 1, by decide, by decide⟩

/-- Both middle-ends become ready, and a client of the first one gets an entry. -/
def strangerCalls : List (Net × ExtCall) :=
  [(sampleNet, .mtfrontClientReady sampleMiddleEnd),
    (sampleNet, .mtfrontClientReady strangerMiddleEnd),
    (sampleNet, .create sampleClient 0 (some sampleMiddleEnd) 9 0 [])]

/-- `RPC_CLOSE_EXT` with the id of that client. -/
def strangerClose : Bytes := leBytes 4 rpcCloseExt ++ leBytes 8 (extConnTableSize + 7)

/-- The state in which the second middle-end sends it, and what happens. -/
theorem strangerClose_spec :
    ∃ e r e', Tracks e r ∧ r.entries.map (fun x => (x.addr, x.inFd, x.inGen, x.outFd, x.outConnId)) =
        [(0, 7, 3, 5, leLong (strangerClose.drop 4))] ∧
      processClientPacket sampleNet e strangerMiddleEnd rpcCloseExt strangerClose [] = .ok (1, e') ∧
      e'.effects = [.fail sampleClient (-33)] := by
  have hrun : (Registry.empty.run strangerCalls).map (fun r => r.entries.map
      (fun x => (x.addr, x.inFd, x.inGen, x.outFd, x.outConnId))) =
        some [(0, 7, 3, 5, leLong (strangerClose.drop 4))] := by
    decide +kernel
  have hclose : ((Engine.init.calls strangerCalls).bind (fun e =>
      processClientPacket sampleNet e strangerMiddleEnd rpcCloseExt strangerClose [])).toOption.map
        (fun p => (p.1, p.2.effects)) = some (1, [.fail sampleClient (-33)]) := by
    decide +kernel
  obtain ⟨r, hr, hentries⟩ := Option.map_eq_some_iff.mp hrun
  obtain ⟨e, he, htracks, -⟩ := tracks_init.calls proxied_empty hr
  rw [he] at hclose
  obtain ⟨⟨res, e'⟩, hok, heq⟩ := Option.map_eq_some_iff.mp hclose
  obtain ⟨rfl, heffects⟩ := Prod.mk.inj heq
  refine ⟨e, r, e', htracks, hentries, ?_, heffects⟩
  change (processClientPacket sampleNet e strangerMiddleEnd rpcCloseExt strangerClose []).toOption =
    some (1, e') at hok
  generalize processClientPacket sampleNet e strangerMiddleEnd rpcCloseExt strangerClose [] = result
    at hok ⊢
  cases result with
  | ok p => exact congrArg Except.ok (Option.some.inj hok)
  | error f => exact absurd hok nofun

/-- The only entry of a registry that holds one. -/
theorem stranger_entry {a inFd outFd : ℕ} {inGen : ℤ} {id : Int64} {r : Registry}
    (h : r.entries.map (fun x => (x.addr, x.inFd, x.inGen, x.outFd, x.outConnId)) =
      [(a, inFd, inGen, outFd, id)]) :
    ∃ x ∈ r.entries, (∀ y ∈ r.entries, y = x) ∧ x.addr = a ∧ x.inFd = inFd ∧ x.outFd = outFd ∧
      x.outConnId = id := by
  obtain ⟨x, ys, hsplit, hx, hys⟩ := List.map_eq_cons_iff.mp h
  obtain rfl := List.map_eq_nil_iff.mp hys
  simp only [Prod.mk.injEq] at hx
  exact ⟨x, by simp [hsplit], by simp [hsplit], hx.1, hx.2.1, hx.2.2.2.1, hx.2.2.2.2⟩

/-- **`RPC_CLOSE_EXT` crosses middle-ends:** the second middle-end removes the entry that is bound
to the first, and fails its client. -/
theorem rpc_close_ext_crosses_middle_ends :
    ∃ e r e', Tracks e r ∧
      (∀ a, e.tables.allocated a = true → ¬ IsClientOf e.tables a strangerMiddleEnd) ∧
      processClientPacket sampleNet e strangerMiddleEnd rpcCloseExt strangerClose [] = .ok (1, e') ∧
      e'.effects = [.fail sampleClient (-33)] ∧ ¬ Isolated strangerMiddleEnd e e' := by
  obtain ⟨e, r, e', h, hentries, hok, heffects⟩ := strangerClose_spec
  obtain ⟨x, hx, honly, haddr, hfd, hout, hid⟩ := stranger_entry hentries
  have hcells : ∀ a, e.tables.allocated a = true → a = x.addr := by
    intro a ha
    obtain ⟨y, hy, rfl⟩ := (h.tables.cells a).mp ha
    rw [honly y hy]
  refine ⟨e, r, e', h, fun a ha hof => ?_, hok, heffects, ?_⟩
  · rw [hcells a ha, h.tables.isClientOf_iff hx, hfd] at hof
    exact absurd hof.1 (by decide)
  · refine h.not_isolated_of_foreignClose hok ⟨rfl, by decide, x.addr, ?_, ?_, ?_⟩
    · exact (h.tables.cells x.addr).mpr ⟨x, hx, rfl⟩
    · exact (h.tables.fields x hx).outConnId.trans hid
    · rw [h.tables.boundTo_iff hx, hout]
      exact fun hb => absurd hb.1 (by decide)

/-- The equivalence at the message of the second middle-end. -/
theorem isolated_iff_not_foreign_close_sample :
    ∃ e r e', Tracks e r ∧
      processClientPacket sampleNet e strangerMiddleEnd rpcCloseExt strangerClose [] = .ok (1, e') ∧
      (Isolated strangerMiddleEnd e e' ↔
        ¬ ForeignClose e.tables strangerMiddleEnd rpcCloseExt strangerClose) := by
  obtain ⟨e, r, e', h, hentries, hok, -⟩ := strangerClose_spec
  obtain ⟨x, hx, honly, -, hfd, -, -⟩ := stranger_entry hentries
  refine ⟨e, r, e', h, hok, ?_⟩
  refine isolated_iff_not_foreign_close e e' r sampleNet strangerMiddleEnd rpcCloseExt 1 strangerClose
    [] h (fun a ha hof => ?_) hok
  obtain ⟨y, hy, rfl⟩ := (h.tables.cells a).mp ha
  rw [h.tables.isClientOf_iff hy, honly y hy, hfd] at hof
  exact absurd hof.1 (by decide)

end

end MtprotoProxy
