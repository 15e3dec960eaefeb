/-
# Runs of a job message queue

`Delimits q S` says that `first` and `last` of the queue delimit the list `S`: the links lead from
`first` through `S` to the null pointer, and `last` is the last of `S`.  One call of
`job_message_queue_work` walks along the list with `ptr` at the end of the messages that it has
kept so far (`workLoop_spec`); a message that is handed over leaves the list between the kept
ones and the ones to come (`handOver_spec`).

`job_messages_run` is about every sequence of arrivals and calls: the queue holds, in the order of
their arrival, the messages that were not handed over, and none was handed over twice.
-/
import MtprotoProxy.JobMessages
import MtprotoProxy.Runs

namespace MtprotoProxy

open Runs

/-- A message without its link. -/
def JobMessage.body (M : JobMessage) : JobMessage := { M with next := none }

namespace JobMessageQueue

variable {q q' q₁ : JobMessageQueue} {m x : ℕ} {M : JobMessage} {S R kept : List ℕ}
  {mask : UInt32} {replies : ℕ → Reply} {hs : List Handing}

/-! ## The list -/

/-- `first` and `last` delimit the list `S`. -/
structure Delimits (q : JobMessageQueue) (S : List ℕ) : Prop where
  thread : Store.Thread JobMessage.next q.messages q.first S none
  last_eq : q.last = S.getLast?

/-- `last` is the null pointer exactly when `first` is. -/
theorem Delimits.last_eq_none_iff (h : q.Delimits S) : q.last = none ↔ q.first = none := by
  rw [h.last_eq, h.thread.start, List.getLast?_eq_none_iff, List.head?_eq_none_iff]

/-- What `*ptr` is when `ptr` stands after the messages kept so far. -/
theorem Delimits.deref (h : q.Delimits (kept ++ R)) : q.deref kept.getLast? = some R.head? := by
  rcases List.eq_nil_or_concat' kept with rfl | ⟨kept, l, rfl⟩
  · rw [List.getLast?_nil, JobMessageQueue.deref, h.thread.start, List.nil_append]
  · obtain ⟨n, hkept, hR⟩ := Store.thread_append.mp h.thread
    obtain ⟨-, L, hL, hn⟩ := Store.thread_concat.mp hkept
    rw [List.getLast?_concat, JobMessageQueue.deref, hL, Option.map_some, hn, hR.start]

/-- **Turning the link after the kept messages** makes the rest of the list another one. -/
theorem assign_spec {p : Option ℕ}
    (hkept : Store.Thread JobMessage.next q.messages q.first kept p) (hnodup : kept.Nodup)
    (hR : Store.Thread JobMessage.next q.messages R.head? R none)
    (hdisj : ∀ x ∈ kept, x ∉ R) :
    ∃ q', q.assign kept.getLast? R.head? = some q' ∧
      Store.Thread JobMessage.next q'.messages q'.first (kept ++ R) none ∧
      q'.last = q.last ∧ q'.unsorted = q.unsorted ∧ q'.payloadMagic = q.payloadMagic ∧
      q'.messages.size = q.messages.size ∧
      ∀ x, (q'.messages.cell x).map JobMessage.body = (q.messages.cell x).map JobMessage.body := by
  rcases List.eq_nil_or_concat' kept with rfl | ⟨kept, l, rfl⟩
  · exact ⟨_, rfl, hR, rfl, rfl, rfl, rfl, fun _ => rfl⟩
  · have hl : l ∉ kept := by
      rw [List.nodup_append_comm, List.singleton_append, List.nodup_cons] at hnodup
      exact hnodup.1
    have hlR : l ∉ R := hdisj l (by simp)
    obtain ⟨-, L, hL, -⟩ := Store.thread_concat.mp hkept
    refine ⟨{ q with messages := q.messages.put l (some { L with next := R.head? }) }, ?_, ?_, rfl,
      rfl, rfl, rfl, ?_⟩
    · rw [List.getLast?_concat, assign, hL]
      rfl
    · exact Store.thread_append.mpr ⟨R.head?, hkept.relink hl rfl, hR.put hlR _⟩
    · intro x
      by_cases hx : x = l
      · subst hx
        rw [Store.cell_put_self hL, hL]
        rfl
      · rw [Store.cell_put_ne hx]

/-! ## What an operation leaves as it is -/

/-- From `q` to `q'` the messages `gone` may have changed; the others keep all but their links,
and what was sent meanwhile waits in the order of arrival. -/
structure Evolves (q q' : JobMessageQueue) (gone : List ℕ) : Prop where
  magic : q'.payloadMagic = q.payloadMagic
  body : ∀ x, x < q.messages.size → x ∉ gone →
    (q'.messages.cell x).map JobMessage.body = (q.messages.cell x).map JobMessage.body
  sent : ∃ k, q'.messages.size = q.messages.size + k ∧
    q'.unsorted = q.unsorted ++ List.range' q.messages.size k ∧
    ∀ x ∈ List.range' q.messages.size k, ∃ M, q'.messages.cell x = some M

theorem Evolves.refl (q : JobMessageQueue) : Evolves q q [] where
  magic := rfl
  body := fun _ _ _ => rfl
  sent := ⟨0, rfl, by simp, by simp⟩

theorem Evolves.size_le {gone : List ℕ} (h : Evolves q q' gone) :
    q.messages.size ≤ q'.messages.size := by
  obtain ⟨k, hk, -⟩ := h.sent
  omega

theorem Evolves.trans {g₁ g₂ : List ℕ} (h₁ : Evolves q q₁ g₁) (h₂ : Evolves q₁ q' g₂)
    (hg₂ : ∀ x ∈ g₂, x < q.messages.size) : Evolves q q' (g₁ ++ g₂) where
  magic := h₂.magic.trans h₁.magic
  body := by
    intro x hx hgone
    rw [List.mem_append, not_or] at hgone
    have hle := h₁.size_le
    rw [h₂.body x (by omega) hgone.2, h₁.body x hx hgone.1]
  sent := by
    obtain ⟨k₁, hsize₁, hunsorted₁, hfull₁⟩ := h₁.sent
    obtain ⟨k₂, hsize₂, hunsorted₂, hfull₂⟩ := h₂.sent
    refine ⟨k₁ + k₂, by omega, ?_, ?_⟩
    · rw [hunsorted₂, hunsorted₁, hsize₁, List.append_assoc, List.range'_append_1]
    · intro x hx
      rw [← List.range'_append_1, List.mem_append] at hx
      rcases hx with hx | hx
      · obtain ⟨M, hM⟩ := hfull₁ x hx
        rw [List.mem_range'_1] at hx
        have hkeep := h₂.body x (by omega) (fun hmem => by have := hg₂ x hmem; omega)
        rw [hM, Option.map_some] at hkeep
        obtain ⟨M', hM', -⟩ := Option.map_eq_some_iff.mp hkeep
        exact ⟨M', hM'⟩
      · rw [← hsize₁] at hx
        exact hfull₂ x hx

/-- A message that keeps its body is still there, with the same type and contents. -/
theorem cell_of_body (h : (q'.messages.cell x).map JobMessage.body
    = (q.messages.cell x).map JobMessage.body) (hM : q.messages.cell x = some M) :
    ∃ M', q'.messages.cell x = some M' ∧ M'.body = M.body := by
  rw [hM, Option.map_some] at h
  exact Option.map_eq_some_iff.mp h

/-! ## Arrivals -/

theorem send_evolves (q : JobMessageQueue) (M : JobMessage) : Evolves q (q.send M) [] where
  magic := rfl
  body := by
    intro x hx _
    show ((q.messages.alloc _).cell x).map _ = _
    rw [Store.cell_alloc, if_neg (by omega)]
  sent := by
    refine ⟨1, rfl, rfl, ?_⟩
    intro x hx
    obtain rfl : x = q.messages.size := by simpa using hx
    exact ⟨_, Store.cell_alloc_self _⟩

/-- Arrivals leave the list alone. -/
theorem send_foldl (sent : List JobMessage) : ∀ q : JobMessageQueue,
    Evolves q (sent.foldl send q) [] ∧ (sent.foldl send q).first = q.first ∧
      (sent.foldl send q).last = q.last ∧
      ∀ x a, q.messages.cell x = some a → (sent.foldl send q).messages.cell x = some a := by
  induction sent with
  | nil => exact fun q => ⟨Evolves.refl q, rfl, rfl, fun _ _ h => h⟩
  | cons M sent ih =>
    intro q
    obtain ⟨hev, hfirst, hlast, hcell⟩ := ih (q.send M)
    refine ⟨(send_evolves q M).trans hev (by simp), hfirst, hlast, ?_⟩
    intro x a ha
    exact hcell x a (Store.cell_alloc_of_some ha)

/-! ## One message is handed over -/

/-- What becomes of a message touches no other message. -/
theorem dispose_spec (q : JobMessageQueue) (m : ℕ) (left : JobMessage) (d : Disposal) :
    Evolves q (q.dispose m left d) [m] ∧ (q.dispose m left d).first = q.first ∧
      (q.dispose m left d).last = q.last ∧
      ∀ x, x ≠ m → (q.dispose m left d).messages.cell x = q.messages.cell x := by
  have hput : ∀ o, Evolves q { q with messages := q.messages.put m o } [m] := by
    intro o
    refine ⟨rfl, ?_, 0, rfl, by simp, by simp⟩
    intro x _ hx
    rw [List.mem_singleton] at hx
    rw [Store.cell_put_ne hx]
  cases d with
  | kept => exact ⟨hput _, rfl, rfl, fun x hx => Store.cell_put_ne hx _⟩
  | freed src rwm => exact ⟨hput _, rfl, rfl, fun x hx => Store.cell_put_ne hx _⟩
  | destroyed d => exact ⟨hput _, rfl, rfl, fun x hx => Store.cell_put_ne hx _⟩

/-- The last of a list without one of its members. -/
theorem last_of_unlinked (hnodup : (kept ++ m :: R).Nodup) :
    (if (kept ++ m :: R).getLast? = some m then kept.getLast? else (kept ++ m :: R).getLast?)
      = (kept ++ R).getLast? := by
  rcases List.eq_nil_or_concat' R with rfl | ⟨R, l, rfl⟩
  · rw [List.getLast?_concat, if_pos rfl, List.append_nil]
  · have hl : l ≠ m := by
      rintro rfl
      have hmem := (List.nodup_cons.mp (List.nodup_append.mp hnodup).2.1).1
      exact hmem (by simp)
    have hlast : (kept ++ m :: (R ++ [l])).getLast? = some l := by
      rw [← List.cons_append, ← List.append_assoc, List.getLast?_concat]
    rw [hlast, if_neg (by simpa using hl), ← List.append_assoc, List.getLast?_concat]

/-- **A message that its recipient takes leaves the list**, between the messages that were kept
and the ones to come. -/
theorem handOver_spec {reply r : Reply} {recipient : Recipient}
    (h : q.Delimits (kept ++ m :: R)) (hM : q.messages.cell m = some M)
    (hrec : receiveMessage q.payloadMagic M.body reply = some (recipient, r)) :
    ∃ q', q.handOver kept.getLast? kept.getLast? m M reply
        = some (q', ⟨m, recipient, r.result, disposalOf r.result r.left⟩) ∧
      q'.Delimits (kept ++ R) ∧ Evolves q q' [m] := by
  have hnodup := h.thread.nodup
  obtain ⟨n, hkept, hrest⟩ := Store.thread_append.mp h.thread
  obtain ⟨rfl, M', hM', hR⟩ := hrest
  obtain rfl : M = M' := Option.some.inj (hM.symm.trans hM')
  have hout : m ∉ kept ∧ m ∉ R ∧ (kept ++ R).Nodup := by
    have hmiddle := List.nodup_cons.mp (List.nodup_middle.mp hnodup)
    rw [List.mem_append, not_or] at hmiddle
    exact ⟨hmiddle.1.1, hmiddle.1.2, hmiddle.2⟩
  have hsplit := List.nodup_append.mp hout.2.2
  -- the receiver's messages arrive, then the message is released
  obtain ⟨hev₀, hfirst₀, hlast₀, hcell₀⟩ := send_foldl r.sent q
  set q₀ := r.sent.foldl send q with hq₀
  obtain ⟨hev₁, hfirst₁, hlast₁, hcell₁⟩ :=
    dispose_spec q₀ m r.left (disposalOf r.result r.left)
  set q₁ := q₀.dispose m r.left (disposalOf r.result r.left) with hq₁
  have hframe : ∀ xs, m ∉ xs → ∀ p e, Store.Thread JobMessage.next q.messages p xs e →
      Store.Thread JobMessage.next q₁.messages p xs e := by
    intro xs hm p e hthread
    refine hthread.congr (fun x hx a ha => ⟨a, ?_, rfl⟩)
    rw [hcell₁ x (ne_of_mem_of_not_mem hx hm), hcell₀ x a ha]
  have hnext : M.next = R.head? := hR.start
  rw [hnext] at hR
  obtain ⟨q₂, hassign, hthread, hlast₂, hunsorted₂, hmagic₂, hsize₂, hbody₂⟩ :=
    assign_spec (q := q₁) (by rw [hfirst₁, hfirst₀]; exact hframe kept hout.1 _ _ hkept)
      hsplit.1 (hframe R hout.2.1 _ _ hR) (fun x hx hxR => hsplit.2.2 x hx x hxR rfl)
  have hev₂ : Evolves q₁ q₂ [] := by
    refine ⟨hmagic₂, fun x _ _ => hbody₂ x, 0, hsize₂, by simp [hunsorted₂], by simp⟩
  have hev : Evolves q q₂ [m] := by
    have hlt : ∀ x ∈ [m], x < q.messages.size := by
      intro x hx
      rw [List.mem_singleton.mp hx]
      exact Store.lt_size hM
    have := (hev₀.trans hev₁ hlt).trans hev₂ (by simp)
    simpa using this
  have hlast : (if q₂.last = some m then kept.getLast? else q₂.last) = (kept ++ R).getLast? := by
    rw [hlast₂, hlast₁, hlast₀, h.last_eq]
    exact last_of_unlinked hnodup
  refine ⟨if q₂.last = some m then { q₂ with last := kept.getLast? } else q₂, ?_, ?_, ?_⟩
  · unfold handOver
    simp only [JobMessage.body] at hrec
    simp only [hrec, some_bind, ← hq₀, ← hq₁, hnext, hassign]
  · constructor
    · split <;> exact hthread
    · rw [← hlast]
      split <;> rfl
  · split
    · exact ⟨hev.magic, hev.body, hev.sent⟩
    · exact hev

/-- A failed assertion of the recipient fails the call. -/
theorem handOver_none {reply : Reply} {ptr last : Option ℕ}
    (hrec : receiveMessage q.payloadMagic M.body reply = none) :
    q.handOver ptr last m M reply = none := by
  unfold handOver
  simp only [JobMessage.body] at hrec
  simp only [hrec, Option.bind_eq_bind, Option.bind_none]

/-! ## The walk -/

/-- The message `m` is in the mask. -/
def masked (q : JobMessageQueue) (mask : UInt32) (m : ℕ) : Bool :=
  (q.messages.cell m).any (inMask mask)

/-- The messages `hs` of the queue `R` were handed over: those in the mask, in order, up to the
first negative result; each to the recipient that it is for, with the result and the release that
come of the reply. -/
structure HandedOver (q : JobMessageQueue) (mask : UInt32) (R : List ℕ) (replies : ℕ → Reply)
    (hs : List Handing) : Prop where
  order : hs.map Handing.msg <+: R.filter (q.masked mask)
  goes_on : ∀ h ∈ hs.dropLast, 0 ≤ h.result
  stops : hs.map Handing.msg = R.filter (q.masked mask) ∨
    ∃ h, hs.getLast? = some h ∧ h.result < 0
  each : ∀ i h, hs[i]? = some h → ∃ M r, q.messages.cell h.msg = some M ∧
    receiveMessage q.payloadMagic M.body (replies i) = some (h.recipient, r) ∧
    h.result = r.result ∧ h.disposal = disposalOf r.result r.left

/-- No assertion fails on the message: its type is not 0, and a continuation in the mask is well
formed. -/
def Sound (mask magic : UInt32) (M : JobMessage) : Prop :=
  M.type ≠ 0 ∧ (inMask mask M = true → ∀ reply, receiveMessage magic M.body reply ≠ none)

/-- The type, the payload and the mask do not depend on the link. -/
theorem inMask_of_body {M M' : JobMessage} (h : M'.body = M.body) (mask : UInt32) :
    M'.type = M.type ∧ inMask mask M' = inMask mask M := by
  have hflags : M'.body.flags = M.body.flags := by rw [h]
  change M'.flags = M.flags at hflags
  constructor
  · rw [JobMessage.type, hflags, JobMessage.type]
  · rw [inMask, JobMessage.type, hflags, inMask, JobMessage.type]

theorem masked_of_body (h : (q'.messages.cell x).map JobMessage.body
    = (q.messages.cell x).map JobMessage.body) : q'.masked mask x = q.masked mask x := by
  unfold masked
  cases hx : q.messages.cell x with
  | none =>
    rw [hx, Option.map_none, Option.map_eq_none_iff] at h
    rw [h]
  | some M =>
    obtain ⟨M', hM', hbody⟩ := cell_of_body h hx
    rw [hM', Option.any_some, Option.any_some, (inMask_of_body hbody mask).2]

/-- What was handed over after other messages had gone was handed over from the queue as it was
before. -/
theorem HandedOver.of_body (h : q'.HandedOver mask R replies hs)
    (hmagic : q'.payloadMagic = q.payloadMagic)
    (hbody : ∀ x ∈ R, (q'.messages.cell x).map JobMessage.body
      = (q.messages.cell x).map JobMessage.body) : q.HandedOver mask R replies hs := by
  have hfilter : R.filter (q'.masked mask) = R.filter (q.masked mask) :=
    List.filter_congr (fun x hx => masked_of_body (hbody x hx))
  obtain ⟨horder, hgoes, hstops, heach⟩ := h
  rw [hfilter] at horder hstops
  refine ⟨horder, hgoes, hstops, ?_⟩
  intro i h hi
  obtain ⟨M', r, hM', hrec, hresult⟩ := heach i h hi
  have hmem : h.msg ∈ R :=
    (List.mem_filter.mp (horder.subset (List.mem_map_of_mem (List.mem_of_getElem? hi)))).1
  obtain ⟨M, hM, hMM⟩ := cell_of_body (hbody h.msg hmem).symm hM'
  rw [hmagic, ← hMM] at hrec
  exact ⟨M, r, hM, hrec, hresult⟩

/-- A first message that is in the mask and does not stop the walk. -/
theorem HandedOver.cons {h : Handing} {r : Reply} (hM : q.messages.cell h.msg = some M)
    (hmask : inMask mask M = true)
    (hrec : receiveMessage q.payloadMagic M.body (replies 0) = some (h.recipient, r))
    (hresult : h.result = r.result ∧ h.disposal = disposalOf r.result r.left)
    (hpos : 0 ≤ h.result) (hrest : q.HandedOver mask R (fun i => replies (i + 1)) hs) :
    q.HandedOver mask (h.msg :: R) replies (h :: hs) := by
  have hfilter : (h.msg :: R).filter (q.masked mask) = h.msg :: R.filter (q.masked mask) :=
    List.filter_cons_of_pos (by simp [masked, hM, hmask])
  constructor
  · rw [hfilter, List.map_cons]
    exact List.cons_prefix_cons.mpr ⟨rfl, hrest.order⟩
  · intro g hg
    cases hs with
    | nil => exact absurd hg List.not_mem_nil
    | cons h' hs =>
      rw [List.dropLast_cons_cons, List.mem_cons] at hg
      rcases hg with rfl | hg
      · exact hpos
      · exact hrest.goes_on g hg
  · rw [hfilter, List.map_cons]
    rcases hrest.stops with hall | ⟨g, hg, hneg⟩
    · exact Or.inl (by rw [hall])
    · refine Or.inr ⟨g, ?_, hneg⟩
      rw [List.getLast?_cons, hg]
      rfl
  · intro i g hi
    cases i with
    | zero =>
      obtain rfl : h = g := by simpa using hi
      exact ⟨M, r, hM, hrec, hresult⟩
    | succ i => exact hrest.each i g (by simpa using hi)

/-- A first message that is in the mask and stops the walk. -/
theorem HandedOver.stop {h : Handing} {r : Reply} (hM : q.messages.cell h.msg = some M)
    (hmask : inMask mask M = true)
    (hrec : receiveMessage q.payloadMagic M.body (replies 0) = some (h.recipient, r))
    (hresult : h.result = r.result ∧ h.disposal = disposalOf r.result r.left)
    (hneg : h.result < 0) : q.HandedOver mask (h.msg :: R) replies [h] := by
  have hfilter : (h.msg :: R).filter (q.masked mask) = h.msg :: R.filter (q.masked mask) :=
    List.filter_cons_of_pos (by simp [masked, hM, hmask])
  constructor
  · rw [hfilter]
    exact List.cons_prefix_cons.mpr ⟨rfl, List.nil_prefix⟩
  · intro g hg
    exact absurd hg List.not_mem_nil
  · exact Or.inr ⟨h, rfl, hneg⟩
  · intro i g hi
    cases i with
    | zero =>
      obtain rfl : h = g := by simpa using hi
      exact ⟨M, r, hM, hrec, hresult⟩
    | succ i => simp at hi

/-- A first message that is not in the mask. -/
theorem HandedOver.skip (hM : q.messages.cell m = some M) (hmask : ¬ inMask mask M = true)
    (hrest : q.HandedOver mask R replies hs) : q.HandedOver mask (m :: R) replies hs := by
  have hfilter : (m :: R).filter (q.masked mask) = R.filter (q.masked mask) :=
    List.filter_cons_of_neg (by simpa [masked, hM] using hmask)
  refine ⟨?_, hrest.goes_on, ?_, hrest.each⟩
  · rw [hfilter]
    exact hrest.order
  · rw [hfilter]
    exact hrest.stops

/-- Only queued messages are handed over, and none of them twice. -/
theorem HandedOver.mem (h : q.HandedOver mask R replies hs) {g : Handing} (hg : g ∈ hs) :
    g.msg ∈ R :=
  (List.mem_filter.mp (h.order.subset (List.mem_map_of_mem hg))).1

theorem HandedOver.nodup (h : q.HandedOver mask R replies hs) (hR : R.Nodup) :
    (hs.map Handing.msg).Nodup :=
  (hR.filter _).sublist h.order.sublist

/-- The messages that stay when some of a list are handed over. -/
theorem filter_cons_skip (hm : m ∉ hs.map Handing.msg) :
    (m :: R).filter (fun x => decide (x ∉ hs.map Handing.msg))
      = m :: R.filter (fun x => decide (x ∉ hs.map Handing.msg)) :=
  List.filter_cons_of_pos (by simpa using hm)

theorem filter_cons_gone (h : Handing) (hR : h.msg ∉ R) :
    (h.msg :: R).filter (fun x => decide (x ∉ (h :: hs).map Handing.msg))
      = R.filter (fun x => decide (x ∉ hs.map Handing.msg)) := by
  rw [List.filter_cons_of_neg (by simp)]
  refine List.filter_congr (fun x hx => ?_)
  have hne : x ≠ h.msg := ne_of_mem_of_not_mem hx hR
  simp [hne]

/-- **The walk.**  Behind the kept messages it hands over what is in the mask up to the first
negative result, and leaves a list of the kept messages and the others. -/
theorem workLoop_spec : ∀ {R : List ℕ} {fuel : ℕ} {q q' : JobMessageQueue} {kept : List ℕ}
    {replies : ℕ → Reply} {hs : List Handing}, q.Delimits (kept ++ R) →
    workLoop mask fuel q kept.getLast? kept.getLast? replies = some (q', hs) →
    q.HandedOver mask R replies hs ∧
      q'.Delimits (kept ++ R.filter (fun x => decide (x ∉ hs.map Handing.msg))) ∧
      Evolves q q' (hs.map Handing.msg) := by
  intro R
  induction R with
  | nil =>
    intro fuel q q' kept replies hs h hrun
    cases fuel with
    | zero => exact absurd hrun (by simp [workLoop])
    | succ fuel =>
      rw [workLoop, h.deref, Option.bind_eq_bind, Option.bind_some] at hrun
      obtain ⟨rfl, rfl⟩ : q = q' ∧ [] = hs := by simpa using hrun
      refine ⟨⟨List.nil_prefix, by simp, Or.inl rfl, by simp⟩, h, Evolves.refl q⟩
  | cons m R ih =>
    intro fuel q q' kept replies hs h hrun
    cases fuel with
    | zero => exact absurd hrun (by simp [workLoop])
    | succ fuel =>
      obtain ⟨M, hM⟩ := h.thread.full (List.mem_append_right kept List.mem_cons_self)
      have hnodup := h.thread.nodup
      have hmR : m ∉ R := (List.nodup_cons.mp (List.nodup_append.mp hnodup).2.1).1
      rw [workLoop, h.deref, Option.bind_eq_bind, Option.bind_some] at hrun
      simp only [List.head?_cons, hM, Option.bind_eq_bind, Option.bind_some] at hrun
      obtain ⟨-, -, hrun⟩ := Option.bind_eq_some_iff.mp hrun
      by_cases hmask : inMask mask M = true
      · rw [if_pos hmask] at hrun
        cases hrec : receiveMessage q.payloadMagic M.body (replies 0) with
        | none =>
          rw [handOver_none hrec] at hrun
          exact absurd hrun (by simp)
        | some got =>
          obtain ⟨recipient, r⟩ := got
          obtain ⟨q₁, hover, hdel, hev⟩ := handOver_spec h hM hrec
          rw [hover, Option.bind_some] at hrun
          have hbody : ∀ x ∈ R, (q₁.messages.cell x).map JobMessage.body
              = (q.messages.cell x).map JobMessage.body := by
            intro x hx
            obtain ⟨a, ha⟩ := h.thread.full
              (List.mem_append_right kept (List.mem_cons_of_mem m hx))
            exact hev.body x (Store.lt_size ha)
              (by simpa using ne_of_mem_of_not_mem hx hmR)
          split at hrun
          · -- the recipient asks to stop
            rename_i hneg
            obtain ⟨rfl, rfl⟩ := Prod.mk.inj (Option.some.inj hrun)
            refine ⟨HandedOver.stop hM hmask hrec ⟨rfl, rfl⟩ hneg, ?_, hev⟩
            have hall : R.filter (fun x => decide (x ∉ ([] : List Handing).map Handing.msg)) = R :=
              List.filter_eq_self.mpr (by simp)
            rw [filter_cons_gone _ hmR, hall]
            exact hdel
          · rename_i hpos
            obtain ⟨⟨q₂, rest⟩, hloop, hend⟩ := Option.bind_eq_some_iff.mp hrun
            obtain ⟨rfl, rfl⟩ := Prod.mk.inj (Option.some.inj hend)
            obtain ⟨hhanded, hdel₂, hev₂⟩ := ih hdel hloop
            refine ⟨HandedOver.cons hM hmask hrec ⟨rfl, rfl⟩ (not_lt.mp hpos)
              (hhanded.of_body hev.magic hbody), ?_, ?_⟩
            · rw [filter_cons_gone _ hmR]
              exact hdel₂
            · apply hev.trans hev₂
              intro x hx
              obtain ⟨g, hg, rfl⟩ := List.mem_map.mp hx
              obtain ⟨a, ha⟩ := h.thread.full
                (List.mem_append_right kept (List.mem_cons_of_mem m (hhanded.mem hg)))
              exact Store.lt_size ha
      · rw [if_neg hmask] at hrun
        have hsplit : kept ++ m :: R = (kept ++ [m]) ++ R := by simp
        rw [hsplit] at h
        have hlast : some m = (kept ++ [m]).getLast? := List.getLast?_concat.symm
        rw [hlast] at hrun
        obtain ⟨hhanded, hdel, hev⟩ := ih h hrun
        have hm : m ∉ hs.map Handing.msg := by
          intro hmem
          obtain ⟨g, hg, rfl⟩ := List.mem_map.mp hmem
          exact hmR (hhanded.mem hg)
        refine ⟨hhanded.skip hM hmask, ?_, hev⟩
        rw [filter_cons_skip hm]
        simpa using hdel

/-- **The walk fails no assertion** on sound messages. -/
theorem workLoop_total : ∀ {R : List ℕ} {fuel : ℕ} {q : JobMessageQueue} {kept : List ℕ}
    {replies : ℕ → Reply}, q.Delimits (kept ++ R) → R.length < fuel →
    (∀ m ∈ R, ∀ M, q.messages.cell m = some M → Sound mask q.payloadMagic M) →
    ∃ q' hs, workLoop mask fuel q kept.getLast? kept.getLast? replies = some (q', hs) := by
  intro R
  induction R with
  | nil =>
    intro fuel q kept replies h hfuel _
    obtain ⟨fuel, rfl⟩ := Nat.exists_eq_add_of_lt hfuel
    refine ⟨q, [], ?_⟩
    rw [workLoop, h.deref]
    rfl
  | cons m R ih =>
    intro fuel q kept replies h hfuel hsound
    obtain ⟨fuel, rfl⟩ : ∃ k, fuel = k + 1 := ⟨fuel - 1, by omega⟩
    have hfuel' : R.length < fuel := by simpa using hfuel
    obtain ⟨M, hM⟩ := h.thread.full (List.mem_append_right kept List.mem_cons_self)
    have hmR : m ∉ R :=
      (List.nodup_cons.mp (List.nodup_append.mp h.thread.nodup).2.1).1
    obtain ⟨htype, hok⟩ := hsound m List.mem_cons_self M hM
    rw [workLoop, h.deref, Option.bind_eq_bind, Option.bind_some]
    simp only [List.head?_cons, hM, Option.bind_eq_bind, Option.bind_some, guard, if_pos htype,
      Option.pure_def]
    by_cases hmask : inMask mask M = true
    · rw [if_pos hmask]
      obtain ⟨⟨recipient, r⟩, hrec⟩ := Option.ne_none_iff_exists'.mp (hok hmask (replies 0))
      obtain ⟨q₁, hover, hdel, hev⟩ := handOver_spec h hM hrec
      have hsound₁ : ∀ x ∈ R, ∀ X, q₁.messages.cell x = some X →
          Sound mask q₁.payloadMagic X := by
        intro x hx X hX
        obtain ⟨a, ha⟩ := h.thread.full
          (List.mem_append_right kept (List.mem_cons_of_mem m hx))
        have hkeep := hev.body x (Store.lt_size ha)
          (by simpa using ne_of_mem_of_not_mem hx hmR)
        obtain ⟨X', hX', hbody⟩ := cell_of_body hkeep.symm hX
        obtain ⟨hty, hin⟩ := hsound x (List.mem_cons_of_mem m hx) X' hX'
        rw [hev.magic]
        rw [Sound, ← (inMask_of_body hbody mask).1, ← (inMask_of_body hbody mask).2, ← hbody]
        exact ⟨hty, hin⟩
      obtain ⟨q', hs, hloop⟩ := @ih fuel q₁ kept (fun i => replies (i + 1)) hdel hfuel' hsound₁
      rw [hover, Option.bind_some]
      split
      · exact ⟨_, _, rfl⟩
      · rw [hloop]
        exact ⟨_, _, rfl⟩
    · rw [if_neg hmask]
      have hsplit : kept ++ m :: R = (kept ++ [m]) ++ R := by simp
      rw [hsplit] at h
      have hlast : some m = (kept ++ [m]).getLast? := List.getLast?_concat.symm
      rw [hlast]
      exact ih h hfuel' (fun x hx => hsound x (List.mem_cons_of_mem m hx))

/-! ## Sorting in the arrivals -/

/-- **A message is appended** behind the last one. -/
theorem append_spec (h : q.Delimits S) (hM : q.messages.cell m = some M) (hm : m ∉ S) :
    ∃ q', q.append m = some q' ∧ q'.Delimits (S ++ [m]) ∧ q'.unsorted = q.unsorted ∧
      q'.payloadMagic = q.payloadMagic ∧ q'.messages.size = q.messages.size ∧
      ∀ x, (q'.messages.cell x).map JobMessage.body = (q.messages.cell x).map JobMessage.body := by
  set q₁ : JobMessageQueue := { q with messages := q.messages.put m (some M.body) } with hq₁
  have hm₁ : q₁.messages.cell m = some M.body := Store.cell_put_self hM _
  have hthread : Store.Thread JobMessage.next q₁.messages q.first S none := h.thread.put hm _
  have hbody₁ : ∀ x, (q₁.messages.cell x).map JobMessage.body
      = (q.messages.cell x).map JobMessage.body := by
    intro x
    by_cases hx : x = m
    · subst hx
      rw [hm₁, hM]
      rfl
    · rw [hq₁, Store.cell_put_ne hx]
  rcases List.eq_nil_or_concat' S with rfl | ⟨S, l, rfl⟩
  · have hlast : q.last = none := h.last_eq
    refine ⟨{ q₁ with first := some m, last := some m }, ?_, ⟨⟨rfl, M.body, hm₁, rfl⟩, rfl⟩, rfl,
      rfl, rfl, hbody₁⟩
    unfold append
    simp only [hM, some_bind, hlast]
    rfl
  · have hlast : q.last = some l := by rw [h.last_eq, List.getLast?_concat]
    obtain ⟨hS, L, hL, -⟩ := Store.thread_concat.mp hthread
    have hnodup := hthread.nodup
    rw [List.nodup_append_comm, List.singleton_append, List.nodup_cons] at hnodup
    have hml : m ≠ l := fun heq => hm (by simp [heq])
    have hlink := hthread.relink hnodup.1 (b := { L with next := some m }) rfl
    refine ⟨{ q₁ with
      messages := q₁.messages.put l (some { L with next := some m }), last := some m }, ?_,
      ⟨?_, ?_⟩, rfl, rfl, rfl, ?_⟩
    · unfold append
      have hL' : (q.messages.put m (some { M with next := none })).cell l = some L := hL
      simp only [hM, some_bind, hlast, hL']
      rfl
    · refine Store.thread_append.mpr ⟨some m, hlink, rfl, M.body, ?_, rfl⟩
      rw [Store.cell_put_ne hml, hm₁]
    · rw [List.getLast?_concat]
    · intro x
      rw [← hbody₁ x]
      by_cases hx : x = l
      · subst hx
        rw [Store.cell_put_self hL, hL]
        rfl
      · rw [Store.cell_put_ne hx]

/-- **The first loop** appends the unsorted messages in their order. -/
theorem sort_spec : ∀ {U S : List ℕ} {q : JobMessageQueue}, q.Delimits S → (S ++ U).Nodup →
    (∀ m ∈ U, ∃ M, q.messages.cell m = some M) →
    ∃ q', q.sort U = some q' ∧ q'.Delimits (S ++ U) ∧ q'.unsorted = [] ∧
      q'.payloadMagic = q.payloadMagic ∧ q'.messages.size = q.messages.size ∧
      ∀ x, (q'.messages.cell x).map JobMessage.body = (q.messages.cell x).map JobMessage.body := by
  intro U
  induction U with
  | nil =>
    intro S q h _ _
    rw [List.append_nil]
    exact ⟨_, rfl, ⟨h.thread, h.last_eq⟩, rfl, rfl, rfl, fun _ => rfl⟩
  | cons m U ih =>
    intro S q h hnodup hfull
    obtain ⟨M, hM⟩ := hfull m List.mem_cons_self
    have hm : m ∉ S := by
      have := (List.nodup_cons.mp (List.nodup_middle.mp hnodup)).1
      exact fun hmem => this (List.mem_append_left U hmem)
    obtain ⟨q₁, happ, hdel, -, hmagic, hsize, hbody⟩ := append_spec h hM hm
    have hsplit : S ++ m :: U = (S ++ [m]) ++ U := by simp
    rw [hsplit] at hnodup ⊢
    obtain ⟨q', hsort, hdel', hun, hmagic', hsize', hbody'⟩ := ih hdel hnodup (by
      intro x hx
      obtain ⟨X, hX⟩ := hfull x (List.mem_cons_of_mem m hx)
      obtain ⟨X', hX', -⟩ := cell_of_body (hbody x) hX
      exact ⟨X', hX'⟩)
    refine ⟨q', ?_, hdel', hun, hmagic'.trans hmagic, hsize'.trans hsize, ?_⟩
    · rw [sort, happ]
      exact hsort
    · intro x
      rw [hbody' x, hbody x]

/-! ## One call -/

/-- `Q` is what is queued: the list and behind it the unsorted messages. -/
structure Queued (q : JobMessageQueue) (Q : List ℕ) : Prop where
  delimits : ∃ S, q.Delimits S ∧ Q = S ++ q.unsorted
  nodup : Q.Nodup
  full : ∀ m ∈ Q, ∃ M, q.messages.cell m = some M

/-- What the first loop makes of a queue. -/
theorem Queued.sorted {Q : List ℕ} (h : q.Queued Q) :
    ∃ q₁, q.sort q.unsorted = some q₁ ∧ q₁.Delimits Q ∧ q₁.unsorted = [] ∧
      q₁.payloadMagic = q.payloadMagic ∧ q₁.messages.size = q.messages.size ∧
      ∀ x, (q₁.messages.cell x).map JobMessage.body
        = (q.messages.cell x).map JobMessage.body := by
  obtain ⟨S, hdel, rfl⟩ := h.delimits
  exact sort_spec hdel h.nodup (fun m hm => h.full m (List.mem_append_right S hm))

/-- **One call of `job_message_queue_work`** that returns: what was handed over, and the queue
that it leaves.  The messages that were sent meanwhile are unsorted. -/
theorem work_spec {Q : List ℕ} (h : q.Queued Q) (hrun : q.work mask replies = some (q', hs)) :
    q.HandedOver mask Q replies hs ∧
      q'.Delimits (Q.filter (fun x => decide (x ∉ hs.map Handing.msg))) ∧
      q'.payloadMagic = q.payloadMagic ∧
      (∀ m ∈ Q, m ∉ hs.map Handing.msg → ∃ M, q'.messages.cell m = some M) ∧
      ∃ k, q'.messages.size = q.messages.size + k ∧
        q'.unsorted = List.range' q.messages.size k ∧
        ∀ m ∈ q'.unsorted, ∃ M, q'.messages.cell m = some M := by
  obtain ⟨q₁, hsort, hdel, hun, hmagic, hsize, hbody⟩ := h.sorted
  unfold work at hrun
  rw [hsort, some_bind] at hrun
  obtain ⟨hhanded, hdel', hev⟩ := @workLoop_spec mask Q _ q₁ q' [] replies hs hdel hrun
  obtain ⟨k, hk, hun', hfull'⟩ := hev.sent
  rw [hun, List.nil_append] at hun'
  refine ⟨hhanded.of_body hmagic (fun x _ => hbody x), hdel', hev.magic.trans hmagic, ?_,
    k, by omega, ?_, ?_⟩
  · intro m hm hgone
    obtain ⟨M, hM⟩ := h.full m hm
    obtain ⟨M₁, hM₁, -⟩ := cell_of_body (hbody m) hM
    obtain ⟨M', hM', -⟩ := cell_of_body (hev.body m (Store.lt_size hM₁) hgone) hM₁
    exact ⟨M', hM'⟩
  · rw [hun', hsize]
  · rw [hun']
    exact hfull'

/-- A call on sound messages fails no assertion. -/
theorem work_total {Q : List ℕ} (h : q.Queued Q)
    (hsound : ∀ m ∈ Q, ∀ M, q.messages.cell m = some M → Sound mask q.payloadMagic M) :
    ∃ q' hs, q.work mask replies = some (q', hs) := by
  obtain ⟨q₁, hsort, hdel, -, hmagic, -, hbody⟩ := h.sorted
  have hlen : Q.length < q₁.messages.size + 1 := Nat.lt_succ_of_le hdel.thread.length_le
  unfold work
  rw [hsort, some_bind]
  refine @workLoop_total mask Q _ q₁ [] replies hdel hlen ?_
  intro m hm M hM
  obtain ⟨M₀, hM₀, hM₀M⟩ := cell_of_body (hbody m).symm hM
  obtain ⟨htype, hok⟩ := hsound m hm M₀ hM₀
  rw [hmagic, Sound, ← (inMask_of_body hM₀M mask).1, ← (inMask_of_body hM₀M mask).2, ← hM₀M]
  exact ⟨htype, hok⟩

end JobMessageQueue

/-! ## Runs -/

/-- A queue, and the messages that were handed over so far. -/
structure JobMessageRun where
  queue : JobMessageQueue
  handed : List Handing

/-- The queue of a new job.  Nothing in the sources sets `payload_magic` after `calloc`; here it
may be any value. -/
def JobMessageRun.start (payloadMagic : UInt32) : JobMessageRun :=
  ⟨{ jobMessageQueueInit with payloadMagic := payloadMagic }, []⟩

/-- The arrival of a message, or a call of `job_message_queue_work`. -/
inductive JobMessageEvent where
  | send (M : JobMessage)
  | work (mask : UInt32) (replies : ℕ → Reply)

/-- What an event does; `none` is a failed assertion. -/
def JobMessageRun.step (s : JobMessageRun) : JobMessageEvent → Option JobMessageRun
  | .send M => some { s with queue := s.queue.send M }
  | .work mask replies =>
    (s.queue.work mask replies).map (fun r => ⟨r.1, s.handed ++ r.2⟩)

/-- The numbers of the messages handed over so far. -/
def JobMessageRun.gone (s : JobMessageRun) : List ℕ := s.handed.map Handing.msg

/-- What is to be queued: the messages that have arrived and were not handed over, in the order
of their arrival. -/
def JobMessageRun.waiting (s : JobMessageRun) : List ℕ :=
  (List.range s.queue.messages.size).filter (fun m => decide (m ∉ s.gone))

/-- The invariant of a run. -/
structure JobMessageInv (s : JobMessageRun) : Prop where
  queued : s.queue.Queued s.waiting
  gone_nodup : s.gone.Nodup
  gone_lt : ∀ m ∈ s.gone, m < s.queue.messages.size

theorem jobMessageInv_start (payloadMagic : UInt32) :
    JobMessageInv (JobMessageRun.start payloadMagic) where
  queued := ⟨⟨[], ⟨rfl, rfl⟩, rfl⟩, List.nodup_nil, by simp [JobMessageRun.waiting,
    JobMessageRun.start, jobMessageQueueInit, Store.empty]⟩
  gone_nodup := List.nodup_nil
  gone_lt := by simp [JobMessageRun.gone, JobMessageRun.start]

/-- What waits after a call: what waited and was not handed over, and what arrived since. -/
theorem waiting_append {s s' : JobMessageRun} {hs : List Handing} {k : ℕ} (h : JobMessageInv s)
    (hsize : s'.queue.messages.size = s.queue.messages.size + k)
    (hgone : s'.gone = s.gone ++ hs.map Handing.msg)
    (hmem : ∀ g ∈ hs, g.msg < s.queue.messages.size) :
    s'.waiting = s.waiting.filter (fun m => decide (m ∉ hs.map Handing.msg))
      ++ List.range' s.queue.messages.size k := by
  have hsplit : List.range (s.queue.messages.size + k)
      = List.range s.queue.messages.size ++ List.range' s.queue.messages.size k := by
    rw [List.range_eq_range', List.range_eq_range', ← List.range'_append_1, Nat.zero_add]
  unfold JobMessageRun.waiting
  rw [hsize, hgone, hsplit, List.filter_append, List.filter_filter]
  congr 1
  · refine List.filter_congr (fun m _ => ?_)
    simp only [List.mem_append, not_or, Bool.decide_and, Bool.and_comm]
  · refine List.filter_eq_self.mpr (fun m hm => ?_)
    have hle := (List.mem_range'_1.mp hm).1
    rw [decide_eq_true_eq, List.mem_append, not_or]
    constructor
    · intro hg
      have := h.gone_lt m hg
      omega
    · intro hg
      obtain ⟨g, hmem', rfl⟩ := List.mem_map.mp hg
      have := hmem g hmem'
      omega

/-- **An arrival** keeps the invariant. -/
theorem JobMessageInv.send {s : JobMessageRun} (h : JobMessageInv s) (M : JobMessage) :
    JobMessageInv { s with queue := s.queue.send M } := by
  have hwait := @waiting_append s { s with queue := s.queue.send M } [] 1 h rfl
    (List.append_nil _).symm (by simp)
  have hall : s.waiting.filter (fun m => decide (m ∉ ([] : List Handing).map Handing.msg))
      = s.waiting := List.filter_eq_self.mpr (by simp)
  rw [hall, List.range'_one] at hwait
  obtain ⟨⟨S, hdel, hQ⟩, hnodup, hfull⟩ := h.queued
  refine ⟨⟨⟨S, ⟨hdel.thread.alloc _, hdel.last_eq⟩, ?_⟩, ?_, ?_⟩, h.gone_nodup, ?_⟩
  · rw [hwait, hQ, List.append_assoc]
    rfl
  · exact List.nodup_range.filter _
  · rw [hwait]
    refine List.forall_mem_append.mpr ⟨?_, List.forall_mem_singleton.mpr ?_⟩
    · intro m hm
      obtain ⟨X, hX⟩ := hfull m hm
      exact ⟨X, Store.cell_alloc_of_some hX⟩
    · exact ⟨_, Store.cell_alloc_self _⟩
  · intro m hm
    exact Nat.lt_succ_of_lt (h.gone_lt m hm)

/-- **A call** keeps the invariant. -/
theorem JobMessageInv.work {s : JobMessageRun} {mask : UInt32} {replies : ℕ → Reply}
    {q' : JobMessageQueue} {hs : List Handing} (h : JobMessageInv s)
    (hrun : s.queue.work mask replies = some (q', hs)) :
    JobMessageInv ⟨q', s.handed ++ hs⟩ := by
  obtain ⟨hhanded, hdel, -, hfull, k, hsize, hun, hfull'⟩ := JobMessageQueue.work_spec h.queued hrun
  have hmem : ∀ g ∈ hs, g.msg < s.queue.messages.size := by
    intro g hg
    obtain ⟨M, hM⟩ := h.queued.full g.msg (hhanded.mem hg)
    exact Store.lt_size hM
  have hwait := @waiting_append s ⟨q', s.handed ++ hs⟩ hs k h hsize (List.map_append ..) hmem
  refine ⟨⟨⟨_, hdel, ?_⟩, ?_, ?_⟩, ?_, ?_⟩
  · rw [hwait, ← hun]
  · exact List.nodup_range.filter _
  · rw [hwait]
    refine List.forall_mem_append.mpr ⟨?_, ?_⟩
    · intro m hm
      obtain ⟨hm, hnot⟩ := List.mem_filter.mp hm
      exact hfull m hm (of_decide_eq_true hnot)
    · rw [← hun]
      exact hfull'
  · show (List.map Handing.msg (s.handed ++ hs)).Nodup
    rw [List.map_append]
    apply List.Nodup.append h.gone_nodup (hhanded.nodup h.queued.nodup)
    -- what was handed over now was waiting, so it had not been handed over before
    intro m hm hm'
    obtain ⟨g, hg, rfl⟩ := List.mem_map.mp hm'
    exact of_decide_eq_true (List.mem_filter.mp (hhanded.mem hg)).2 hm
  · show ∀ m ∈ List.map Handing.msg (s.handed ++ hs), m < q'.messages.size
    rw [List.map_append]
    refine List.forall_mem_append.mpr ⟨?_, ?_⟩
    · intro m hm
      have := h.gone_lt m hm
      omega
    · intro m hm
      obtain ⟨g, hg, rfl⟩ := List.mem_map.mp hm
      have := hmem g hg
      omega

theorem JobMessageInv.step {s s' : JobMessageRun} {e : JobMessageEvent} (h : JobMessageInv s)
    (hstep : s.step e = some s') : JobMessageInv s' := by
  cases e with
  | send M =>
    obtain rfl : { s with queue := s.queue.send M } = s' := Option.some.inj hstep
    exact h.send M
  | work mask replies =>
    obtain ⟨⟨q', hs⟩, hrun, rfl⟩ := Option.map_eq_some_iff.mp hstep
    exact h.work hrun

theorem jobMessageInv_of_run {payloadMagic : UInt32} {es : List JobMessageEvent}
    {s : JobMessageRun} (hrun : run JobMessageRun.step (.start payloadMagic) es = some s) :
    JobMessageInv s :=
  run_invariant (C := fun _ _ => True) (fun _ _ _ h _ hstep => h.step hstep)
    (jobMessageInv_start payloadMagic) (along_of_always (fun _ _ _ => trivial)) hrun

/-- **The queue over every run.**  Whatever arrives, and whatever the masks and the results are:
what is queued is what has arrived and was not handed over, in the order of arrival; no message
was handed over twice; `first` and `last` delimit a list of the front part of it, the rest being
unsorted.  A call fails no assertion when the queued messages are sound.  A call that returns hands
over, from all that is queued, the messages in the mask in their order up to the first negative
result, and leaves `first` and `last` around a list of exactly the others, behind which only
what was sent during the call waits. -/
theorem job_messages_run {payloadMagic : UInt32} {es : List JobMessageEvent} {s : JobMessageRun}
    (hrun : run JobMessageRun.step (.start payloadMagic) es = some s) :
    s.gone.Nodup ∧
      (∃ S, s.queue.Delimits S ∧ S ++ s.queue.unsorted = s.waiting) ∧
      (s.queue.last = none ↔ s.queue.first = none) ∧
      ∀ mask replies,
        ((∀ m ∈ s.waiting, ∀ M, s.queue.messages.cell m = some M →
            JobMessageQueue.Sound mask s.queue.payloadMagic M) →
          ∃ s', s.step (.work mask replies) = some s') ∧
        ∀ s', s.step (.work mask replies) = some s' →
          ∃ hs, s'.handed = s.handed ++ hs ∧ s.queue.HandedOver mask s.waiting replies hs ∧
            s'.queue.Delimits (s.waiting.filter (fun m => decide (m ∉ hs.map Handing.msg))) ∧
            (s'.queue.last = none ↔ s'.queue.first = none) ∧
            ∃ k, s'.queue.unsorted = List.range' s.queue.messages.size k := by
  have h := jobMessageInv_of_run hrun
  obtain ⟨S, hdel, hQ⟩ := h.queued.delimits
  refine ⟨h.gone_nodup, ⟨S, hdel, hQ.symm⟩, hdel.last_eq_none_iff, ?_⟩
  intro mask replies
  constructor
  · intro hsound
    obtain ⟨q', hs, hwork⟩ := @JobMessageQueue.work_total _ mask replies _ h.queued hsound
    exact ⟨⟨q', s.handed ++ hs⟩, by rw [JobMessageRun.step, hwork]; rfl⟩
  · intro s' hstep
    obtain ⟨⟨q', hs⟩, hwork, rfl⟩ := Option.map_eq_some_iff.mp hstep
    obtain ⟨hhanded, hdel', -, -, k, -, hun, -⟩ := JobMessageQueue.work_spec h.queued hwork
    exact ⟨hs, rfl, hhanded, hdel', hdel'.last_eq_none_iff, k, hun⟩

/-- A message of the type `flags` without payload. -/
def plainMessage (flags : UInt32) : JobMessage := ⟨flags, [], none, 0, none, none⟩

/-- Two messages arrive, and a call hands over the second one. -/
theorem job_messages_run_two :
    ∃ s s', run JobMessageRun.step (.start 0) [.send (plainMessage 1), .send (plainMessage 2)]
        = some s ∧ s.gone.Nodup ∧ s.step (.work 4 (fun _ => ⟨1, plainMessage 2, []⟩)) = some s' ∧
      s'.handed.map Handing.msg = [1] ∧ s'.queue.Delimits [0] := by
  have h := @job_messages_run 0 [.send (plainMessage 1), .send (plainMessage 2)] _ rfl
  obtain ⟨hs, hhanded, -, hdel, -⟩ := (h.2.2.2 4 (fun _ => ⟨1, plainMessage 2, []⟩)).2 _ rfl
  change _ = hs at hhanded
  subst hhanded
  exact ⟨_, _, rfl, h.1, rfl, rfl, hdel⟩

/-- **Messages with the bit of a continuation are not handed to the receiver.**  One without
payload goes to nobody and is freed, although it is in the mask; and with the magic that
`calloc` leaves, the assertion on it fails. -/
theorem continuation_not_received :
    (∃ s, run JobMessageRun.step (.start 1)
        [.send (plainMessage 8), .work 256 (fun _ => ⟨0, plainMessage 8, []⟩)] = some s ∧
      s.handed = [⟨0, .nobody, 1, .freed none false⟩]) ∧
    run JobMessageRun.step (.start 0)
        [.send (plainMessage 8), .work 256 (fun _ => ⟨0, plainMessage 8, []⟩)] = none := by
  constructor
  · exact ⟨_, rfl, by decide⟩
  · rfl

end MtprotoProxy
