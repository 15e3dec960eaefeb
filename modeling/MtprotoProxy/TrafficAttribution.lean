/-
# Every byte is credited to one secret

An `Account` is a process together with a ledger that is kept from the history alone: which
secret each connection matched last, and how many bytes were noted for the secrets of which
ids.  Over every run of one process that starts with an empty store, the counters of the
store are those of the ledger (modulo `2 ^ 64`, as `long long` counts), the totals are the
sums over the ids that were issued, and an id stays with the secret it was issued for.
-/
import MtprotoProxy.TrafficTotals

namespace MtprotoProxy

open CLib

/-! ## The ledger -/

/-- **A process with the ledger of its traffic.** -/
structure Account where
  process : Process
  /-- the secret that a connection matched last -/
  matched : ℕ → Option ExtActiveSecret
  /-- the bytes noted for connections whose last match has this id -/
  bytesIn : ℤ → ℕ
  bytesOut : ℤ → ℕ

namespace Account

/-- A process at its start. -/
def start (stateFile : Bytes) (file : Option Bytes) : Account where
  process := Process.start stateFile file
  matched := fun _ => none
  bytesIn := fun _ => 0
  bytesOut := fun _ => 0

/-- More bytes for an id. -/
def credit (ledger : ℤ → ℕ) (id n : ℤ) : ℤ → ℕ := Function.update ledger id (ledger id + n.toNat)

/-- The ledger after an event, with the process that the event leads to. -/
def note (a : Account) (p : Process) : StoreEvent → Account
  | .accept c i _ _ =>
    match (a.process.snap c)[i]? with
    | none => { a with process := p }
    | some m => { a with process := p, matched := Function.update a.matched c (some m) }
  | .traffic c bytesIn bytesOut =>
    match a.matched c with
    | none => { a with process := p }
    | some m =>
      { a with
        process := p
        bytesIn := credit a.bytesIn m.id bytesIn
        bytesOut := credit a.bytesOut m.id bytesOut }
  | _ => { a with process := p }

/-- One event. -/
def step (a : Account) (ev : StoreEvent) : Option Account :=
  (a.process.step ev).map (fun p => a.note p ev)

end Account

/-- The events of one process that loads no state file: admin operations, handshakes, matches and
traffic. -/
def StoreEvent.InOneProcess : StoreEvent → Prop
  | .load _ _ _ => False
  | .restart _ _ _ => False
  | _ => True

/-! ## What an operation does to ids -/

/-- **An operation keeps the counters and the ids.** What it issues are the next ids, which have
cells; an entry with an older id had it before, with the same secret. -/
structure Administered (s s' : ExtStore) : Prop where
  counters : CountersKept s s'
  next_le : s.extSecretNextId ≤ s'.extSecretNextId
  issued : ∀ j, s.extSecretNextId ≤ j → j < s'.extSecretNextId → j < s'.extSecretMetricsCap
  old : ∀ E' ∈ s'.extSecrets, E'.id < s.extSecretNextId →
    ∃ E ∈ s.extSecrets, E.id = E'.id ∧ E.secret = E'.secret

section

variable {s s' : ExtStore}

theorem Administered.refl (s : ExtStore) : Administered s s :=
  ⟨CountersKept.refl s, le_rfl, fun _ hj hj' => absurd hj' (not_lt.mpr hj),
    fun E' hE' _ => ⟨E', hE', rfl, rfl⟩⟩

/-- An operation that issues nothing. -/
theorem Administered.of_entries (hcounters : CountersKept s s')
    (hnext : s'.extSecretNextId = s.extSecretNextId)
    (hold : ∀ E' ∈ s'.extSecrets, ∃ E ∈ s.extSecrets, E.id = E'.id ∧ E.secret = E'.secret) :
    Administered s s' := by
  refine ⟨hcounters, hnext.ge, fun j hj hj' => ?_, fun E' hE' _ => hold E' hE'⟩
  rw [hnext] at hj'
  exact absurd hj' (not_lt.mpr hj)

/-- An entry of a list in which one entry was changed, but not its keys. -/
theorem old_of_mem_modify {es : List ExtSecretEntry} {idx : ℕ}
    {f : ExtSecretEntry → ExtSecretEntry} (hid : ∀ E, (f E).id = E.id)
    (hsecret : ∀ E, (f E).secret = E.secret) {E' : ExtSecretEntry} (hE' : E' ∈ es.modify idx f) :
    ∃ E ∈ es, E.id = E'.id ∧ E.secret = E'.secret := by
  rcases mem_modify hE' with hE' | ⟨E, hE, rfl⟩
  · exact ⟨E', hE', rfl, rfl⟩
  · exact ⟨E, List.mem_of_getElem? hE, (hid E).symm, (hsecret E).symm⟩

/-- A change to fields of one entry that are no keys. -/
theorem Administered.modifyEntry {f : ExtSecretEntry → ExtSecretEntry} (idx : ℕ)
    (hid : ∀ E, (f E).id = E.id) (hsecret : ∀ E, (f E).secret = E.secret) :
    Administered s (s.modifyEntry idx f) :=
  Administered.of_entries ((CountersKept.refl s).entries _ s.extSecretNextId) rfl
    (fun _ hE' => old_of_mem_modify hid hsecret hE')

/-- The next entry, in an array whose metrics have room for its id. -/
theorem Administered.append {E : ExtSecretEntry} {s₂ : ExtStore} (hcounters : CountersKept s s₂)
    (hent : s₂.extSecrets = s.extSecrets) (hnext : s₂.extSecretNextId = s.extSecretNextId)
    (hid : E.id = s₂.extSecretNextId) (hcap : s₂.extSecretNextId < s₂.extSecretMetricsCap)
    (hint : s₂.extSecretMetricsCap < 2 ^ 31) (hpos : 1 ≤ s₂.extSecretNextId) :
    Administered s ({ s₂ with extSecrets := s₂.extSecrets ++ [E] } : ExtStore).bumpNextId := by
  have hbump : wrap32 (s₂.extSecretNextId + 1) = s₂.extSecretNextId + 1 :=
    wrap32_of_isInt32 ⟨by omega, by omega⟩
  refine ⟨hcounters.entries _ _, ?_, fun j hj hj' => ?_, fun E' hE' hlt => ?_⟩
  · show s.extSecretNextId ≤ wrap32 (s₂.extSecretNextId + 1)
    omega
  · change j < wrap32 (s₂.extSecretNextId + 1) at hj'
    show j < s₂.extSecretMetricsCap
    omega
  · rcases List.mem_append.mp hE' with hE' | hE'
    · exact ⟨E', hent ▸ hE', rfl, rfl⟩
    · rw [List.mem_singleton.mp hE', hid, hnext] at hlt
      exact absurd hlt (lt_irrefl _)

/-- **`ext_add_locked`** issues at most one id, for a secret without an entry. -/
theorem administered_add (h : StoreInv s) {env : OpEnv} {secret : Secret} {label : Bytes}
    {expiresAt : Int64} {enabled : ℤ} {failIfExists persist : Bool} {file : Option Bytes}
    {res : OpResult}
    (hres : extAddLocked env secret label expiresAt enabled failIfExists persist s file
      = some res) : Administered s res.store := by
  unfold extAddLocked at hres
  split at hres
  case h_1 idx hidx =>
    -- the entry has an id already
    obtain ⟨hlt, -⟩ := extFindIdxLocked_eq_some hidx
    have hpos : 0 < s.idAt idx := by
      rw [ExtStore.idAt, List.getElem?_eq_getElem hlt]
      exact h.id_pos _ (List.getElem_mem hlt)
    rw [extEnsureId, if_pos hpos] at hres
    dsimp only at hres
    split at hres
    · cases hres
      exact Administered.refl s
    split at hres
    · cases hres
      exact Administered.refl s
    · cases hres
      rw [finish_store]
      exact Administered.modifyEntry idx (fun _ => rfl) (fun _ => rfl)
  case h_2 =>
    unfold extAddNew at hres
    split at hres
    · exact absurd hres (by simp)
    rename_i r₁ s₁ hr₁
    have h₁ := h.reserve hr₁
    have hkept₁ := countersKept_reserve hr₁
    have hsame₁ : s₁.extSecrets = s.extSecrets ∧ s₁.extSecretNextId = s.extSecretNextId := by
      rcases extReserveLocked_cases hr₁ with ⟨-, cap, -, rfl⟩ | ⟨-, -, rfl⟩
      · exact ⟨rfl, rfl⟩
      · exact ⟨rfl, rfl⟩
    have hunchanged : ∀ {t : ExtStore}, CountersKept s t → t.extSecrets = s.extSecrets →
        t.extSecretNextId = s.extSecretNextId → Administered s t := fun hk hent hnext =>
      Administered.of_entries hk hnext (fun E' hE' => ⟨E', hent ▸ hE', rfl, rfl⟩)
    split at hres
    · cases hres
      exact hunchanged hkept₁ hsame₁.1 hsame₁.2
    split at hres
    · exact absurd hres (by simp)
    rename_i r₂ s₂ hr₂
    have h₂ := h₁.metricsReserve hr₂
    have hkept₂ := hkept₁.trans (countersKept_metricsReserve hr₂)
    split at hres
    · rename_i hneg
      cases hres
      rcases extMetricsReserveLocked_cases hr₂ with ⟨rfl, -⟩ | ⟨-, -, -, rfl⟩
      · exact absurd hneg (by decide)
      · exact hunchanged hkept₂ hsame₁.1 hsame₁.2
    · rename_i hok
      cases hres
      rw [finish_store]
      rcases extMetricsReserveLocked_cases hr₂ with ⟨-, hlt, n, rfl⟩ | ⟨rfl, -⟩
      · exact Administered.append hkept₂ hsame₁.1 hsame₁.2 rfl hlt h₂.cap_int h₂.next_pos
      · exact absurd (by decide) hok

/-- **No admin command gives an id to a second secret.** -/
theorem administered_run (h : StoreInv s) {env : OpEnv} {op : AdminOp} {file : Option Bytes}
    {res : OpResult} (hres : op.run env s file = some res) : Administered s res.store := by
  have hkept := CountersKept.refl s
  have hentry : ∀ (hex : Bytes) (change : ℕ → ExtStore → ExtStore),
      (∀ idx, idx < s.extSecrets.length → Administered s (change idx s)) →
      Administered s (extCmdOnEntry env hex change s file).store := by
    intro hex change hchange
    rcases extCmdOnEntry_cases env hex change s file with heq | ⟨_, idx, -, hidx, heq⟩
    · rw [heq]
      exact Administered.refl s
    · obtain ⟨hlt, -⟩ := extFindIdxLocked_eq_some hidx
      rw [heq, finish_store]
      exact hchange idx hlt
  cases op with
  | add hex label expiresAt enabled =>
    unfold AdminOp.run extCmdAdd at hres
    dsimp only at hres
    split at hres
    · cases hres
      exact Administered.refl s
    · exact administered_add h hres
  | remove hex =>
    cases hres
    refine hentry hex _ (fun idx hlt => ?_)
    exact Administered.of_entries (hkept.entries _ s.extSecretNextId) rfl
      (fun E' hE' => ⟨E', mem_of_mem_swapRemove hlt hE', rfl, rfl⟩)
  | setEnabled hex enabled =>
    cases hres
    exact hentry hex _ (fun idx _ => Administered.modifyEntry idx (fun _ => rfl) (fun _ => rfl))
  | update hex label expiresAt enabled =>
    cases hres
    exact hentry hex _ (fun idx _ => Administered.modifyEntry idx (fun _ => rfl) (fun _ => rfl))
  | disableExpired now =>
    cases hres
    unfold extCmdDisableExpired
    rw [finish_store]
    refine Administered.of_entries (hkept.entries _ s.extSecretNextId) rfl (fun E' hE' => ?_)
    obtain ⟨E, hE, rfl⟩ := List.mem_map.mp hE'
    exact ⟨E, hE, (disableEntry_keys _ E).2.symm, (disableEntry_keys _ E).1.symm⟩

end

/-! ## The invariant -/

/-- A secret with an id that was issued to it, and to no other. -/
structure Issued (s : ExtStore) (m : ExtActiveSecret) : Prop where
  pos : 0 < m.id
  lt_next : m.id < s.extSecretNextId
  owner : ∀ E ∈ s.extSecrets, E.id = m.id → E.secret = m.secret

/-- **The store agrees with the ledger.** -/
structure AccountInv (a : Account) : Prop where
  store : StoreInv a.process.store
  totals : a.process.store.totals = a.process.store.extSecretMetrics.sum
  /-- ids that were issued have cells -/
  cells : ∀ j, 0 < j → j < a.process.store.extSecretNextId → j < a.process.store.extSecretMetricsCap
  /-- ids that were not issued count nothing -/
  unissued : ∀ j, 0 ≤ j → (j = 0 ∨ a.process.store.extSecretNextId ≤ j) →
    a.process.store.metric j = 0
  snap : ∀ c, ∀ m ∈ a.process.snap c, Issued a.process.store m
  matched : ∀ c m, a.matched c = some m → Issued a.process.store m
  extraInt2 : ∀ c, a.process.extraInt2 c = ((a.matched c).map ExtActiveSecret.id).getD 0
  bytes : ∀ j, 0 ≤ j → (a.process.store.metric j).bytesIn = Int64.ofNat (a.bytesIn j) ∧
    (a.process.store.metric j).bytesOut = Int64.ofNat (a.bytesOut j)

section

variable {s s' : ExtStore} {a a' : Account} {p : Process}

theorem accountInv_start (stateFile : Bytes) (file : Option Bytes) :
    AccountInv (Account.start stateFile file) := by
  have hzero : ∀ j, (Account.start stateFile file).process.store.metric j = 0 := by
    intro j
    simp only [Account.start, Process.start, ExtStore.init, ExtStore.metric, List.getD_nil]
    rfl
  constructor
  case store => exact storeInv_init stateFile
  case totals => rfl
  case cells =>
    intro j hpos hlt
    change j < 1 at hlt
    omega
  case unissued => exact fun j _ _ => hzero j
  case snap => intro c m hm; exact absurd hm List.not_mem_nil
  case matched => intro c m hm; exact absurd hm (by simp [Account.start])
  case extraInt2 => intro c; rfl
  case bytes =>
    intro j _
    rw [hzero j]
    exact ⟨rfl, rfl⟩

/-- An issued id stays with its secret. -/
theorem Issued.administered {m : ExtActiveSecret} (h : Issued s m) (hadm : Administered s s') :
    Issued s' m := by
  refine ⟨h.pos, lt_of_lt_of_le h.lt_next hadm.next_le, fun E' hE' heq => ?_⟩
  obtain ⟨E, hE, hid, hsecret⟩ := hadm.old E' hE' (heq ▸ h.lt_next)
  rw [← hsecret]
  exact h.owner E hE (hid.trans heq)

/-- The secrets that a handshake copies have ids that were issued to them. -/
theorem issued_activeSecrets (h : StoreInv s) {now : Int64} {m : ExtActiveSecret}
    (hm : m ∈ activeSecrets s now) : Issued s m := by
  obtain ⟨E, hE, -, hsecret, hid⟩ := mem_activeSecrets.mp hm
  refine ⟨hid ▸ h.id_pos E hE, hid ▸ h.id_lt_next E hE, fun F hF heq => ?_⟩
  rw [List.inj_on_of_nodup_map h.ids_nodup hF hE (heq.trans hid.symm), hsecret]

/-- **An operation of the administrator** keeps the ledger. -/
theorem AccountInv.administered (h : AccountInv a) (hinv : StoreInv p.store)
    (hadm : Administered a.process.store p.store) (hsnap : p.snap = a.process.snap)
    (hextra : p.extraInt2 = a.process.extraInt2) : AccountInv { a with process := p } := by
  constructor
  case store => exact hinv
  case totals => exact (hadm.counters.2.1.trans h.totals).trans hadm.counters.sum_eq.symm
  case cells =>
    intro j hpos hlt
    by_cases hj : j < a.process.store.extSecretNextId
    · exact lt_of_lt_of_le (h.cells j hpos hj) hadm.counters.cap_le
    · exact hadm.issued j (by omega) hlt
  case unissued =>
    intro j h0 hj
    have hnext := hadm.next_le
    change p.store.metric j = 0
    rw [hadm.counters.metric_eq]
    exact h.unissued j h0 (hj.imp_right fun hle => le_trans hnext hle)
  case snap =>
    intro c m hm
    change m ∈ p.snap c at hm
    rw [hsnap] at hm
    exact (h.snap c m hm).administered hadm
  case matched => exact fun c m hm => (h.matched c m hm).administered hadm
  case extraInt2 =>
    intro c
    show p.extraInt2 c = _
    rw [hextra]
    exact h.extraInt2 c
  case bytes =>
    intro j h0
    show (p.store.metric j).bytesIn = _ ∧ (p.store.metric j).bytesOut = _
    rw [hadm.counters.metric_eq]
    exact h.bytes j h0

/-! ## Matches and traffic -/

/-- **Something is counted for one id,** in its cell and in the totals. -/
structure Counted (s s' : ExtStore) (id : ℤ) (d : ExtSecretMetric) : Prop where
  metrics : s'.extSecretMetrics = s.extSecretMetrics.set id.toNat (s.metric id + d)
  totals : s'.totals = s.totals + d
  next : s'.extSecretNextId = s.extSecretNextId
  old : ∀ E' ∈ s'.extSecrets, ∃ E ∈ s.extSecrets, E.id = E'.id ∧ E.secret = E'.secret

/-- The cell of the id has counted it. -/
theorem Counted.metric_self {id : ℤ} {d : ExtSecretMetric} (h : Counted s s' id d) (h0 : 0 ≤ id)
    (hcap : id < s.extSecretMetricsCap) : s'.metric id = s.metric id + d := by
  have hset : s'.metric id = (s.setMetric id (s.metric id + d)).metric id := by
    simp only [ExtStore.metric, ExtStore.setMetric, h.metrics]
  rw [hset, metric_setMetric_self h0 hcap]

/-- The other cells have not. -/
theorem Counted.metric_of_ne {id j : ℤ} {d : ExtSecretMetric} (h : Counted s s' id d) (h0 : 0 ≤ id)
    (hj : 0 ≤ j) (hne : j ≠ id) : s'.metric j = s.metric j := by
  have hset : s'.metric j = (s.setMetric id (s.metric id + d)).metric j := by
    simp only [ExtStore.metric, ExtStore.setMetric, h.metrics]
  rw [hset, metric_setMetric_of_ne h0 hj hne]

theorem Counted.issued {id : ℤ} {d : ExtSecretMetric} (h : Counted s s' id d)
    {m : ExtActiveSecret} (hm : Issued s m) : Issued s' m := by
  refine ⟨hm.pos, h.next ▸ hm.lt_next, fun E' hE' heq => ?_⟩
  obtain ⟨E, hE, hid, hsecret⟩ := h.old E' hE'
  rw [← hsecret]
  exact hm.owner E hE (hid.trans heq)

/-- **What is counted for one id** keeps the ledger, if the ledger counts it too. -/
theorem AccountInv.counted (h : AccountInv a) {id : ℤ} {d : ExtSecretMetric}
    (hpos : 0 < id) (hlt : id < a.process.store.extSecretNextId)
    (hcount : Counted a.process.store a'.process.store id d) (hinv : StoreInv a'.process.store)
    (hsnap : a'.process.snap = a.process.snap)
    (hmatched : ∀ c m, a'.matched c = some m → Issued a.process.store m)
    (hextra : ∀ c, a'.process.extraInt2 c = ((a'.matched c).map ExtActiveSecret.id).getD 0)
    (hself : Int64.ofNat (a'.bytesIn id) = Int64.ofNat (a.bytesIn id) + d.bytesIn ∧
      Int64.ofNat (a'.bytesOut id) = Int64.ofNat (a.bytesOut id) + d.bytesOut)
    (hother : ∀ j, j ≠ id → a'.bytesIn j = a.bytesIn j ∧ a'.bytesOut j = a.bytesOut j) :
    AccountInv a' := by
  have hcap := h.cells id hpos hlt
  have hsame : a'.process.store.extSecretMetricsCap = a.process.store.extSecretMetricsCap := by
    rw [ExtStore.extSecretMetricsCap, hcount.metrics, List.length_set]
    rfl
  constructor
  case store => exact hinv
  case totals =>
    rw [hcount.totals, hcount.metrics, sum_count_cell hpos.le hcap, h.totals]
  case cells =>
    rw [hsame, hcount.next]
    exact h.cells
  case unissued =>
    intro j h0 hj
    rw [hcount.next] at hj
    rw [hcount.metric_of_ne hpos.le h0 (by omega)]
    exact h.unissued j h0 hj
  case snap =>
    intro c m hm
    rw [hsnap] at hm
    exact hcount.issued (h.snap c m hm)
  case matched => exact fun c m hm => hcount.issued (hmatched c m hm)
  case extraInt2 => exact hextra
  case bytes =>
    intro j h0
    obtain ⟨hin, hout⟩ := h.bytes j h0
    by_cases hj : j = id
    · subst hj
      rw [hcount.metric_self h0 hcap, hself.1, hself.2, ← hin, ← hout]
      exact ⟨rfl, rfl⟩
    · rw [hcount.metric_of_ne hpos.le h0 hj, (hother j hj).1, (hother j hj).2]
      exact ⟨hin, hout⟩

/-- The id that a match leaves at the connection. -/
theorem extMetricsAttach_fst (now : TimeT) (C : PeerAddr) (extraInt2 : ℤ) {secretId : ℤ}
    (hpos : 0 < secretId) :
    (extMetricsAttachSecretToConnection now C extraInt2 secretId s).1 = secretId := by
  unfold extMetricsAttachSecretToConnection
  by_cases heq : extraInt2 = secretId
  · rw [if_pos (Or.inr heq), heq]
  · rw [if_neg (by omega)]

/-- A match counts a connection, unless the connection has this id already. -/
theorem counted_attach (now : TimeT) (C : PeerAddr) (extraInt2 : ℤ) {secretId : ℤ}
    (hcap : secretId < s.extSecretMetricsCap) :
    (extMetricsAttachSecretToConnection now C extraInt2 secretId s).2 = s ∨
      Counted s (extMetricsAttachSecretToConnection now C extraInt2 secretId s).2 secretId
        ⟨0, 0, 1⟩ := by
  rcases extMetricsAttach_cases now C extraInt2 secretId s with
    heq | ⟨-, s', heq, hent, hnext, -, -, hin, hout, hconn, hmet⟩
  · exact Or.inl (by rw [heq])
  · rw [heq]
    rw [if_pos hcap, countConnection_eq] at hmet
    refine Or.inr ⟨hmet, ?_, hnext, fun E' hE' => ?_⟩
    · unfold ExtStore.totals
      rw [hin, hout, hconn]
      show _ = ExtSecretMetric.mk (_ + 0) (_ + 0) (_ + 1)
      simp
    · rcases hent with hsame | ⟨idx, hidx⟩
      · exact ⟨E', hsame ▸ hE', rfl, rfl⟩
      · exact old_of_mem_modify (f := noteSeen now C) (fun _ => rfl) (fun _ => rfl) (hidx ▸ hE')

/-- **A match** moves the connection to its new id. -/
theorem AccountInv.accept (h : AccountInv a) {c : ℕ} {m : ExtActiveSecret}
    (hm : m ∈ a.process.snap c) (now : TimeT) (peer : PeerAddr) :
    let r := extMetricsAttachSecretToConnection now peer (a.process.extraInt2 c) m.id a.process.store
    AccountInv { a with
      process := { a.process with
        store := r.2
        extraInt2 := Function.update a.process.extraInt2 c r.1 }
      matched := Function.update a.matched c (some m) } := by
  have hissued := h.snap c m hm
  have hcap := h.cells m.id hissued.pos hissued.lt_next
  have hfst := extMetricsAttach_fst (s := a.process.store) now peer (a.process.extraInt2 c) hissued.pos
  have hinv := h.store.attach now peer (a.process.extraInt2 c) m.id
  have hmatched : ∀ c' m', Function.update a.matched c (some m) c' = some m' →
      Issued a.process.store m' := by
    intro c' m' hm'
    by_cases hc : c' = c
    · subst hc
      rw [Function.update_self] at hm'
      exact Option.some.inj hm' ▸ hissued
    · rw [Function.update_of_ne hc] at hm'
      exact h.matched c' m' hm'
  have hextra : ∀ c', Function.update a.process.extraInt2 c m.id c' =
      ((Function.update a.matched c (some m) c').map ExtActiveSecret.id).getD 0 := by
    intro c'
    by_cases hc : c' = c
    · subst hc
      rw [Function.update_self, Function.update_self]
      rfl
    · rw [Function.update_of_ne hc, Function.update_of_ne hc]
      exact h.extraInt2 c'
  dsimp only
  rw [hfst]
  rcases counted_attach now peer (a.process.extraInt2 c) hcap with hsame | hcount
  · rw [hsame]
    exact ⟨h.store, h.totals, h.cells, h.unissued, h.snap, hmatched, hextra, h.bytes⟩
  · refine h.counted hissued.pos hissued.lt_next hcount hinv rfl hmatched hextra ?_ ?_
    · exact ⟨(Int64.add_zero _).symm, (Int64.add_zero _).symm⟩
    · exact fun _ _ => ⟨rfl, rfl⟩

/-- A byte count as the ledger adds it. -/
theorem ofNat_add_toNat (k : ℕ) (n : ℤ) :
    Int64.ofNat (k + n.toNat) = Int64.ofNat k + countedBytes n := by
  rw [Int64.ofNat_add]
  congr 1
  unfold countedBytes
  by_cases hpos : 0 < n
  · rw [if_pos hpos, ← Int64.ofInt_eq_ofNat, Int.toNat_of_nonneg hpos.le]
  · rw [if_neg hpos, Int.toNat_of_nonpos (not_lt.mp hpos)]
    rfl

/-- Traffic counts bytes for the id of the connection. -/
theorem counted_traffic {id bytesIn bytesOut : ℤ} (hpos : 0 < id)
    (hcap : id < s.extSecretMetricsCap) (hsome : ¬ (bytesIn ≤ 0 ∧ bytesOut ≤ 0)) :
    Counted s (tcpRpcsNoteConnectionTraffic id bytesIn bytesOut s) id
      ⟨countedBytes bytesIn, countedBytes bytesOut, 0⟩ := by
  unfold tcpRpcsNoteConnectionTraffic
  rw [if_neg hsome, if_pos ⟨hpos, hcap⟩]
  refine ⟨?_, ?_, rfl, fun E' hE' => ⟨E', hE', rfl, rfl⟩⟩
  · rw [← countTraffic_eq]
    rfl
  · show ExtSecretMetric.mk _ _ _ = ExtSecretMetric.mk (_ + _) (_ + _) (_ + 0)
    simp only [Int64.add_zero]
    rfl

/-- **Traffic of a matched connection** is credited to the id of its secret. -/
theorem AccountInv.traffic (h : AccountInv a) {c : ℕ} {m : ExtActiveSecret}
    (hm : a.matched c = some m) (bytesIn bytesOut : ℤ) :
    AccountInv { a with
      process := { a.process with
        store := tcpRpcsNoteConnectionTraffic (a.process.extraInt2 c) bytesIn bytesOut a.process.store }
      bytesIn := Account.credit a.bytesIn m.id bytesIn
      bytesOut := Account.credit a.bytesOut m.id bytesOut } := by
  have hissued := h.matched c m hm
  have hcap := h.cells m.id hissued.pos hissued.lt_next
  have hid : a.process.extraInt2 c = m.id := by
    rw [h.extraInt2 c, hm]
    rfl
  rw [hid]
  by_cases hnone : bytesIn ≤ 0 ∧ bytesOut ≤ 0
  · have hcredit : ∀ (ledger : ℤ → ℕ) {n : ℤ}, n ≤ 0 → Account.credit ledger m.id n = ledger := by
      intro ledger n hn
      rw [Account.credit, Int.toNat_of_nonpos hn, Nat.add_zero, Function.update_eq_self]
    rw [tcpRpcsNoteConnectionTraffic, if_pos hnone, hcredit a.bytesIn hnone.1,
      hcredit a.bytesOut hnone.2]
    exact h
  · refine h.counted hissued.pos hissued.lt_next (counted_traffic hissued.pos hcap hnone)
      (h.store.noteTraffic m.id bytesIn bytesOut) rfl h.matched h.extraInt2 ?_ ?_
    · constructor
      · show Int64.ofNat (Account.credit a.bytesIn m.id bytesIn m.id) = _
        rw [Account.credit, Function.update_self, ofNat_add_toNat]
      · show Int64.ofNat (Account.credit a.bytesOut m.id bytesOut m.id) = _
        rw [Account.credit, Function.update_self, ofNat_add_toNat]
    · intro j hj
      exact ⟨Function.update_of_ne hj _ _, Function.update_of_ne hj _ _⟩

/-! ## Steps and runs -/

/-- **Every event of one process** keeps the ledger, and gives no id to a second secret. -/
theorem AccountInv.step (h : AccountInv a) {ev : StoreEvent} (hone : ev.InOneProcess)
    (hstep : a.step ev = some a') :
    AccountInv a' ∧ ∀ m, Issued a.process.store m → Issued a'.process.store m := by
  obtain ⟨p, hp, rfl⟩ := Option.map_eq_some_iff.mp hstep
  have hadmin : ∀ {p' : Process}, StoreInv p'.store → Administered a.process.store p'.store →
      p'.snap = a.process.snap → p'.extraInt2 = a.process.extraInt2 →
      AccountInv { a with process := p' } ∧
        ∀ m, Issued a.process.store m → Issued p'.store m := fun hinv hadm hsnap hextra =>
    ⟨h.administered hinv hadm hsnap hextra, fun m hm => hm.administered hadm⟩
  cases ev with
  | load fopenOk mem text => exact absurd hone id
  | restart boot fopenOk mem => exact absurd hone id
  | bootstrap env secret =>
    obtain ⟨res, hres, rfl⟩ := Option.map_eq_some_iff.mp hp
    exact hadmin (h.store.add hres) (administered_add h.store hres) rfl rfl
  | admin env op =>
    obtain ⟨res, hres, rfl⟩ := Option.map_eq_some_iff.mp hp
    exact hadmin (h.store.run hres) (administered_run h.store hres) rfl rfl
  | flush io =>
    obtain rfl := Option.some.inj hp
    exact hadmin h.store (Administered.refl _) rfl rfl
  | handshake c mallocOk now =>
    obtain rfl := Option.some.inj hp
    refine ⟨⟨h.store, h.totals, h.cells, h.unissued, fun c' m hm => ?_, h.matched, h.extraInt2,
      h.bytes⟩, fun m hm => hm⟩
    change m ∈ Function.update a.process.snap c _ c' at hm
    by_cases hc : c' = c
    · subst hc
      rw [Function.update_self] at hm
      cases hsnap : extSnapshotActiveSecrets mallocOk a.process.store now.val with
      | none =>
        rw [hsnap] at hm
        exact absurd hm List.not_mem_nil
      | some l =>
        rw [hsnap, Option.getD_some, eq_activeSecrets_of_snapshot hsnap] at hm
        exact issued_activeSecrets h.store hm
    · rw [Function.update_of_ne hc] at hm
      exact h.snap c' m hm
  | accept c i now peer =>
    cases hget : (a.process.snap c)[i]? with
    | none =>
      simp only [Process.step, Account.note, hget] at hp ⊢
      obtain rfl := Option.some.inj hp
      exact ⟨h, fun m hm => hm⟩
    | some m =>
      simp only [Process.step, Account.note, hget] at hp ⊢
      obtain rfl := Option.some.inj hp
      have hmem := List.mem_of_getElem? hget
      refine ⟨h.accept hmem now peer, fun m' hm' => ?_⟩
      have hissued := h.snap c m hmem
      rcases counted_attach now peer (a.process.extraInt2 c)
        (h.cells m.id hissued.pos hissued.lt_next) with hsame | hcount
      · show Issued (extMetricsAttachSecretToConnection _ _ _ _ _).2 m'
        rw [hsame]
        exact hm'
      · exact hcount.issued hm'
  | traffic c bytesIn bytesOut =>
    obtain rfl := Option.some.inj hp
    have hkeep : ∀ m, Issued a.process.store m →
        Issued (tcpRpcsNoteConnectionTraffic (a.process.extraInt2 c) bytesIn bytesOut
          a.process.store) m := by
      intro m hm
      rcases tcpRpcsNoteConnectionTraffic_cases (a.process.extraInt2 c) bytesIn bytesOut
        a.process.store with heq | ⟨-, -, heq⟩
      · rw [heq]
        exact hm
      · rw [heq]
        exact ⟨hm.pos, hm.lt_next, hm.owner⟩
    simp only [Account.note]
    cases hm : a.matched c with
    | none =>
      -- the connection has matched no secret, so its `extra_int2` is zero
      have hzero : a.process.extraInt2 c = 0 := by
        rw [h.extraInt2 c, hm]
        rfl
      have hsame : tcpRpcsNoteConnectionTraffic (a.process.extraInt2 c) bytesIn bytesOut
          a.process.store = a.process.store := by
        rw [hzero]
        unfold tcpRpcsNoteConnectionTraffic
        split
        · rfl
        · exact if_neg (by omega)
      rw [hsame]
      exact ⟨h, fun m hm => hm⟩
    | some m => exact ⟨h.traffic hm bytesIn bytesOut, hkeep⟩

/-- The sum over all cells is the sum over the ids that were issued. -/
theorem AccountInv.sum_issued (h : AccountInv a) :
    a.process.store.extSecretMetrics.sum =
      ∑ j ∈ Finset.Ico 1 a.process.store.extSecretNextId.toNat, a.process.store.metric j := by
  have hnext := h.store.next_pos
  have hcells : ∀ j : ℕ, a.process.store.extSecretMetrics.getD j 0 = a.process.store.metric j := by
    intro j
    rw [ExtStore.metric, Int.toNat_natCast]
    rfl
  rw [sum_eq_sum_range]
  simp only [hcells]
  symm
  apply Finset.sum_subset
  · intro j hj
    obtain ⟨hpos, hlt⟩ := Finset.mem_Ico.mp hj
    have hcap := h.cells j (by omega) (by omega)
    rw [ExtStore.extSecretMetricsCap] at hcap
    exact Finset.mem_range.mpr (by omega)
  · intro j _ hj
    apply h.unissued j (by omega)
    by_contra hout
    exact hj (Finset.mem_Ico.mpr (by omega))

/-- The run of a ledger is one of the process. -/
theorem accountInv_run {stateFile : Bytes} {file : Option Bytes} {es : List StoreEvent}
    (hone : ∀ ev ∈ es, ev.InOneProcess)
    (hrun : Runs.run Account.step (Account.start stateFile file) es = some a) : AccountInv a :=
  Runs.run_invariant (fun _ _ _ h hev hstep => (h.step hev hstep).1) (accountInv_start stateFile file)
    (Runs.along_of_forall hone) hrun

/-- **Ids stay with their secrets** to the end of every run. -/
theorem issued_run {fs : List StoreEvent} (h : AccountInv a) (hone : ∀ ev ∈ fs, ev.InOneProcess)
    (hrun : Runs.run Account.step a fs = some a') {m : ExtActiveSecret}
    (hm : Issued a.process.store m) : Issued a'.process.store m := by
  have hkeep : ∀ (b : Account) (ev : StoreEvent) (b' : Account),
      AccountInv b ∧ Issued b.process.store m → ev.InOneProcess → b.step ev = some b' →
      AccountInv b' ∧ Issued b'.process.store m := by
    rintro b ev b' ⟨hb, hbm⟩ hev hstep
    obtain ⟨hb', hkeep⟩ := hb.step hev hstep
    exact ⟨hb', hkeep m hbm⟩
  exact (Runs.run_invariant hkeep ⟨h, hm⟩ (Runs.along_of_forall hone) hrun).2

/-- **Traffic attribution.** In every run of one process that starts with an empty store: a
connection carries the id of the secret it matched last; the byte counters of every id are those
that the history credits to it; the totals are the sums over the ids issued so far; and in every
continuation of the run no entry with the id of an entry, or of a matched secret, has another
secret. -/
theorem traffic_is_attributed (stateFile : Bytes) (file : Option Bytes) (es fs : List StoreEvent)
    (a a' : Account) (hes : ∀ ev ∈ es, ev.InOneProcess) (hfs : ∀ ev ∈ fs, ev.InOneProcess)
    (hrun : Runs.run Account.step (Account.start stateFile file) es = some a)
    (hrun' : Runs.run Account.step a fs = some a') :
    (∀ c, a.process.extraInt2 c = ((a.matched c).map ExtActiveSecret.id).getD 0) ∧
      (∀ j, 0 ≤ j → (a.process.store.metric j).bytesIn = Int64.ofNat (a.bytesIn j) ∧
        (a.process.store.metric j).bytesOut = Int64.ofNat (a.bytesOut j)) ∧
      a.process.store.totals =
        ∑ j ∈ Finset.Ico 1 a.process.store.extSecretNextId.toNat, a.process.store.metric j ∧
      (∀ E ∈ a.process.store.extSecrets, ∀ E' ∈ a'.process.store.extSecrets, E'.id = E.id →
        E'.secret = E.secret) ∧
      ∀ c m, a.matched c = some m → (0 < m.id ∧ m.id < a.process.store.extSecretNextId) ∧
        ∀ E' ∈ a'.process.store.extSecrets, E'.id = m.id → E'.secret = m.secret := by
  have h := accountInv_run hes hrun
  refine ⟨h.extraInt2, h.bytes, h.totals.trans h.sum_issued, fun E hE E' hE' heq => ?_,
    fun c m hm => ⟨⟨(h.matched c m hm).pos, (h.matched c m hm).lt_next⟩, ?_⟩⟩
  · have hissued : Issued a.process.store ⟨E.secret, E.id⟩ :=
      ⟨h.store.id_pos E hE, h.store.id_lt_next E hE, fun F hF hFE => by
        rw [List.inj_on_of_nodup_map h.store.ids_nodup hF hE hFE]⟩
    exact (issued_run h hfs hrun' hissued).owner E' hE' heq
  · exact (issued_run h hfs hrun' (h.matched c m hm)).owner

/-- A connection matches a secret, notes traffic, and the secret is removed and another added. -/
def sampleTraffic : List StoreEvent :=
  oneSnapshot ++ [acceptFirst, .traffic 0 300 40,
    .admin OpEnv.healthy (.remove (extSecret16ToHex (Secret.fill 9))),
    .admin OpEnv.healthy (.add (extSecret16ToHex (Secret.fill 8)) [98] 0 1), .traffic 0 5 (-1)]

theorem traffic_is_attributed_sample :
    ∃ a, Runs.run Account.step (Account.start [115] none) sampleTraffic = some a ∧
      a.bytesIn 1 = 305 ∧ (a.process.store.metric 1).bytesIn = Int64.ofNat (a.bytesIn 1) := by
  have hsome : ((Runs.run Account.step (Account.start [115] none) sampleTraffic).map
      (fun a => a.bytesIn 1)) = some 305 := by decide +kernel
  obtain ⟨a, ha, hbytes⟩ := Option.map_eq_some_iff.mp hsome
  refine ⟨a, ha, hbytes, ?_⟩
  have hone : ∀ ev ∈ sampleTraffic, ev.InOneProcess := by
    intro ev hev
    simp only [sampleTraffic, oneSnapshot, acceptFirst, List.cons_append, List.nil_append,
      List.mem_cons, List.not_mem_nil, or_false] at hev
    rcases hev with rfl | rfl | rfl | rfl | rfl | rfl | rfl
    all_goals trivial
  have hall := traffic_is_attributed [115] none sampleTraffic [] a a hone (by simp) ha rfl
  exact (hall.2.1 1 (by decide)).1

end

end MtprotoProxy
