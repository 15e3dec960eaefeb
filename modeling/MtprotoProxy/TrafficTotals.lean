/-
# The global traffic counters

The totals that the status command reports are variables of their own; the counters of
each secret are cells of the metrics array.  Within a process the totals are the sum over
all cells (`TotalsInv`), whoever owns them.

A restart keeps less: the header line of the state file carries the totals, but the
loader drops them and adds up the cells of the entries it has read.  A cell whose entry
was removed is lost (`totals_decrease_after_removal`), and without such cells nothing is
(`totals_le_of_run`).
-/
import MtprotoProxy.StateRoundTrip

namespace MtprotoProxy

open CLib

/-! ## Cells add up -/

instance : Zero ExtSecretMetric := ⟨ExtSecretMetric.zero⟩

instance : Add ExtSecretMetric := ⟨ExtSecretMetric.add⟩

/-- Metric cells are added field by field, with the wrap-around of `long long`. -/
instance : AddCommMonoid ExtSecretMetric where
  add_assoc a b c := by
    show ExtSecretMetric.mk _ _ _ = ExtSecretMetric.mk _ _ _
    congr 1 <;> exact Int64.add_assoc _ _ _
  zero_add a := by
    show ExtSecretMetric.mk (0 + a.bytesIn) (0 + a.bytesOut) (0 + a.connections) = a
    simp
  add_zero a := by
    show ExtSecretMetric.mk (a.bytesIn + 0) (a.bytesOut + 0) (a.connections + 0) = a
    simp
  add_comm a b := by
    show ExtSecretMetric.mk _ _ _ = ExtSecretMetric.mk _ _ _
    congr 1 <;> exact Int64.add_comm _ _
  nsmul := nsmulRec

/-- The totals the status command reports. -/
def ExtStore.totals (s : ExtStore) : ExtSecretMetric :=
  ⟨s.extTotalBytesIn, s.extTotalBytesOut, s.extTotalConnections⟩

/-- No total is smaller than before. -/
def TotalsLe (a b : ExtSecretMetric) : Prop :=
  a.bytesIn ≤ b.bytesIn ∧ a.bytesOut ≤ b.bytesOut ∧ a.connections ≤ b.connections

instance (a b : ExtSecretMetric) : Decidable (TotalsLe a b) :=
  inferInstanceAs (Decidable (_ ∧ _))

theorem TotalsLe.refl (a : ExtSecretMetric) : TotalsLe a a :=
  ⟨Int64.le_refl _, Int64.le_refl _, Int64.le_refl _⟩

theorem TotalsLe.trans {a b c : ExtSecretMetric} (h : TotalsLe a b) (h' : TotalsLe b c) :
    TotalsLe a c :=
  ⟨Int64.le_trans h.1 h'.1, Int64.le_trans h.2.1 h'.2.1, Int64.le_trans h.2.2 h'.2.2⟩

/-- The sum `x + d` does not leave `long long`. -/
def NoOverflow (x d : Int64) : Prop := x.toInt + d.toInt < 2 ^ 63

instance (x d : Int64) : Decidable (NoOverflow x d) := inferInstanceAs (Decidable (_ < _))

theorem le_add_of_noOverflow {x d : Int64} (hd : 0 ≤ d) (h : NoOverflow x d) : x ≤ x + d := by
  have hd' : 0 ≤ d.toInt := Int64.le_iff_toInt_le.mp hd
  have hx := Int64.le_toInt x
  unfold NoOverflow at h
  rw [Int64.le_iff_toInt_le, toInt_add_of_lt (by omega) h]
  omega

theorem countedBytes_nonneg {n : ℤ} (h : IsInt32 n) : 0 ≤ countedBytes n := by
  obtain ⟨hlo, hhi⟩ := h
  unfold countedBytes
  split
  · rename_i hpos
    rw [Int64.le_iff_toInt_le, Int64.toInt_ofInt_of_le (by omega) (by omega)]
    exact hpos.le
  · exact Int64.le_refl 0

/-! ## Operations that count nothing -/

/-- The counters are kept: the array may have grown by zero cells. -/
def CountersKept (s s' : ExtStore) : Prop :=
  (∃ n, s'.extSecretMetrics = s.extSecretMetrics ++ List.replicate n 0) ∧
    s'.totals = s.totals ∧ s'.extSecretStateFile = s.extSecretStateFile

theorem CountersKept.refl (s : ExtStore) : CountersKept s s :=
  ⟨⟨0, by simp⟩, rfl, rfl⟩

theorem CountersKept.trans {s t u : ExtStore} (h : CountersKept s t) (h' : CountersKept t u) :
    CountersKept s u := by
  obtain ⟨⟨m, hm⟩, htot, hfile⟩ := h
  obtain ⟨⟨n, hn⟩, htot', hfile'⟩ := h'
  refine ⟨⟨m + n, ?_⟩, htot'.trans htot, hfile'.trans hfile⟩
  rw [hn, hm, List.append_assoc, List.replicate_append_replicate]

theorem CountersKept.cap_le {s s' : ExtStore} (h : CountersKept s s') :
    s.extSecretMetricsCap ≤ s'.extSecretMetricsCap := by
  obtain ⟨⟨n, hn⟩, -⟩ := h
  unfold ExtStore.extSecretMetricsCap
  rw [hn, List.length_append]
  omega

theorem CountersKept.sum_eq {s s' : ExtStore} (h : CountersKept s s') :
    s'.extSecretMetrics.sum = s.extSecretMetrics.sum := by
  obtain ⟨⟨n, hn⟩, -⟩ := h
  rw [hn, List.sum_append]
  simp

theorem CountersKept.metric_eq {s s' : ExtStore} (h : CountersKept s s') (j : ℤ) :
    s'.metric j = s.metric j := by
  obtain ⟨⟨n, hn⟩, -⟩ := h
  rw [← metric_append_zero s n j]
  unfold ExtStore.metric
  rw [hn]
  rfl

theorem countersKept_reserve {ok : Bool} {want r : ℤ} {s s' : ExtStore}
    (h : extReserveLocked ok want s = some (r, s')) : CountersKept s s' := by
  rcases extReserveLocked_cases h with ⟨-, cap, -, rfl⟩ | ⟨-, -, rfl⟩
  · exact ⟨⟨0, by simp⟩, rfl, rfl⟩
  · exact CountersKept.refl _

theorem countersKept_metricsReserve {ok : Bool} {want r : ℤ} {s s' : ExtStore}
    (h : extMetricsReserveLocked ok want s = some (r, s')) : CountersKept s s' := by
  rcases extMetricsReserveLocked_cases h with ⟨-, -, n, rfl⟩ | ⟨-, -, -, rfl⟩
  · exact ⟨⟨n, rfl⟩, rfl, rfl⟩
  · exact CountersKept.refl _

/-- Changes to the entries and the id counter count nothing. -/
theorem CountersKept.entries {s t : ExtStore} (h : CountersKept s t)
    (es : List ExtSecretEntry) (next : ℤ) :
    CountersKept s { t with extSecrets := es, extSecretNextId := next } := h

theorem countersKept_add {env : OpEnv} {secret : Secret} {label : Bytes} {expiresAt : Int64}
    {enabled : ℤ} {failIfExists persist : Bool} {s : ExtStore} {file : Option Bytes}
    {res : OpResult}
    (hres : extAddLocked env secret label expiresAt enabled failIfExists persist s file
      = some res) : CountersKept s res.store := by
  unfold extAddLocked at hres
  split at hres
  · -- a known secret: at most an id is given first
    split at hres
    · exact absurd hres (by simp)
    rename_i idx _ _ r s₁ hens
    have h₁ : CountersKept s s₁ := by
      unfold extEnsureId at hens
      split at hens
      · cases hens
        exact CountersKept.refl _
      split at hens
      · exact absurd hens (by simp)
      rename_i r' s' hr'
      split at hens
      · cases hens
        exact countersKept_metricsReserve hr'
      · cases hens
        exact (countersKept_metricsReserve hr').entries _ _
    split at hres
    · cases hres
      exact h₁
    split at hres
    · cases hres
      exact h₁
    · cases hres
      rw [finish_store]
      exact h₁.entries _ _
  · unfold extAddNew at hres
    split at hres
    · exact absurd hres (by simp)
    rename_i r₁ s₁ hr₁
    split at hres
    · cases hres
      exact countersKept_reserve hr₁
    split at hres
    · exact absurd hres (by simp)
    rename_i r₂ s₂ hr₂
    have h₂ := (countersKept_reserve hr₁).trans (countersKept_metricsReserve hr₂)
    split at hres
    · cases hres
      exact h₂
    · cases hres
      rw [finish_store]
      exact h₂.entries _ _

/-- **No admin command counts anything.** -/
theorem countersKept_run {env : OpEnv} {op : AdminOp} {s : ExtStore} {file : Option Bytes}
    {res : OpResult} (hres : op.run env s file = some res) : CountersKept s res.store := by
  have hentry : ∀ (hex : Bytes) (change : ℕ → ExtStore → ExtStore),
      (∀ idx, CountersKept s (change idx s)) →
      CountersKept s (extCmdOnEntry env hex change s file).store := by
    intro hex change hchange
    rcases extCmdOnEntry_cases env hex change s file with heq | ⟨-, idx, -, -, heq⟩
    · rw [heq]
      exact CountersKept.refl s
    · rw [heq, finish_store]
      exact hchange idx
  have hkept := CountersKept.refl s
  cases op with
  | add hex label expiresAt enabled =>
    unfold AdminOp.run extCmdAdd at hres
    dsimp only at hres
    split at hres
    · cases hres
      exact hkept
    · exact countersKept_add hres
  | remove hex =>
    cases hres
    exact hentry hex _ (fun _ => hkept.entries _ s.extSecretNextId)
  | setEnabled hex enabled =>
    cases hres
    exact hentry hex _ (fun _ => hkept.entries _ s.extSecretNextId)
  | update hex label expiresAt enabled =>
    cases hres
    exact hentry hex _ (fun _ => hkept.entries _ s.extSecretNextId)
  | disableExpired now =>
    cases hres
    unfold extCmdDisableExpired
    rw [finish_store]
    exact hkept.entries _ s.extSecretNextId

theorem countersKept_bootAll :
    ∀ {boot : List (OpEnv × Secret)} {s s' : ExtStore}, bootAll boot s = some s' →
      CountersKept s s' := by
  intro boot
  induction boot with
  | nil =>
    intro s s' h
    cases h
    exact CountersKept.refl _
  | cons b boot ih =>
    intro s s' h
    obtain ⟨env, secret⟩ := b
    rw [bootAll] at h
    split at h
    · exact absurd h (by simp)
    · rename_i res hres
      exact (countersKept_add hres).trans (ih h)

/-! ## Operations that count -/

theorem countConnection_eq (m : ExtSecretMetric) : m.countConnection = m + ⟨0, 0, 1⟩ := by
  show _ = ExtSecretMetric.mk (m.bytesIn + 0) (m.bytesOut + 0) (m.connections + 1)
  simp [ExtSecretMetric.countConnection]

theorem countTraffic_eq (m : ExtSecretMetric) (bytesIn bytesOut : ℤ) :
    m.countTraffic bytesIn bytesOut
      = m + ⟨countedBytes bytesIn, countedBytes bytesOut, 0⟩ := by
  show _ = ExtSecretMetric.mk (m.bytesIn + countedBytes bytesIn)
    (m.bytesOut + countedBytes bytesOut) (m.connections + 0)
  simp [ExtSecretMetric.countTraffic]

/-- Counting in one cell is counting in the sum. -/
theorem sum_count_cell {s : ExtStore} {id : ℤ} (h0 : 0 ≤ id) (hcap : id < s.extSecretMetricsCap)
    (d : ExtSecretMetric) :
    (s.extSecretMetrics.set id.toNat (s.metric id + d)).sum = s.extSecretMetrics.sum + d := by
  have hlt : id.toNat < s.extSecretMetrics.length := by
    unfold ExtStore.extSecretMetricsCap at hcap
    omega
  exact sum_set_add d hlt

/-! ## A restart -/

/-- Every cell that no entry refers to is zero. -/
def OrphansZero (s : ExtStore) : Prop :=
  ∀ id, 0 ≤ id → id < s.extSecretMetricsCap → (∀ E ∈ s.extSecrets, E.id ≠ id) → s.metric id = 0

/-- Without orphans the cells of the entries carry the whole sum. -/
theorem sum_cells_eq {s : ExtStore} (h : StoreInv s) (horphan : OrphansZero s) :
    s.extSecretMetrics.sum = (s.extSecrets.map (fun E => s.metric E.id)).sum := by
  refine sum_eq_sum_map_key (g := fun E : ExtSecretEntry => E.id.toNat) ?_ ?_ ?_
  · have hkeys : s.extSecrets.map (fun E => E.id.toNat)
        = (s.extSecrets.map (·.id)).map Int.toNat := by
      rw [List.map_map]
      rfl
    rw [hkeys]
    refine List.Nodup.map_on ?_ h.ids_nodup
    intro x hx y hy hxy
    obtain ⟨E, hE, rfl⟩ := List.mem_map.mp hx
    obtain ⟨F, hF, rfl⟩ := List.mem_map.mp hy
    have := h.id_pos E hE
    have := h.id_pos F hF
    omega
  · intro E hE
    have := h.id_pos E hE
    have hcap := h.id_lt_cap E hE
    unfold ExtStore.extSecretMetricsCap at hcap
    omega
  · intro i hi hfree
    have hcap : (i : ℤ) < s.extSecretMetricsCap := by
      unfold ExtStore.extSecretMetricsCap
      omega
    have hzero := horphan i (by omega) hcap (fun E hE heq => hfree E hE (by omega))
    exact hzero

/-- The totals the loader assigns are the sum over its entries. -/
theorem entryTotals_eq {s : ExtStore} (h : StoreInv s) :
    entryTotals s = (s.extSecrets.map (fun E => s.metric E.id)).sum := by
  have hfold : ∀ (es : List ExtSecretEntry) (acc : ExtSecretMetric),
      (∀ E ∈ es, 0 < E.id ∧ E.id < s.extSecretMetricsCap) →
      es.foldl (fun acc E =>
          if E.id ≤ 0 ∨ s.extSecretMetricsCap ≤ E.id then acc else acc.add (s.metric E.id)) acc
        = acc + (es.map (fun E => s.metric E.id)).sum := by
    intro es
    induction es with
    | nil => intro acc _; exact (add_zero acc).symm
    | cons E es ih =>
      intro acc hes
      have hE := hes E List.mem_cons_self
      rw [List.foldl_cons, if_neg (by omega),
        ih _ (fun F hF => hes F (List.mem_cons_of_mem _ hF)), List.map_cons, List.sum_cons]
      exact add_assoc acc (s.metric E.id) _
  unfold entryTotals
  rw [hfold s.extSecrets _ (fun E hE => ⟨h.id_pos E hE, h.id_lt_cap E hE⟩)]
  exact zero_add _

/-- While the file of `s` is read after the lines of `done`: the entries carry the sum of
what these lines brought, entries not met yet and cells of no entry are zero. -/
structure Merged (s : ExtStore) (done : List ExtSecretEntry) (t : ExtStore) : Prop where
  inv : StoreInv t
  sum_eq : (t.extSecrets.map (fun F => t.metric F.id)).sum
    = (done.map (fun E => persistedMetric s E.id)).sum
  fresh : ∀ F ∈ t.extSecrets, (∀ E ∈ done, E.secret ≠ F.secret) → t.metric F.id = 0
  orphan : ∀ j, 0 ≤ j → (∀ F ∈ t.extSecrets, F.id ≠ j) → t.metric j = 0

/-- A line for a known secret: its entry was fresh, and its old cell is zero. -/
theorem Merged.existing {s t : ExtStore} {done : List ExtSecretEntry} {E F₀ : ExtSecretEntry}
    {mem : LoadMem} (hcalloc : mem.callocOk = true) {idx : ℕ} {st : LoadStep}
    (ht : Merged s done t) (hnew : ∀ G ∈ done, G.secret ≠ E.secret)
    (hF₀ : t.extSecrets[idx]? = some F₀) (hsecret : F₀.secret = E.secret)
    (hres : loadExisting mem (entryLine s E) idx F₀ t = some st) :
    ∃ t', st = .next t' ∧ Merged s (done ++ [E]) t' := by
  obtain ⟨id, htake, hid, hother⟩ := ht.inv.takeId_existing (entryLine s E).parsedId hF₀
  obtain ⟨t', rfl, hl⟩ := loadExisting_spec hcalloc hid htake hres
  have hinv : StoreInv t' := ht.inv.loadExisting hcalloc hF₀ hres
  have hmem₀ : F₀ ∈ t.extSecrets := List.mem_of_getElem? hF₀
  have hzero : t.metric F₀.id = 0 := ht.fresh F₀ hmem₀ (fun G hG => hsecret ▸ hnew G hG)
  have hcell : t'.metric id = persistedMetric s E.id := hl.metric_id rfl
  obtain ⟨pre, post, hsplit, hmod⟩ := exists_split_of_getElem? hF₀
  have hent : t'.extSecrets = pre ++ fillEntry (entryLine s E) id F₀ :: post := by
    rw [hl.entries_eq, hmod]
  -- the other entries keep their cells
  have hrest : ∀ G ∈ pre ++ post, G ∈ t.extSecrets ∧ G.id ≠ id ∧ G.secret ≠ E.secret := by
    intro G hG
    have hGt : G ∈ t.extSecrets := by
      rw [hsplit]
      rcases List.mem_append.mp hG with h | h
      · exact List.mem_append_left _ h
      · exact List.mem_append_right _ (List.mem_cons_of_mem _ h)
    have hsec : G.secret ≠ F₀.secret := by
      intro heq
      have hnd := ht.inv.secrets_nodup
      rw [hsplit, List.map_append, List.map_cons, List.nodup_middle, List.nodup_cons,
        ← List.map_append] at hnd
      exact hnd.1 (heq ▸ List.mem_map_of_mem hG)
    obtain ⟨j, hj⟩ := List.mem_iff_getElem?.mp hGt
    have hjne : j ≠ idx := by
      intro hji
      rw [hji, hF₀] at hj
      exact hsec (by rw [Option.some.inj hj])
    exact ⟨hGt, hother j G hj hjne, hsecret ▸ hsec⟩
  have hkeep : ∀ G ∈ pre ++ post, t'.metric G.id = t.metric G.id := by
    intro G hG
    obtain ⟨hGt, hne, -⟩ := hrest G hG
    exact hl.metric_other G.id (ht.inv.id_pos G hGt).le hne
  refine ⟨t', rfl, hinv, ?_, ?_, ?_⟩
  · have hpre : pre.map (fun F => t'.metric F.id) = pre.map (fun F => t.metric F.id) :=
      List.map_congr_left (fun G hG => hkeep G (List.mem_append_left _ hG))
    have hpost : post.map (fun F => t'.metric F.id) = post.map (fun F => t.metric F.id) :=
      List.map_congr_left (fun G hG => hkeep G (List.mem_append_right _ hG))
    have hsum := ht.sum_eq
    rw [hsplit, List.map_append, List.map_cons, List.sum_append, List.sum_cons, hzero,
      zero_add] at hsum
    rw [hent, List.map_append, List.map_cons, List.sum_append, List.sum_cons, hpre, hpost,
      List.map_append, List.sum_append, ← hsum, List.map_singleton, List.sum_singleton]
    show _ + (t'.metric id + _) = _
    rw [hcell, add_left_comm, add_comm (persistedMetric s E.id)]
  · rw [hent]
    intro F hF hfresh
    rcases List.mem_append.mp hF with h | h
    · have hmem : F ∈ pre ++ post := List.mem_append_left _ h
      rw [hkeep F hmem]
      exact ht.fresh F (hrest F hmem).1 (fun G hG => hfresh G (List.mem_append_left _ hG))
    · rcases List.mem_cons.mp h with rfl | h
      · exact absurd hsecret.symm (hfresh E (by simp))
      · have hmem : F ∈ pre ++ post := List.mem_append_right _ h
        rw [hkeep F hmem]
        exact ht.fresh F (hrest F hmem).1 (fun G hG => hfresh G (List.mem_append_left _ hG))
  · rw [hent]
    intro j hj hfree
    have hne : j ≠ id := fun h => hfree (fillEntry (entryLine s E) id F₀) (by simp) h.symm
    rw [hl.metric_other j hj hne]
    by_cases hj₀ : F₀.id = j
    · rw [← hj₀]
      exact hzero
    · refine ht.orphan j hj (fun G hG => ?_)
      rw [hsplit] at hG
      rcases List.mem_append.mp hG with h | h
      · exact hfree G (List.mem_append_left _ h)
      · rcases List.mem_cons.mp h with rfl | h
        · exact hj₀
        · exact hfree G (List.mem_append_right _ (List.mem_cons_of_mem _ h))

/-- A line for a new secret: its cell belonged to no entry. -/
theorem Merged.new {s t : ExtStore} {done : List ExtSecretEntry} {E : ExtSecretEntry}
    {mem : LoadMem} (hmem : mem.reallocOk = true ∧ mem.callocOk = true) {st : LoadStep}
    (ht : Merged s done t) (hunknown : ∀ F ∈ t.extSecrets, F.secret ≠ E.secret)
    (hres : loadNew mem (entryLine s E) E.secret t = some st) :
    ∃ t', st = .next t' ∧ Merged s (done ++ [E]) t' := by
  obtain ⟨id, u, htake, hid, hother, -⟩ := ht.inv.takeId_new (entryLine s E).parsedId
  obtain ⟨t', rfl, hl⟩ := loadNew_spec hmem hid htake hres
  have hinv : StoreInv t' := ht.inv.loadNew hmem hunknown hres
  have hcell : t'.metric id = persistedMetric s E.id := hl.metric_id rfl
  have hkeep : ∀ F ∈ t.extSecrets, t'.metric F.id = t.metric F.id :=
    fun F hF => hl.metric_other F.id (ht.inv.id_pos F hF).le (hother F hF)
  have hent := hl.entries_eq
  refine ⟨t', rfl, hinv, ?_, ?_, ?_⟩
  · rw [hent, List.map_append, List.sum_append, List.map_congr_left hkeep, ht.sum_eq,
      List.map_append, List.sum_append, List.map_singleton, List.map_singleton,
      List.sum_singleton, List.sum_singleton]
    show _ + t'.metric id = _
    rw [hcell]
  · rw [hent]
    intro F hF hfresh
    rcases List.mem_append.mp hF with h | h
    · rw [hkeep F h]
      exact ht.fresh F h (fun G hG => hfresh G (List.mem_append_left _ hG))
    · rw [List.mem_singleton.mp h] at hfresh
      exact absurd rfl (hfresh E (by simp))
  · rw [hent]
    intro j hj hfree
    have hne : j ≠ id :=
      fun h => hfree (fillEntry (entryLine s E) id (blankEntry E.secret)) (by simp) h.symm
    rw [hl.metric_other j hj hne]
    exact ht.orphan j hj (fun F hF => hfree F (List.mem_append_left _ hF))

/-- One line of the file. -/
theorem Merged.next {s t : ExtStore} {done : List ExtSecretEntry} {E : ExtSecretEntry}
    {mem : LoadMem} (hmem : mem.reallocOk = true ∧ mem.callocOk = true) {st : LoadStep}
    (ht : Merged s done t) (hok : EntryOk E) (hid : IsInt32 E.id)
    (hnew : ∀ G ∈ done, G.secret ≠ E.secret)
    (hres : loadLine mem (tsvLine (entryCols s E)) t = some st) :
    ∃ t', st = .next t' ∧ Merged s (done ++ [E]) t' := by
  rw [loadLine_entry mem s t hok hid] at hres
  unfold loadSecretLine at hres
  split at hres
  · rename_i hidx
    exact ht.new hmem (extFindIdxLocked_eq_none hidx) hres
  · rename_i idx hidx
    obtain ⟨hlt, hsecret⟩ := extFindIdxLocked_eq_some hidx
    rw [List.getElem?_eq_getElem hlt] at hres
    exact ht.existing hmem.2 hnew (List.getElem?_eq_getElem hlt) hsecret hres

/-- All lines, by induction on those still to read. -/
theorem merged_loadLines {mem : ℕ → LoadMem}
    (hmem : ∀ i, (mem i).reallocOk = true ∧ (mem i).callocOk = true) {s : ExtStore}
    (h : StoreInv s) :
    ∀ (rest done : List ExtSecretEntry) (i : ℕ) (t t' : ExtStore),
      s.extSecrets = done ++ rest → Merged s done t →
      loadLines mem i (rest.map (fun E => tsvLine (entryCols s E))) t = some t' →
      Merged s s.extSecrets t' := by
  intro rest
  induction rest with
  | nil =>
    intro done i t t' hs ht hres
    rw [List.append_nil] at hs
    cases hres
    exact hs ▸ ht
  | cons E rest ih =>
    intro done i t t' hs ht hres
    have hE : E ∈ s.extSecrets := by rw [hs]; simp
    have hpos := h.id_pos E hE
    have hlt := h.id_lt_next E hE
    have hint := h.next_int
    have hnew : ∀ G ∈ done, G.secret ≠ E.secret := by
      have hnd := h.secrets_nodup
      rw [hs, List.map_append, List.map_cons] at hnd
      intro G hG heq
      exact (List.disjoint_of_nodup_append hnd) (List.mem_map_of_mem hG)
        (by rw [heq]; exact List.mem_cons_self)
    rw [List.map_cons, loadLines] at hres
    split at hres
    · exact absurd hres (by simp)
    · rename_i t₁ hline
      obtain ⟨t₂, heq, -⟩ := ht.next (hmem i) (h.entries_ok E hE) ⟨by omega, by omega⟩ hnew hline
      exact absurd heq (by simp)
    · rename_i t₁ hline
      obtain ⟨t₂, heq, ht₂⟩ := ht.next (hmem i) (h.entries_ok E hE) ⟨by omega, by omega⟩ hnew hline
      cases heq
      exact ih (done ++ [E]) (i + 1) t₁ t' (by rw [hs, List.append_assoc]; rfl) ht₂ hres

/-- **What a restart makes of the totals**: the sum over the persisted entries.  The new
process may have taken bootstrap secrets first. -/
theorem totals_of_load {mem : ℕ → LoadMem}
    (hmem : ∀ i, (mem i).reallocOk = true ∧ (mem i).callocOk = true) {s t s' : ExtStore} {r : ℤ}
    (h : StoreInv s) (ht : StoreInv t) (hzero : ∀ j, t.metric j = 0)
    (hpath : t.extSecretStateFile ≠ [])
    (hres : tcpRpcsLoadSecretsState true mem t (some (serialize s)) = some (r, s')) :
    s'.totals = (s.extSecrets.map (fun E => s.metric E.id)).sum ∧
      s'.totals = s'.extSecretMetrics.sum := by
  unfold tcpRpcsLoadSecretsState at hres
  rw [if_neg hpath] at hres
  dsimp only at hres
  rw [if_neg (by decide), getlines_serialize h.entries_ok] at hres
  obtain ⟨u, hlines, heq⟩ := Option.map_eq_some_iff.mp hres
  cases heq
  have hnext := h.next_pos
  have hint := h.next_int
  unfold persistTexts at hlines
  have hheader := loadLine_header (mem 0) s t ⟨by omega, by omega⟩
  rw [loadLines, hheader] at hlines
  dsimp only at hlines
  set t₀ := if t.extSecretNextId < s.extSecretNextId
    then { t with extSecretNextId := s.extSecretNextId } else t with ht₀
  have hkept : t₀.extSecrets = t.extSecrets ∧ t₀.extSecretMetrics = t.extSecretMetrics := by
    rw [ht₀]
    split <;> exact ⟨rfl, rfl⟩
  have hzero₀ : ∀ j, t₀.metric j = 0 := by
    intro j
    rw [← hzero j]
    unfold ExtStore.metric
    rw [hkept.2]
  have hmerged₀ : Merged s [] t₀ := by
    refine ⟨ht.loadLine (hmem 0) hheader, ?_, fun F _ _ => hzero₀ _, fun j _ _ => hzero₀ j⟩
    have hall : ∀ F ∈ t₀.extSecrets, t₀.metric F.id = (fun _ => 0) F := fun F _ => hzero₀ _
    rw [List.map_congr_left hall]
    simp
  have hmerged := merged_loadLines hmem h s.extSecrets [] 1 t₀ u rfl hmerged₀ hlines
  have htotals : (finishLoad u).totals = entryTotals u := rfl
  have hcells : (finishLoad u).extSecretMetrics = u.extSecretMetrics := rfl
  have hpersisted : ∀ E ∈ s.extSecrets, persistedMetric s E.id = s.metric E.id :=
    fun E hE => if_pos ⟨h.id_pos E hE, h.id_lt_cap E hE⟩
  constructor
  · rw [htotals, entryTotals_eq hmerged.inv, hmerged.sum_eq, List.map_congr_left hpersisted]
  · rw [htotals, hcells, entryTotals_eq hmerged.inv,
      sum_cells_eq hmerged.inv (fun j hj _ hfree => hmerged.orphan j hj hfree)]

/-! ## Runs -/

/-- Within a process the totals are the sum over all cells, and every id a handshake may
still be attached to has a cell. -/
structure TotalsInv (p : Process) : Prop where
  store : StoreInv p.store
  totals_eq : p.store.totals = p.store.extSecretMetrics.sum
  snap_id : ∀ c, ∀ a ∈ p.snap c, 0 < a.id ∧ a.id < p.store.extSecretMetricsCap

theorem totalsInv_start (stateFile : Bytes) (file : Option Bytes) :
    TotalsInv (Process.start stateFile file) where
  store := storeInv_init stateFile
  totals_eq := rfl
  snap_id := by simp [Process.start]

/-- The events of the life of an installation: a restart loads the file that was just
persisted, and no other file is loaded. -/
def OfInstallation (p : Process) : StoreEvent → Prop
  | .load _ _ _ => False
  | .traffic _ bytesIn bytesOut => IsInt32 bytesIn ∧ IsInt32 bytesOut
  | .restart _ fopenOk mem =>
    p.store.extSecretStateFile ≠ [] ∧ p.file = some (serialize p.store) ∧ fopenOk = true ∧
      ∀ i, (mem i).reallocOk = true ∧ (mem i).callocOk = true
  | _ => True

/-- What keeps the totals from decreasing: no counter overflows, and at a restart every
cell that is not zero belongs to an entry. -/
def KeepsTotals (p : Process) : StoreEvent → Prop
  | .accept _ _ _ _ => NoOverflow p.store.extTotalConnections 1
  | .traffic _ bytesIn bytesOut =>
    NoOverflow p.store.extTotalBytesIn (countedBytes bytesIn) ∧
      NoOverflow p.store.extTotalBytesOut (countedBytes bytesOut)
  | .restart _ _ _ => OrphansZero p.store
  | _ => True

/-- A change that counts nothing. -/
theorem TotalsInv.kept {p p' : Process} (h : TotalsInv p) (hinv : StoreInv p'.store)
    (hkept : CountersKept p.store p'.store) (hsnap : p'.snap = p.snap) :
    TotalsInv p' ∧ TotalsLe p.store.totals p'.store.totals := by
  refine ⟨⟨hinv, ?_, ?_⟩, ?_⟩
  · rw [hkept.2.1, hkept.sum_eq, h.totals_eq]
  · rw [hsnap]
    intro c a ha
    obtain ⟨hpos, hlt⟩ := h.snap_id c a ha
    exact ⟨hpos, lt_of_lt_of_le hlt hkept.cap_le⟩
  · rw [hkept.2.1]
    exact TotalsLe.refl _

/-- An accepted handshake counts one connection in the cell of its secret. -/
theorem TotalsInv.accept {p p' : Process} (h : TotalsInv p) {c i : ℕ} {now : TimeT}
    {peer : PeerAddr} (hroom : NoOverflow p.store.extTotalConnections 1)
    (hstep : p.step (.accept c i now peer) = some p') :
    TotalsInv p' ∧ TotalsLe p.store.totals p'.store.totals := by
  unfold Process.step at hstep
  dsimp only at hstep
  split at hstep
  · cases hstep
    exact ⟨h, TotalsLe.refl _⟩
  rename_i a ha
  obtain ⟨hpos, hlt⟩ := h.snap_id c a (List.mem_of_getElem? ha)
  have hinv := h.store.attach now peer (p.extraInt2 c) a.id
  cases hstep
  rcases extMetricsAttach_cases now peer (p.extraInt2 c) a.id p.store with
    heq | ⟨-, s', heq, -, -, -, -, hin, hout, hconn, hmet⟩
  · rw [heq] at hinv ⊢
    exact ⟨⟨hinv, h.totals_eq, h.snap_id⟩, TotalsLe.refl _⟩
  rw [heq] at hinv ⊢
  rw [if_pos hlt, countConnection_eq] at hmet
  have htotals : s'.totals = p.store.totals + ⟨0, 0, 1⟩ := by
    unfold ExtStore.totals
    rw [hin, hout, hconn]
    show _ = ExtSecretMetric.mk (_ + 0) (_ + 0) (_ + 1)
    simp
  have hcap : s'.extSecretMetricsCap = p.store.extSecretMetricsCap := by
    unfold ExtStore.extSecretMetricsCap
    rw [hmet, List.length_set]
  refine ⟨⟨hinv, ?_, fun c a ha => ?_⟩, ?_⟩
  · show s'.totals = s'.extSecretMetrics.sum
    rw [htotals, hmet, sum_count_cell hpos.le hlt, h.totals_eq]
  · show 0 < a.id ∧ a.id < s'.extSecretMetricsCap
    rw [hcap]
    exact h.snap_id c a ha
  · refine ⟨?_, ?_, ?_⟩
    · show p.store.extTotalBytesIn ≤ s'.extTotalBytesIn
      rw [hin]
      exact Int64.le_refl _
    · show p.store.extTotalBytesOut ≤ s'.extTotalBytesOut
      rw [hout]
      exact Int64.le_refl _
    · show p.store.extTotalConnections ≤ s'.extTotalConnections
      rw [hconn]
      exact le_add_of_noOverflow (by decide) hroom

/-- Traffic is counted in the totals and in the cell of the connection's secret. -/
theorem TotalsInv.traffic {p : Process} (h : TotalsInv p) {c : ℕ} {bytesIn bytesOut : ℤ}
    (hint : IsInt32 bytesIn ∧ IsInt32 bytesOut)
    (hroom : NoOverflow p.store.extTotalBytesIn (countedBytes bytesIn) ∧
      NoOverflow p.store.extTotalBytesOut (countedBytes bytesOut)) :
    let s' := tcpRpcsNoteConnectionTraffic (p.extraInt2 c) bytesIn bytesOut p.store
    TotalsInv { p with store := s' } ∧ TotalsLe p.store.totals s'.totals := by
  have hinv := h.store.noteTraffic (p.extraInt2 c) bytesIn bytesOut
  dsimp only
  rcases tcpRpcsNoteConnectionTraffic_cases (p.extraInt2 c) bytesIn bytesOut p.store with
    heq | ⟨hpos, hlt, heq⟩
  · rw [heq]
    exact ⟨h, TotalsLe.refl _⟩
  rw [heq] at hinv ⊢
  refine ⟨⟨hinv, ?_, fun c a ha => ?_⟩, ?_⟩
  · show ExtSecretMetric.mk _ _ _ = (p.store.extSecretMetrics.set _ _).sum
    rw [countTraffic_eq, sum_count_cell hpos.le hlt, ← h.totals_eq]
    show _ = ExtSecretMetric.mk (_ + countedBytes bytesIn) (_ + countedBytes bytesOut) (_ + 0)
    simp [ExtStore.totals]
  · have hcap := h.snap_id c a ha
    simpa [ExtStore.extSecretMetricsCap] using hcap
  · exact ⟨le_add_of_noOverflow (countedBytes_nonneg hint.1) hroom.1,
      le_add_of_noOverflow (countedBytes_nonneg hint.2) hroom.2, Int64.le_refl _⟩

/-- A restart without orphans keeps the totals. -/
theorem TotalsInv.restart {p p' : Process} (h : TotalsInv p) {boot : List (OpEnv × Secret)}
    {fopenOk : Bool} {mem : ℕ → LoadMem} (hof : OfInstallation p (.restart boot fopenOk mem))
    (horphan : OrphansZero p.store) (hstep : p.step (.restart boot fopenOk mem) = some p') :
    TotalsInv p' ∧ p'.store.totals = p.store.totals := by
  obtain ⟨hpath, hfile, hopen, hmem⟩ := hof
  have hinv : StoreInv p'.store := h.store.step (e := .restart boot fopenOk mem) hmem hstep
  unfold Process.step at hstep
  dsimp only at hstep
  split at hstep
  · exact absurd hstep (by simp)
  rename_i t hboot
  obtain ⟨⟨r, s'⟩, hres, rfl⟩ := Option.map_eq_some_iff.mp hstep
  have hkept := countersKept_bootAll hboot
  have ht : StoreInv t := (storeInv_init _).bootAll hboot
  rw [hopen, hfile] at hres
  obtain ⟨htotals, hsum⟩ := totals_of_load hmem h.store ht
    (fun j => (hkept.metric_eq j).trans rfl) (by rw [hkept.2.2]; exact hpath) hres
  refine ⟨⟨hinv, hsum, by simp [Process.start]⟩, ?_⟩
  show s'.totals = p.store.totals
  rw [htotals, h.totals_eq, sum_cells_eq h.store horphan]

/-- **One event**: the invariant is kept and no total decreases. -/
theorem TotalsInv.step {p p' : Process} {e : StoreEvent} (h : TotalsInv p)
    (hof : OfInstallation p e) (hkeeps : KeepsTotals p e) (hstep : p.step e = some p') :
    TotalsInv p' ∧ TotalsLe p.store.totals p'.store.totals := by
  cases e with
  | bootstrap env secret =>
    obtain ⟨res, hres, rfl⟩ := Option.map_eq_some_iff.mp hstep
    exact h.kept (h.store.add hres) (countersKept_add hres) rfl
  | load fopenOk mem text => exact absurd hof id
  | admin env op =>
    obtain ⟨res, hres, rfl⟩ := Option.map_eq_some_iff.mp hstep
    exact h.kept (h.store.run hres) (countersKept_run hres) rfl
  | flush io =>
    cases hstep
    exact h.kept h.store (CountersKept.refl _) rfl
  | handshake c mallocOk now =>
    cases hstep
    refine ⟨⟨h.store, h.totals_eq, ?_⟩, TotalsLe.refl _⟩
    intro c' a ha
    change a ∈ Function.update p.snap c _ c' at ha
    rw [Function.update_apply] at ha
    split at ha
    · -- a fresh snapshot: its ids are ids of entries
      cases hsnap : extSnapshotActiveSecrets mallocOk p.store now.val with
      | none =>
        rw [hsnap] at ha
        exact absurd ha (by simp)
      | some l =>
        rw [hsnap, Option.getD_some, eq_activeSecrets_of_snapshot hsnap] at ha
        obtain ⟨E, hE, -, -, hid⟩ := mem_activeSecrets.mp ha
        rw [← hid]
        exact ⟨h.store.id_pos E hE, h.store.id_lt_cap E hE⟩
    · exact h.snap_id c' a ha
  | accept c i now peer => exact h.accept hkeeps hstep
  | traffic c bytesIn bytesOut =>
    cases hstep
    exact h.traffic hof hkeeps
  | restart boot fopenOk mem =>
    obtain ⟨hinv, heq⟩ := h.restart hof hkeeps hstep
    rw [heq]
    exact ⟨hinv, TotalsLe.refl _⟩

/-- **The totals never decrease** in the life of an installation whose restarts orphan no
counter: between any two states of a run. -/
theorem totals_le_of_run {stateFile : Bytes} {file : Option Bytes} {es fs : List StoreEvent}
    {p p' : Process}
    (hof : Runs.Along Process.step OfInstallation (Process.start stateFile file) (es ++ fs))
    (hkeeps : Runs.Along Process.step KeepsTotals (Process.start stateFile file) (es ++ fs))
    (hrun : Runs.run Process.step (Process.start stateFile file) es = some p)
    (hrun' : Runs.run Process.step p fs = some p') :
    TotalsLe p.store.totals p'.store.totals := by
  have hstep : ∀ (q : Process) (e : StoreEvent) (q' : Process), TotalsInv q →
      (OfInstallation q e ∧ KeepsTotals q e) → Process.step q e = some q' →
      TotalsInv q' ∧ TotalsLe q.store.totals q'.store.totals :=
    fun q e q' hq hC hq' => hq.step hC.1 hC.2 hq'
  obtain ⟨hes, hfs⟩ := Runs.along_append.mp (Runs.along_and hof hkeeps)
  have hp : TotalsInv p :=
    Runs.run_invariant (P := TotalsInv) (fun q e q' hq hC hq' => (hstep q e q' hq hC hq').1)
      (totalsInv_start stateFile file) hes hrun
  exact Runs.run_relation (P := TotalsInv)
    (R := fun q q' : Process => TotalsLe q.store.totals q'.store.totals)
    (fun _ => TotalsLe.refl _) (fun h h' => h.trans h') hstep hp (hfs p hrun) hrun'

/-- A restart that loads the state file. -/
def plainRestart : StoreEvent := .restart [] true (fun _ => ⟨true, true⟩)

/-- The state file after a flush with a healthy disk. -/
theorem step_flush_allOk {p : Process} (hpath : p.store.extSecretStateFile = [115]) :
    p.step (.flush PersistIo.allOk) = some { p with file := some (serialize p.store) } := by
  have hok : ¬ PersistIo.allOk.Fails p.store := by
    unfold PersistIo.Fails PersistIo.SetupFails
    rw [hpath]
    decide
  rcases extPersistLocked_cases PersistIo.allOk p.store p.file with
    ⟨hnil, -⟩ | ⟨hfails, -⟩ | ⟨-, -, heq⟩
  · rw [hpath] at hnil
    exact absurd hnil (List.cons_ne_nil _ _)
  · exact absurd hfails hok
  · show some _ = _
    rw [heq, tmpContents_allOk]

/-- A restart right after a flush loads the file just persisted. -/
theorem ofInstallation_flush_restart {p : Process}
    (hpath : p.store.extSecretStateFile = [115]) :
    Runs.Along Process.step OfInstallation p [.flush PersistIo.allOk, plainRestart] := by
  refine ⟨trivial, ?_⟩
  rw [step_flush_allOk hpath]
  refine ⟨⟨?_, rfl, rfl, fun _ => ⟨rfl, rfl⟩⟩, ?_⟩
  · show p.store.extSecretStateFile ≠ []
    rw [hpath]
    exact List.cons_ne_nil _ _
  · split <;> trivial

/-- A connection is counted, the store written and the process restarted: the connection
is still counted. -/
theorem totals_le_of_plainRestart :
    ∃ p p', Runs.run Process.step (Process.start [115] none) (oneSnapshot ++ [acceptFirst])
        = some p ∧
      Runs.run Process.step p [.flush PersistIo.allOk, plainRestart] = some p' ∧
      p.store.extTotalConnections = 1 ∧ TotalsLe p.store.totals p'.store.totals := by
  have hsome : ((Runs.run Process.step (Process.start [115] none)
      (oneSnapshot ++ [acceptFirst])).map (fun p =>
        (p.store.extSecrets.map (·.id), p.store.extSecretMetrics, p.store.extTotalConnections,
          p.store.extSecretStateFile)))
      = some ([1], (List.replicate 64 0).set 1 ⟨0, 0, 1⟩, 1, [115]) := by
    decide +kernel
  have hsome' : ((Runs.run Process.step (Process.start [115] none)
      ((oneSnapshot ++ [acceptFirst]) ++ [.flush PersistIo.allOk, plainRestart])).map
        (fun p => p.store.totals)) = some ⟨0, 0, 1⟩ := by
    decide +kernel
  have hsnap : ((Runs.run Process.step (Process.start [115] none) oneSnapshot).map
      (fun p => p.store.extTotalConnections)) = some 0 := by
    decide +kernel
  obtain ⟨p, hp, hview⟩ := Option.map_eq_some_iff.mp hsome
  simp only [Prod.mk.injEq] at hview
  obtain ⟨hids, hmetrics, hconn, hpath⟩ := hview
  obtain ⟨p', hp', -⟩ := Option.map_eq_some_iff.mp hsome'
  obtain ⟨q, hq, hrun'⟩ := Runs.run_append.mp hp'
  rw [hp] at hq
  cases hq
  obtain ⟨u, hu, huconn⟩ := Option.map_eq_some_iff.mp hsnap
  -- the only cell in use belongs to the entry with id 1
  have horphan : OrphansZero p.store := by
    intro id h0 hlt hfree
    have hmem : (1 : ℤ) ∈ p.store.extSecrets.map (·.id) := by
      rw [hids]
      exact List.mem_cons_self
    obtain ⟨E, hE, hid⟩ := List.mem_map.mp hmem
    have hne : 1 ≠ id.toNat := by
      have := hfree E hE
      omega
    unfold ExtStore.metric
    rw [hmetrics, List.getD_eq_getElem?_getD, List.getElem?_set_ne hne, List.getElem?_replicate]
    split <;> rfl
  refine ⟨p, p', hp, hrun', hconn, totals_le_of_run ?_ ?_ hp hrun'⟩
  · refine Runs.along_append.mpr ⟨Runs.along_of_always (fun s e he => ?_), fun t ht => ?_⟩
    · simp only [oneSnapshot, acceptFirst, List.cons_append, List.nil_append, List.mem_cons,
        List.not_mem_nil, or_false] at he
      rcases he with rfl | rfl | rfl <;> trivial
    · rw [hp] at ht
      cases ht
      exact ofInstallation_flush_restart hpath
  · refine Runs.along_append.mpr ⟨Runs.along_append.mpr
      ⟨Runs.along_of_always (fun s e he => ?_), fun t ht => ?_⟩, fun t ht => ?_⟩
    · simp only [oneSnapshot, List.mem_cons, List.not_mem_nil, or_false] at he
      rcases he with rfl | rfl <;> trivial
    · rw [hu] at ht
      cases ht
      refine ⟨?_, by split <;> trivial⟩
      show NoOverflow u.store.extTotalConnections 1
      rw [huconn]
      decide
    · rw [hp] at ht
      cases ht
      refine ⟨trivial, ?_⟩
      rw [step_flush_allOk hpath]
      exact ⟨horphan, by split <;> trivial⟩

/-- The secret is removed before the restart: the connection is not counted any more. -/
theorem totals_decrease_after_removal :
    ∃ fs p p', Runs.run Process.step (Process.start [115] none) (oneSnapshot ++ [acceptFirst])
        = some p ∧
      Runs.run Process.step p fs = some p' ∧
      Runs.Along Process.step OfInstallation (Process.start [115] none)
        ((oneSnapshot ++ [acceptFirst]) ++ fs) ∧
      ¬ TotalsLe p.store.totals p'.store.totals := by
  have hsome : ((Runs.run Process.step (Process.start [115] none)
      (oneSnapshot ++ [acceptFirst])).map (fun p => p.store.totals)) = some ⟨0, 0, 1⟩ := by
    decide +kernel
  have hremoved : ((Runs.run Process.step (Process.start [115] none)
      ((oneSnapshot ++ [acceptFirst]) ++
        [.admin OpEnv.healthy (.remove (extSecret16ToHex (Secret.fill 9)))])).map
        (fun p => p.store.extSecretStateFile)) = some [115] := by
    decide +kernel
  have hsome' : ((Runs.run Process.step (Process.start [115] none)
      ((oneSnapshot ++ [acceptFirst]) ++
        ([.admin OpEnv.healthy (.remove (extSecret16ToHex (Secret.fill 9)))] ++
          [.flush PersistIo.allOk, plainRestart]))).map (fun p => p.store.totals))
      = some ⟨0, 0, 0⟩ := by
    decide +kernel
  obtain ⟨p, hp, hbefore⟩ := Option.map_eq_some_iff.mp hsome
  obtain ⟨p', hp', hafter⟩ := Option.map_eq_some_iff.mp hsome'
  obtain ⟨u, hu, hpath⟩ := Option.map_eq_some_iff.mp hremoved
  obtain ⟨q, hq, hrun'⟩ := Runs.run_append.mp hp'
  rw [hp] at hq
  cases hq
  refine ⟨_, p, p', hp, hrun', ?_, ?_⟩
  · rw [← List.append_assoc]
    refine Runs.along_append.mpr ⟨Runs.along_of_always (fun s e he => ?_), fun t ht => ?_⟩
    · simp only [oneSnapshot, acceptFirst, List.cons_append, List.nil_append, List.mem_cons,
        List.not_mem_nil, or_false] at he
      rcases he with rfl | rfl | rfl | rfl <;> trivial
    · rw [hu] at ht
      cases ht
      exact ofInstallation_flush_restart hpath
  · rw [hbefore, hafter]
    decide

end MtprotoProxy
