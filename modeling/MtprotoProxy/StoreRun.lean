/-
# Runs of the secret store

A proxy process as the secret store sees it (`Process`): the store, the state file, the
snapshots that handshakes have taken, and the secret id each connection carries.  One
event is one call made under `ext_secret_lock` (`StoreEvent`), so a list of events is an
interleaving of the admin thread and the connections.

A handshake takes its snapshot (`handshake`) and is attached to a secret of the snapshot
later (`accept`); admin operations may come between the two.

The main result is `storeInv_of_run`: the representation invariant holds after every run.
-/
import MtprotoProxy.Runs
import MtprotoProxy.StoreInvariant
import MtprotoProxy.SecretTraffic

namespace MtprotoProxy

open CLib

/-! ## Processes and events -/

/-- The process, and the state file on its disk.  Connections are numbered. -/
structure Process where
  store : ExtStore
  file : Option Bytes
  snap : ℕ → List ExtActiveSecret
  extraInt2 : ℕ → ℤ

/-- A process at its start: an empty store and no connections. -/
def Process.start (stateFile : Bytes) (file : Option Bytes) : Process where
  store := ExtStore.init stateFile
  file := file
  snap := fun _ => []
  extraInt2 := fun _ => 0

/-- A call made under `ext_secret_lock`, with what the outside world answers. -/
inductive StoreEvent : Type where
  /-- `-S` on the command line -/
  | bootstrap (env : OpEnv) (secret : Secret) : StoreEvent
  /-- the state file, whatever stands in it, is loaded -/
  | load (fopenOk : Bool) (mem : ℕ → LoadMem) (text : Option Bytes) : StoreEvent
  | admin (env : OpEnv) (op : AdminOp) : StoreEvent
  /-- `tcp_rpcs_flush_secrets_state` -/
  | flush (io : PersistIo) : StoreEvent
  | handshake (c : ℕ) (mallocOk : Bool) (now : TimeT) : StoreEvent
  | accept (c i : ℕ) (now : TimeT) (peer : PeerAddr) : StoreEvent
  | traffic (c : ℕ) (bytesIn bytesOut : ℤ) : StoreEvent
  /-- the process ends; a new one takes its `-S` secrets and loads the state file -/
  | restart (boot : List (OpEnv × Secret)) (fopenOk : Bool) (mem : ℕ → LoadMem) : StoreEvent

/-- The bootstrap additions of a new process. -/
def bootAll : List (OpEnv × Secret) → ExtStore → Option ExtStore
  | [], s => some s
  | (env, secret) :: boot, s =>
    match tcpRpcsSetExtSecret env secret s none with
    | none => none
    | some res => bootAll boot res.store

/-- The process after an event; `none` when the call never returns. -/
def Process.step (p : Process) : StoreEvent → Option Process
  | .bootstrap env secret =>
    (tcpRpcsSetExtSecret env secret p.store p.file).map
      (fun res => { p with store := res.store, file := res.file })
  | .load fopenOk mem text =>
    (tcpRpcsLoadSecretsState fopenOk mem p.store text).map
      (fun res => { p with store := res.2, file := text })
  | .admin env op =>
    (op.run env p.store p.file).map
      (fun res => { p with store := res.store, file := res.file })
  | .flush io => some { p with file := (extPersistLocked io p.store p.file).2 }
  | .handshake c mallocOk now =>
    let l := (extSnapshotActiveSecrets mallocOk p.store now.val).getD []
    some { p with snap := Function.update p.snap c l }
  | .accept c i now peer =>
    match (p.snap c)[i]? with
    | none => some p
    | some a =>
      let r := extMetricsAttachSecretToConnection now peer (p.extraInt2 c) a.id p.store
      some { p with store := r.2, extraInt2 := Function.update p.extraInt2 c r.1 }
  | .traffic c bytesIn bytesOut =>
    some { p with
      store := tcpRpcsNoteConnectionTraffic (p.extraInt2 c) bytesIn bytesOut p.store }
  | .restart boot fopenOk mem =>
    let fresh := Process.start p.store.extSecretStateFile p.file
    match bootAll boot fresh.store with
    | none => none
    | some s =>
      (tcpRpcsLoadSecretsState fopenOk mem s p.file).map
        (fun res => { fresh with store := res.2 })

/-- No allocation of the loader fails during the event.  A failed `calloc` there leaves
an entry whose id has no metric cell; the other operations roll back. -/
def StoreEvent.AllocOk : StoreEvent → Prop
  | .load _ mem _ => ∀ i, (mem i).reallocOk = true ∧ (mem i).callocOk = true
  | .restart _ _ mem => ∀ i, (mem i).reallocOk = true ∧ (mem i).callocOk = true
  | _ => True

/-! ## Each event keeps the invariant -/

theorem entryOk_noteSeen {E : ExtSecretEntry} (h : EntryOk E) (now : TimeT) (C : PeerAddr) :
    EntryOk (noteSeen now C E) where
  hex_eq := h.hex_eq
  enabled01 := h.enabled01
  label_fixed := h.label_fixed
  ip_fixed := by
    show extSanitizeIp (if _ then _ else _) = if _ then _ else _
    split
    · exact extSanitizeIp_idem _
    · exact h.ip_fixed
  lastSeen_nonneg := now.property

/-- An accepted handshake keeps the invariant, whatever id it is given. -/
theorem StoreInv.attach {s : ExtStore} (h : StoreInv s) (now : TimeT) (C : PeerAddr)
    (extraInt2 secretId : ℤ) :
    StoreInv (extMetricsAttachSecretToConnection now C extraInt2 secretId s).2 := by
  rcases extMetricsAttach_cases now C extraInt2 secretId s with
    heq | ⟨-, s', heq, hent, hnext, hcap, -, -, -, -, hmet⟩
  · rw [heq]
    exact h
  rw [heq]
  have hlen : s'.extSecretMetricsCap = s.extSecretMetricsCap := by
    unfold ExtStore.extSecretMetricsCap
    rw [hmet]
    split
    · rw [List.length_set]
    · rfl
  -- the entries change first, the counters do not matter
  have hmod : ∃ t : ExtStore, StoreInv t ∧ t.extSecrets = s'.extSecrets ∧
      t.extSecretNextId = s.extSecretNextId ∧
      t.extSecretMetricsCap = s.extSecretMetricsCap := by
    rcases hent with hsame | ⟨idx, hidx⟩
    · exact ⟨s, h, hsame.symm, rfl, rfl⟩
    · refine ⟨s.modifyEntry idx (noteSeen now C), ?_, hidx.symm, rfl, rfl⟩
      exact h.modifyEntry idx (fun _ => rfl) (fun _ => rfl) (fun E hE => entryOk_noteSeen hE now C)
  obtain ⟨t, ht, hte, htn, htc⟩ := hmod
  refine ht.of_eq hte.symm (hnext.trans htn.symm) ?_ ?_ ?_
  · rw [hlen, htc]
  · rw [hlen]
    exact h.cap_int
  · rw [hcap]
    exact h.secretCap_nonneg

theorem StoreInv.noteTraffic {s : ExtStore} (h : StoreInv s) (secretId bytesIn bytesOut : ℤ) :
    StoreInv (tcpRpcsNoteConnectionTraffic secretId bytesIn bytesOut s) := by
  rcases tcpRpcsNoteConnectionTraffic_cases secretId bytesIn bytesOut s with heq | ⟨-, -, heq⟩
  · rw [heq]
    exact h
  · rw [heq]
    refine h.of_eq rfl rfl ?_ ?_ h.secretCap_nonneg
    · simp [ExtStore.extSecretMetricsCap]
    · simpa [ExtStore.extSecretMetricsCap] using h.cap_int

theorem StoreInv.bootAll :
    ∀ {boot : List (OpEnv × Secret)} {s s' : ExtStore}, StoreInv s →
      bootAll boot s = some s' → StoreInv s' := by
  intro boot
  induction boot with
  | nil =>
    intro s s' h hboot
    cases hboot
    exact h
  | cons b boot ih =>
    intro s s' h hboot
    obtain ⟨env, secret⟩ := b
    rw [MtprotoProxy.bootAll] at hboot
    split at hboot
    · exact absurd hboot (by simp)
    · rename_i res hres
      exact ih (h.add hres) hboot

/-- **Every event keeps the invariant.** -/
theorem StoreInv.step {p p' : Process} {e : StoreEvent} (h : StoreInv p.store)
    (halloc : e.AllocOk) (hstep : p.step e = some p') : StoreInv p'.store := by
  cases e with
  | bootstrap env secret =>
    obtain ⟨res, hres, rfl⟩ := Option.map_eq_some_iff.mp hstep
    exact h.add hres
  | load fopenOk mem text =>
    obtain ⟨⟨r, s'⟩, hres, rfl⟩ := Option.map_eq_some_iff.mp hstep
    exact h.load halloc hres
  | admin env op =>
    obtain ⟨res, hres, rfl⟩ := Option.map_eq_some_iff.mp hstep
    exact h.run hres
  | flush io =>
    cases hstep
    exact h
  | handshake c mallocOk now =>
    cases hstep
    exact h
  | accept c i now peer =>
    unfold Process.step at hstep
    dsimp only at hstep
    split at hstep
    · cases hstep
      exact h
    · cases hstep
      exact h.attach now peer _ _
  | traffic c bytesIn bytesOut =>
    cases hstep
    exact h.noteTraffic _ _ _
  | restart boot fopenOk mem =>
    unfold Process.step at hstep
    dsimp only at hstep
    split at hstep
    · exact absurd hstep (by simp)
    · rename_i s hboot
      obtain ⟨⟨r, s'⟩, hres, rfl⟩ := Option.map_eq_some_iff.mp hstep
      have hs : StoreInv s := (storeInv_init _).bootAll hboot
      exact hs.load halloc hres

/-! ## Runs -/

/-- The invariant along a run from any state that satisfies it. -/
theorem StoreInv.runFrom {p p' : Process} {es : List StoreEvent} (h : StoreInv p.store)
    (halloc : ∀ e ∈ es, e.AllocOk) (hrun : Runs.run Process.step p es = some p') :
    StoreInv p'.store := by
  have hstep : ∀ (q : Process) (e : StoreEvent) (q' : Process), StoreInv q.store →
      e.AllocOk → Process.step q e = some q' → StoreInv q'.store :=
    fun _ _ _ hq hok hq' => hq.step hok hq'
  exact Runs.run_invariant (P := fun q : Process => StoreInv q.store) hstep h
    (Runs.along_of_forall halloc) hrun

/-- **The representation invariant holds after every run** from the empty store, as long
as the allocations of its loads succeed. -/
theorem storeInv_of_run {stateFile : Bytes} {file : Option Bytes} {es : List StoreEvent}
    {p : Process} (halloc : ∀ e ∈ es, e.AllocOk)
    (hrun : Runs.run Process.step (Process.start stateFile file) es = some p) :
    StoreInv p.store :=
  StoreInv.runFrom (storeInv_init stateFile) halloc hrun

/-- A bootstrap secret, a state file with a line for another secret, a new label. -/
def sampleEvents : List StoreEvent :=
  let hex := extSecret16ToHex (Secret.fill 7)
  [.bootstrap OpEnv.healthy (Secret.fill 0),
    .load true (fun _ => ⟨true, true⟩) (some (tsvLine [hex, [49], [48], [48], [48], [120]])),
    .admin OpEnv.healthy (.update hex (some [121]) none none)]

theorem storeInv_of_sampleEvents :
    ∃ p, Runs.run Process.step (Process.start [115] none) sampleEvents = some p ∧
      p.store.extSecrets.length = 2 ∧ StoreInv p.store := by
  have hsome : ((Runs.run Process.step (Process.start [115] none) sampleEvents).map
      (fun p => p.store.extSecrets.length)) = some 2 := by decide +kernel
  obtain ⟨p, hp, hlen⟩ := Option.map_eq_some_iff.mp hsome
  refine ⟨p, hp, hlen, storeInv_of_run ?_ hp⟩
  intro e he
  simp only [sampleEvents, List.mem_cons, List.not_mem_nil, or_false] at he
  rcases he with rfl | rfl | rfl
  · trivial
  · exact fun _ => ⟨rfl, rfl⟩
  · trivial

end MtprotoProxy
