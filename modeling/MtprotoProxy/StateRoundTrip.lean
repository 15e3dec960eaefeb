/-
# The state file reads back

`ext_persist_locked` writes a header line and one line of twelve columns an entry;
`tcp_rpcs_load_secrets_state` accepts three layouts and guesses which one it has.  For a
store that satisfies `StoreInv`:

* the columns contain no tab, newline or zero (`entryCols_clean`), so the lines and the
  columns of the file are the ones that were written (`getlines_serialize`,
  `extSplitTsvLine_entryCols`);
* the loader takes an entry line for the newest layout and gets back what was written
  (`parseCols_entryCols`, `loadLine_entry`);
* line by line the empty store becomes the persisted one (`loadLines_entries`).

The main result is `load_of_persist`.
-/
import MtprotoProxy.AdminAtomicity
import MtprotoProxy.StoreRun

namespace MtprotoProxy

open CLib

/-! ## The text of a line -/

/-- A character that cannot end a column, a line or a string. -/
def IsPlain (c : UInt8) : Prop := c ≠ 0 ∧ c ≠ 9 ∧ c ≠ 10 ∧ c ≠ 13

theorem isPlain_of_isXdigit {c : UInt8} (h : isXdigit c = true) : IsPlain c := by
  refine ⟨?_, ?_, ?_, ?_⟩ <;> rintro rfl <;> exact absurd h (by decide)

theorem isPlain_fmtInt (z : ℤ) : ∀ c ∈ fmtInt z, IsPlain c := by
  intro c h
  rcases mem_fmtInt h with rfl | h
  · exact ⟨by decide, by decide, by decide, by decide⟩
  · apply isPlain_of_isXdigit
    unfold isXdigit
    rw [h]
    rfl

theorem isPlain_of_label_fixed {s : Bytes} (hs : extSanitizeLabel s = s) {c : UInt8}
    (h : c ∈ s) : IsPlain c := by
  have hchar := labelChar_of_mem_fixed hs h
  refine ⟨?_, ?_, ?_, ?_⟩ <;> rintro rfl <;> exact absurd hchar (by decide)

theorem isPlain_of_ip_fixed {s : Bytes} (hs : extSanitizeIp s = s) {c : UInt8}
    (h : c ∈ s) : IsPlain c := by
  have hchar := ipChar_of_mem_fixed hs h
  refine ⟨?_, ?_, ?_, ?_⟩ <;> rintro rfl <;> exact absurd hchar (by decide)

/-- The columns of an entry's line consist of plain characters. -/
theorem entryCols_clean (s : ExtStore) {E : ExtSecretEntry} (h : EntryOk E) :
    ∀ x ∈ entryCols s E, ∀ c ∈ x, IsPlain c := by
  unfold entryCols
  simp only [List.forall_mem_cons, List.not_mem_nil, false_imp_iff, implies_true, and_true]
  refine ⟨?_, isPlain_fmtInt _, isPlain_fmtInt _, isPlain_fmtInt _, isPlain_fmtInt _,
    isPlain_fmtInt _, isPlain_fmtInt _, isPlain_fmtInt _, isPlain_fmtInt _, isPlain_fmtInt _,
    ?_, ?_⟩
  · rw [h.hex_eq]
    exact fun c hc => isPlain_of_isXdigit (isXdigit_of_mem_toHex hc)
  · exact fun c hc => isPlain_of_ip_fixed h.ip_fixed hc
  · exact fun c hc => isPlain_of_label_fixed h.label_fixed hc

theorem headerCols_clean (s : ExtStore) : ∀ x ∈ headerCols s, ∀ c ∈ x, IsPlain c := by
  unfold headerCols
  simp only [List.forall_mem_cons, List.not_mem_nil, false_imp_iff, implies_true, and_true]
  refine ⟨?_, isPlain_fmtInt _, isPlain_fmtInt _, isPlain_fmtInt _, isPlain_fmtInt _⟩
  intro c hc
  simp only [v3Tag, List.mem_cons, List.not_mem_nil, or_false] at hc
  rcases hc with rfl | rfl
  · exact ⟨by decide, by decide, by decide, by decide⟩
  · exact ⟨by decide, by decide, by decide, by decide⟩

/-- Columns of plain characters make a line without a newline before its end. -/
theorem not_mem_of_clean {cols : List Bytes} (h : ∀ x ∈ cols, ∀ c ∈ x, IsPlain c) {d : UInt8}
    (hd : ¬ IsPlain d) (hd9 : d ≠ 9) : d ∉ ([9] : Bytes).intercalate cols := by
  intro hmem
  rcases mem_intercalate_singleton hmem with heq | ⟨x, hx, hc⟩
  · exact hd9 heq
  · exact hd (h x hx d hc)

/-- **The lines of the file** are the lines that were printed. -/
theorem getlines_serialize {s : ExtStore} (h : ∀ E ∈ s.extSecrets, EntryOk E) :
    getlines (serialize s) = persistTexts s := by
  have htexts : persistTexts s =
      ((headerCols s :: s.extSecrets.map (entryCols s)).map ([9].intercalate ·)).map
        (· ++ [10]) := by
    unfold persistTexts tsvLine
    rw [List.map_map, List.map_cons, List.map_map]
    rfl
  unfold serialize
  rw [htexts]
  apply getlines_flatten
  intro l hl
  obtain ⟨cols, hcols, rfl⟩ := List.mem_map.mp hl
  refine not_mem_of_clean ?_ (fun hp => hp.2.2.1 rfl) (by decide)
  rcases List.mem_cons.mp hcols with rfl | hcols
  · exact headerCols_clean s
  · obtain ⟨E, hE, rfl⟩ := List.mem_map.mp hcols
    exact entryCols_clean s (h E hE)

/-! ## The columns of an entry -/

theorem extSplitTsvLine_entryCols (s : ExtStore) {E : ExtSecretEntry} (h : EntryOk E) :
    extSplitTsvLine (tsvLine (entryCols s E)) 16 = entryCols s E :=
  extSplitTsvLine_intercalate (entryCols s E) 16 (List.cons_ne_nil _ _) (by simp [entryCols])
    (entryCols_clean s h)

/-- What the loop body has in its variables after an entry's line. -/
def entryLine (s : ExtStore) (E : ExtSecretEntry) : LoadedLine :=
  let M := persistedMetric s E.id
  { hex := E.hex, enabledS := fmtInt E.enabled, expiresS := fmtInt E.expiresAt.toInt
    createdS := fmtInt E.createdAt.toInt, updatedS := fmtInt E.updatedAt.toInt
    parsedId := E.id, bytesIn := M.bytesIn, bytesOut := M.bytesOut
    connections := M.connections, lastSeenAt := E.lastSeenAt, lastIp := E.lastIp
    label := E.label, hasMetrics := true }

/-- **The newest layout is recognised**, whatever the label looks like. -/
theorem parseCols_entryCols (s : ExtStore) {E : ExtSecretEntry} (h : EntryOk E)
    (hid : IsInt32 E.id) : parseCols (entryCols s E) = some (entryLine s E) := by
  have hint : hasIdCols (entryCols s E) = true := by
    simp [hasIdCols, entryCols, col, extIsIntStr_fmtInt]
  unfold parseCols
  rw [if_neg (by simp [entryCols])]
  dsimp only
  rw [if_pos hint]
  simp [entryCols, col, entryLine, extIsIntStr_fmtInt, atoi_fmtInt hid, atoll, strtoll_fmtInt,
    h.ip_fixed]

/-- The entry that is filled from its own line. -/
theorem fillEntry_entryLine (s : ExtStore) {E : ExtSecretEntry} (h : EntryOk E) :
    fillEntry (entryLine s E) E.id (blankEntry E.secret) = E := by
  have henabled : boolInt (atoi (fmtInt E.enabled) ≠ 0) = E.enabled := by
    rcases h.enabled01 with h0 | h1
    · rw [h0, atoi_fmtInt (by decide)]
      rfl
    · rw [h1, atoi_fmtInt (by decide)]
      rfl
  have hseen : (if 0 < E.lastSeenAt then E.lastSeenAt else 0) = E.lastSeenAt := by
    split
    · rfl
    · rename_i hpos
      exact Int64.le_antisymm h.lastSeen_nonneg (Int64.not_lt.mp hpos)
  have hip : (if E.lastIp ≠ [] then extSanitizeIp E.lastIp else []) = E.lastIp := by
    split
    · exact h.ip_fixed
    · rename_i hnil
      exact (not_not.mp hnil).symm
  unfold fillEntry entryLine blankEntry
  simp only [atoll, strtoll_fmtInt, h.label_fixed, henabled, hseen, hip, ← h.hex_eq]

/-! ## One line of the file -/

/-- The first character of an entry's line is a hex digit, so the line is no header. -/
theorem loadLine_entryCols (mem : LoadMem) (s t : ExtStore) {E : ExtSecretEntry}
    (h : EntryOk E) :
    loadLine mem (tsvLine (entryCols s E)) t = loadEntryLine mem (tsvLine (entryCols s E)) t := by
  obtain ⟨c, rest, hline, hlen, hc⟩ : ∃ c rest, tsvLine (entryCols s E) = c :: rest ∧
      rest ≠ [] ∧ isXdigit c = true := by
    have hhexlen : E.hex.length = 32 := by rw [h.hex_eq, length_extSecret16ToHex]
    obtain ⟨c, hex, hhex⟩ := List.exists_cons_of_ne_nil
      (List.ne_nil_of_length_pos (l := E.hex) (by omega))
    have hc : c ∈ extSecret16ToHex E.secret := by
      rw [← h.hex_eq, hhex]
      exact List.mem_cons_self
    refine ⟨c, hex ++ [9] ++ ([9] : Bytes).intercalate (entryCols s E).tail ++ [10], ?_, ?_,
      isXdigit_of_mem_toHex hc⟩
    · unfold tsvLine entryCols
      rw [List.intercalate_cons_cons, hhex]
      rfl
    · simp
  have hno : c ≠ 35 ∧ c ≠ 118 := by
    constructor <;> rintro rfl <;> exact absurd hc (by decide)
  unfold loadLine
  rw [hline, if_neg, if_neg, if_neg]
  · simp [v1Tag, List.isPrefixOf, Ne.symm hno.2]
  · simp [v2Tag, v3Tag, List.isPrefixOf, Ne.symm hno.2]
  · rintro (hle | heq)
    · have := List.length_pos_of_ne_nil hlen
      rw [List.length_cons] at hle
      omega
    · exact hno.1 heq

/-- **A written entry line is read as its entry.** -/
theorem loadLine_entry (mem : LoadMem) (s t : ExtStore) {E : ExtSecretEntry} (h : EntryOk E)
    (hid : IsInt32 E.id) :
    loadLine mem (tsvLine (entryCols s E)) t =
      loadSecretLine mem (entryLine s E) E.secret t := by
  have hsecret : extSecret16FromHex (entryLine s E).hex = some E.secret := by
    show extSecret16FromHex E.hex = some E.secret
    rw [h.hex_eq]
    exact extSecret16FromHex_toHex E.secret
  rw [loadLine_entryCols mem s t h]
  unfold loadEntryLine
  rw [extSplitTsvLine_entryCols s h, parseCols_entryCols s h hid]
  dsimp only
  rw [hsecret]

/-- **The written header line** moves the id counter to the persisted one. -/
theorem loadLine_header (mem : LoadMem) (s t : ExtStore) (hnext : IsInt32 s.extSecretNextId) :
    loadLine mem (tsvLine (headerCols s)) t =
      some (.next (if t.extSecretNextId < s.extSecretNextId
        then { t with extSecretNextId := s.extSecretNextId } else t)) := by
  have htok : strtok (fun c => c == 9 || c == 13 || c == 10) (cstr (tsvLine (headerCols s)))
      = headerCols s := by
    have hz : (0 : UInt8) ∉ tsvLine (headerCols s) := by
      unfold tsvLine
      rw [List.mem_append]
      rintro (hmem | hmem)
      · exact not_mem_of_clean (headerCols_clean s) (fun hp => hp.1 rfl) (by decide) hmem
      · exact absurd (List.mem_singleton.mp hmem) (by decide)
    rw [cstr_of_not_mem hz]
    refine strtok_intercalate _ 9 10 rfl rfl _ ?_ ?_
    · unfold headerCols
      simp [v3Tag, fmtInt_ne_nil]
    · intro x hx c hc
      have hp := headerCols_clean s x hx c hc
      simp [hp.2.1, hp.2.2.1, hp.2.2.2]
  have hline : tsvLine (headerCols s) =
      v3Tag ++ [9] ++ (([9] : Bytes).intercalate (headerCols s).tail ++ [10]) := by
    unfold tsvLine headerCols
    rw [List.intercalate_cons_cons]
    simp
  unfold loadLine
  rw [if_neg, if_pos]
  · unfold loadHeaderLine
    rw [htok]
    show some (LoadStep.next (if t.extSecretNextId < atoi (fmtInt s.extSecretNextId)
      then { t with extSecretNextId := atoi (fmtInt s.extSecretNextId) } else t)) = _
    rw [atoi_fmtInt hnext]
  · rw [hline]
    simp [v3Tag, List.isPrefixOf]
  · rw [hline]
    simp [v3Tag, byteAt]

/-! ## The whole file -/

/-- The store while the file of `s` is read into an empty one, after the header and the
lines of `done`. -/
structure LoadedPrefix (s : ExtStore) (done : List ExtSecretEntry) (t : ExtStore) : Prop where
  entries_eq : t.extSecrets = done
  next_eq : t.extSecretNextId = s.extSecretNextId
  cap_int : t.extSecretMetricsCap < 2 ^ 31
  secretCap_nonneg : 0 ≤ t.extSecretCap
  metric_eq : ∀ E ∈ done, t.metric E.id = persistedMetric s E.id

/-- A line for a new secret is read to its end when the array is below `2^30` entries
and the id below `2^30`. -/
theorem loadNew_isSome (mem : LoadMem) {l : LoadedLine} {secret : Secret} {s : ExtStore}
    (hp : 0 < freeParsedId s none l.parsedId) (hid : freeParsedId s none l.parsedId < 2 ^ 30)
    (hcnt : s.extSecretCnt + 1 ≤ 2 ^ 30) (hsc : 0 ≤ s.extSecretCap)
    (hcap : s.extSecretMetricsCap < 2 ^ 31) : (loadNew mem l secret s).isSome = true := by
  obtain ⟨⟨r, s₀⟩, hr⟩ :=
    Option.isSome_iff_exists.mp (extReserveLocked_isSome mem.reallocOk hsc hcnt)
  have hs₀ : ∃ cap, s₀ = { s with extSecretCap := cap } := by
    rcases extReserveLocked_cases hr with ⟨-, cap, -, h⟩ | ⟨-, -, h⟩
    · exact ⟨cap, h⟩
    · exact ⟨s.extSecretCap, h⟩
  obtain ⟨cap, rfl⟩ := hs₀
  unfold loadNew
  dsimp only
  rw [hr]
  dsimp only
  split
  · rfl
  · rw [takeId_new, if_pos hp]
    dsimp only
    rw [if_neg (not_le.mpr hp)]
    have hmetrics : (extMetricsReserveLocked mem.callocOk (freeParsedId s none l.parsedId)
        { s with
          extSecretCap := cap
          extSecrets := s.extSecrets ++
            [fillEntry l (freeParsedId s none l.parsedId) (blankEntry secret)] }).isSome = true :=
      extMetricsReserveLocked_isSome mem.callocOk hcap hid
    obtain ⟨⟨r', s₂⟩, hr'⟩ := Option.isSome_iff_exists.mp hmetrics
    rw [hr']
    dsimp only
    split <;> rfl

/-- One entry: the induction step of `loadLines_entries`. -/
theorem loadLine_next {mem : LoadMem} (hmem : mem.reallocOk = true ∧ mem.callocOk = true)
    {s t : ExtStore} {done rest : List ExtSecretEntry} {E : ExtSecretEntry} (h : StoreInv s)
    (hids : ∀ F ∈ s.extSecrets, F.id < 2 ^ 30) (hs : s.extSecrets = done ++ E :: rest)
    (ht : LoadedPrefix s done t) :
    ∃ t', loadLine mem (tsvLine (entryCols s E)) t = some (.next t') ∧
      LoadedPrefix s (done ++ [E]) t' := by
  have hE : E ∈ s.extSecrets := by rw [hs]; simp
  have hok := h.entries_ok E hE
  have hpos := h.id_pos E hE
  have hlt := h.id_lt_next E hE
  have hid := hids E hE
  -- the secret and the id of `E` do not occur before it
  have hsecret : ∀ F ∈ done, F.secret ≠ E.secret := by
    have hnd := h.secrets_nodup
    rw [hs, List.map_append, List.map_cons] at hnd
    intro F hF heq
    exact (List.disjoint_of_nodup_append hnd) (List.mem_map_of_mem hF)
      (by rw [heq]; exact List.mem_cons_self)
  have hother : ∀ F ∈ done, F.id ≠ E.id := by
    have hnd := h.ids_nodup
    rw [hs, List.map_append, List.map_cons] at hnd
    intro F hF heq
    exact (List.disjoint_of_nodup_append hnd) (List.mem_map_of_mem hF)
      (by rw [heq]; exact List.mem_cons_self)
  have hfree : freeParsedId t none (entryLine s E).parsedId = E.id := by
    unfold freeParsedId
    apply if_neg
    rw [Bool.and_eq_true, List.any_eq_true]
    rintro ⟨-, ⟨F, j⟩, hF, heq⟩
    have hFt := List.mem_zipIdx_iff_getElem?.mp hF
    rw [ht.entries_eq] at hFt
    simp only [decide_eq_true_eq, Bool.and_eq_true] at heq
    exact hother F (List.mem_of_getElem? hFt) heq.2
  have hcnt : t.extSecretCnt + 1 ≤ 2 ^ 30 := by
    have hlen := length_lt_of_keys (g := (·.id)) (n := 2 ^ 30) (by norm_num) h.ids_nodup
      (fun F hF => ⟨h.id_pos F hF, hids F hF⟩)
    have hle : done.length + 1 ≤ s.extSecrets.length := by
      rw [hs, List.length_append, List.length_cons]
      omega
    unfold ExtStore.extSecretCnt
    rw [ht.entries_eq]
    omega
  have hnone : extFindIdxLocked t E.secret = none := by
    unfold extFindIdxLocked
    rw [List.findIdx?_eq_none_iff, ht.entries_eq]
    intro F hF
    exact decide_eq_false (hsecret F hF)
  have hsome : (loadNew mem (entryLine s E) E.secret t).isSome = true :=
    loadNew_isSome mem (by rw [hfree]; exact hpos) (by rw [hfree]; exact hid) hcnt
      ht.secretCap_nonneg ht.cap_int
  obtain ⟨st, hst⟩ := Option.isSome_iff_exists.mp hsome
  have htake : takeId (freeParsedId t none (entryLine s E).parsedId) 0 t = (E.id, t) := by
    rw [takeId_new, hfree, if_pos hpos]
  obtain ⟨t', rfl, hl⟩ := loadNew_spec hmem hpos htake hst
  refine ⟨t', ?_, ?_⟩
  · rw [loadLine_entry mem s t hok ⟨by omega, by omega⟩]
    unfold loadSecretLine
    rw [hnone]
    exact hst
  · refine ⟨?_, ?_, hl.cap_int ht.cap_int, ht.secretCap_nonneg.trans hl.secretCap_le, ?_⟩
    · rw [hl.entries_eq, ht.entries_eq, fillEntry_entryLine s hok]
    · rw [hl.next_eq, ht.next_eq, if_neg (not_le.mpr hlt)]
    · refine List.forall_mem_append.mpr ⟨fun F hF => ?_, List.forall_mem_singleton.mpr ?_⟩
      · have hF' : F ∈ s.extSecrets := by rw [hs]; exact List.mem_append_left _ hF
        rw [hl.metric_other F.id (h.id_pos F hF').le (hother F hF), ht.metric_eq F hF]
      · exact hl.metric_id rfl

/-- All entries, by induction on the lines still to read. -/
theorem loadLines_entries {mem : ℕ → LoadMem}
    (hmem : ∀ i, (mem i).reallocOk = true ∧ (mem i).callocOk = true) {s : ExtStore}
    (h : StoreInv s) (hids : ∀ F ∈ s.extSecrets, F.id < 2 ^ 30) :
    ∀ (rest done : List ExtSecretEntry) (i : ℕ) (t : ExtStore), s.extSecrets = done ++ rest →
      LoadedPrefix s done t →
      ∃ t', loadLines mem i (rest.map (fun E => tsvLine (entryCols s E))) t = some t' ∧
        LoadedPrefix s s.extSecrets t' := by
  intro rest
  induction rest with
  | nil =>
    intro done i t hs ht
    rw [List.append_nil] at hs
    exact ⟨t, rfl, hs ▸ ht⟩
  | cons E rest ih =>
    intro done i t hs ht
    obtain ⟨t₁, hline, ht₁⟩ := loadLine_next (hmem i) h hids hs ht
    rw [List.map_cons, loadLines, hline]
    exact ih (done ++ [E]) (i + 1) t₁ (by rw [hs, List.append_assoc]; rfl) ht₁

/-- **Loading the serialization of a store into an empty one** gives the entries, their
counters and the id counter. -/
theorem load_serialize {mem : ℕ → LoadMem}
    (hmem : ∀ i, (mem i).reallocOk = true ∧ (mem i).callocOk = true) {s : ExtStore}
    (h : StoreInv s) (hids : ∀ E ∈ s.extSecrets, E.id < 2 ^ 30) {stateFile : Bytes}
    (hpath : stateFile ≠ []) :
    ∃ s', tcpRpcsLoadSecretsState true mem (ExtStore.init stateFile) (some (serialize s))
        = some (0, s') ∧
      s'.extSecrets = s.extSecrets ∧ (∀ E ∈ s.extSecrets, s'.metric E.id = s.metric E.id) ∧
      s'.extSecretNextId = s.extSecretNextId := by
  have hnext := h.next_pos
  have hint := h.next_int
  set t₀ : ExtStore := { ExtStore.init stateFile with extSecretNextId := s.extSecretNextId }
    with ht₀
  have hheader : loadLine (mem 0) (tsvLine (headerCols s)) (ExtStore.init stateFile)
      = some (.next t₀) := by
    rw [loadLine_header (mem 0) s _ ⟨by omega, by omega⟩]
    congr 2
    split
    · rfl
    · rename_i hge
      have heq : s.extSecretNextId = 1 := le_antisymm (not_lt.mp hge) hnext
      rw [ht₀, heq]
      rfl
  have hprefix : LoadedPrefix s [] t₀ := by
    refine ⟨rfl, rfl, ?_, le_rfl, by simp⟩
    show ((0 : ℕ) : ℤ) < 2 ^ 31
    norm_num
  obtain ⟨t, hlines, ht⟩ := loadLines_entries hmem h hids s.extSecrets [] 1 t₀ rfl hprefix
  refine ⟨finishLoad t, ?_, ht.entries_eq, fun E hE => ?_, ?_⟩
  · unfold tcpRpcsLoadSecretsState
    have hcfg : ¬ (ExtStore.init stateFile).extSecretStateFile = [] := hpath
    rw [if_neg hcfg]
    dsimp only
    rw [if_neg (by decide), getlines_serialize h.entries_ok]
    unfold persistTexts
    rw [loadLines, hheader]
    dsimp only
    rw [hlines]
    rfl
  · have hm := ht.metric_eq E hE
    unfold persistedMetric at hm
    rw [if_pos ⟨h.id_pos E hE, h.id_lt_cap E hE⟩] at hm
    exact hm
  · show (if t.extSecretNextId < 1 then 1 else t.extSecretNextId) = s.extSecretNextId
    rw [ht.next_eq, if_neg (not_lt.mpr hnext)]

/-- **The state file round trip.**  From any state a run reaches, persisting with a
healthy disk and loading the file in a process with an empty store gives back the list
of entries, the counters of each entry and the id counter. -/
theorem load_of_persist {stateFile : Bytes} {file : Option Bytes} {es : List StoreEvent}
    {p : Process} (halloc : ∀ e ∈ es, e.AllocOk)
    (hrun : Runs.run Process.step (Process.start stateFile file) es = some p)
    (hpath : p.store.extSecretStateFile ≠ []) (hids : ∀ E ∈ p.store.extSecrets, E.id < 2 ^ 30)
    {io : PersistIo} (hio : ¬ io.AnyCallFails p.store) {mem : ℕ → LoadMem}
    (hmem : ∀ i, (mem i).reallocOk = true ∧ (mem i).callocOk = true) :
    ∃ text s', extPersistLocked io p.store p.file = (0, some text) ∧
      tcpRpcsLoadSecretsState true mem (ExtStore.init p.store.extSecretStateFile) (some text)
        = some (0, s') ∧
      s'.extSecrets = p.store.extSecrets ∧
      (∀ E ∈ p.store.extSecrets, s'.metric E.id = p.store.metric E.id) ∧
      s'.extSecretNextId = p.store.extSecretNextId := by
  have h : StoreInv p.store := StoreInv.runFrom (storeInv_init stateFile) halloc hrun
  obtain ⟨s', hload, hent, hmetric, hnext⟩ := load_serialize hmem h hids hpath
  refine ⟨serialize p.store, s', ?_, hload, hent, hmetric, hnext⟩
  have hfull := (tmpContents_eq_serialize_iff io p.store).mpr
    (losesNothing_of_not_anyCallFails hio)
  rcases extPersistLocked_cases io p.store p.file with ⟨hnil, -⟩ | ⟨hfails, -⟩ | ⟨-, -, heq⟩
  · exact absurd hnil hpath
  · exact absurd (anyCallFails_of_fails hfails) hio
  · rw [heq, hfull]

/-- A secret is added and a connection takes its snapshot. -/
def oneSnapshot : List StoreEvent :=
  [.admin OpEnv.healthy (.add (extSecret16ToHex (Secret.fill 9)) [97] 0 1),
    .handshake 0 true OpEnv.healthy.now]

/-- The connection is accepted under the secret. -/
def acceptFirst : StoreEvent := .accept 0 0 OpEnv.healthy.now ⟨1, List.replicate 16 0, none⟩

/-- The connection notes traffic, and a secret is added with a label that looks like a number. -/
def twoSecretsRun : List StoreEvent :=
  oneSnapshot ++ [acceptFirst, .traffic 0 300 40,
    .admin OpEnv.healthy (.add (extSecret16ToHex (Secret.fill 8)) [49, 50] 0 1)]

theorem load_of_persist_twoSecrets :
    ∃ p, Runs.run Process.step (Process.start [115] none) twoSecretsRun = some p ∧
      p.store.extSecrets.map (fun E => (E.label, (p.store.metric E.id).bytesIn))
        = [([97], 300), ([49, 50], 0)] ∧
      ∃ text s', extPersistLocked PersistIo.allOk p.store p.file = (0, some text) ∧
        tcpRpcsLoadSecretsState true (fun _ => ⟨true, true⟩)
          (ExtStore.init p.store.extSecretStateFile) (some text) = some (0, s') ∧
        s'.extSecrets = p.store.extSecrets ∧
        (∀ E ∈ p.store.extSecrets, s'.metric E.id = p.store.metric E.id) ∧
        s'.extSecretNextId = p.store.extSecretNextId := by
  have hsome : (Runs.run Process.step (Process.start [115] none) twoSecretsRun).map
      (fun p => (p.store.extSecrets.map (·.id), p.store.extSecretStateFile,
        p.store.extSecrets.map (fun E => (E.label, (p.store.metric E.id).bytesIn))))
        = some ([1, 2], [115], [([97], 300), ([49, 50], 0)]) := by decide +kernel
  obtain ⟨p, hp, hview⟩ := Option.map_eq_some_iff.mp hsome
  obtain ⟨hids, hview⟩ := Prod.mk.inj hview
  obtain ⟨hpath, hview⟩ := Prod.mk.inj hview
  refine ⟨p, hp, hview, load_of_persist ?_ hp ?_ ?_ ?_ (fun _ => ⟨rfl, rfl⟩)⟩
  · intro e he
    simp only [twoSecretsRun, oneSnapshot, acceptFirst, List.cons_append, List.nil_append,
      List.mem_cons, List.not_mem_nil, or_false] at he
    rcases he with rfl | rfl | rfl | rfl | rfl <;> trivial
  · rw [hpath]
    exact List.cons_ne_nil _ _
  · intro E hE
    have hid : E.id ∈ p.store.extSecrets.map (·.id) := List.mem_map_of_mem hE
    rw [hids, List.mem_pair] at hid
    omega
  · unfold PersistIo.AnyCallFails PersistIo.SetupFails
    rw [hpath]
    have hsetup : ¬ (extMkdirsForFile PersistIo.allOk.mkdir [115] < 0) := by decide
    simp [PersistIo.allOk] at hsetup ⊢
    exact ⟨hsetup, by decide⟩

end MtprotoProxy
