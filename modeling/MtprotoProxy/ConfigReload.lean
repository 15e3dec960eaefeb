/-
# Reloading the configuration

`load_config` of `common/parse-config.c`, `clear_config` and `do_reload_config` of
`mtproto/mtproto-config.c`, and the jobs that free targets without references.

Main result:

* `reload_keeps_refs` — after every run of reloads, the reference count of a target is the
  number of its places in the current configuration; a reload that fails leaves the current
  configuration alone; a target that drops out of it is released once, any other never.

The applying pass adds its references before `clear_config` drops those of the old
configuration, so that what both share never falls to zero in between.
-/
import MtprotoProxy.ConfigParse
import MtprotoProxy.Runs

namespace MtprotoProxy

open CLib

/-! ## The reload -/

/-- What is found of the configuration file; `read` may fail after `open`. -/
inductive FileRead where
  | cannotOpen
  | opened (text : Option Bytes)

/-- `MAX_CONFIG_SIZE`. -/
def maxConfigSize : ℕ := 16 * 2 ^ 20

/-- The buffer of the parser, the two configurations and the targets.  `buff` is `none` as long
as there is no text that may be parsed. -/
structure ConfigState where
  curConf : MfConfig
  nextConf : MfConfig
  buff : Option Bytes
  tgts : ConnTargets

/-- The state at the start of the program. -/
def ConfigState.start : ConfigState := ⟨.zero, .zero, none, .empty⟩

/-- `load_config` on an open file: the buffer afterwards, and whether it succeeds. -/
def loadConfig (text : Option Bytes) : Option Bytes × Bool :=
  match text with
  | none => (none, false)
  | some text => (some (text.take (maxConfigSize + 1)), text.length ≤ maxConfigSize)

/-- `clear_mf_cluster`. -/
def clearMfCluster (c : MfCluster) : MfCluster :=
  { c with
    clusterTargets := none
    targetsNum := 0
    writeTargetsNum := 0
    targetsAllocated := 0
    flags := 0 }

/-- The targets of a configuration, one entry for each place. -/
def MfConfig.entries (mc : MfConfig) : List (Option ℕ) :=
  (List.range mc.totTargets).map mc.targets

/-- What `clear_config` leaves of a configuration. -/
def MfConfig.cleared (mc : MfConfig) : MfConfig :=
  { mc with
    totTargets := 0
    authClusters := 0
    totClusters := 0
    targets := fun j => if j < mc.totTargets then none else mc.targets j
    authCluster := fun i =>
      if i < mc.authClusters then clearMfCluster (mc.authCluster i) else mc.authCluster i }

/-- `clear_config` with `do_destroy_targets`: the targets that were released, the configuration
and the targets afterwards; `none` when an assertion of `destroy_target` fails. -/
def clearConfig (mc : MfConfig) (tgts : ConnTargets) :
    Option (List ℕ × MfConfig × ConnTargets) :=
  (destroyTargets tgts mc.entries).map (fun r => (r.1, mc.cleared, r.2))

/-- How `do_reload_config` ends: it returns, with the targets it has released; it calls `exit`;
an assertion of `create_target`, or of `destroy_target`, fails; it is called without the flag
`4`, or without a text in the buffer. -/
inductive ReloadResult where
  | returned (res : ℤ) (s : ConfigState) (released : List ℕ)
  | exited
  | createFailed
  | destroyFailed
  | badCall

/-- `do_reload_config` behind the first pass: the applying pass, the change of the
configurations and the clean-up of the old one. -/
def applyConfig (resolve : Bytes → Option CfgHost) (text : Bytes) (s : ConfigState) :
    ReloadResult :=
  match parseConfig resolve true s.nextConf s.tgts text with
  | .error .assertFailed => .createFailed
  | .error _ => .exited
  | .ok p =>
    match clearConfig s.curConf p.tgts with
    | none => .destroyFailed
    | some (released, old, tgts) =>
      .returned 0
        ⟨{ p.mc with configBytes := text.length }, old, some text, tgts⟩ released

/-- `do_reload_config` behind `load_config`: the pass that checks the syntax.  That pass makes
no targets, so that the assertion cannot fail there.  The resolver is asked again in the applying
pass, and may answer otherwise. -/
def checkConfig (checking applying : Bytes → Option CfgHost) (flags : ℕ) (text : Bytes)
    (s : ConfigState) : ReloadResult :=
  match parseConfig checking false s.nextConf s.tgts text with
  | .error (.syntaxError mc _) => .returned (-1) { s with nextConf := mc } []
  | .error _ => .createFailed
  | .ok p =>
    if flags.testBit 5 then .returned 0 { s with nextConf := p.mc } []
    else applyConfig applying text { s with nextConf := p.mc }

/-- `do_reload_config`.  With the flag `16` the text in the buffer is parsed again. -/
def doReloadConfig (checking applying : Bytes → Option CfgHost) (flags : ℕ) (file : FileRead)
    (s : ConfigState) : ReloadResult :=
  if flags.testBit 2 = false then .badCall
  else if flags.testBit 4 then
    match s.buff with
    | none => .badCall
    | some text => checkConfig checking applying flags text s
  else
    match file with
    | .cannotOpen => .returned (-1) s []
    | .opened read =>
      match loadConfig read with
      | (some text, true) =>
        checkConfig checking applying flags text { s with buff := some text }
      | (buff, _) => .returned (-2) { s with buff := buff } []

/-- What happens between two looks at the configuration: a reload, with the answers of the
resolver in either pass, or the job of a target without connections that frees it. -/
inductive ConfigEvent where
  | reload (checking applying : Bytes → Option CfgHost) (flags : ℕ) (file : FileRead)
  | freeTarget (t : ℕ)

/-- One step of the program; `none` when it ends. -/
def configStep (s : ConfigState) : ConfigEvent → Option ConfigState
  | .reload checking applying flags file =>
    match doReloadConfig checking applying flags file s with
    | .returned _ s' _ => some s'
    | _ => none
  | .freeTarget t => (freeTarget s.tgts t).map (fun T => { s with tgts := T })

/-! ## References of the applying pass -/

/-- The number of places of a target in a configuration. -/
def occurrences (mc : MfConfig) (t : ℕ) : ℕ := mc.entries.count (some t)

/-- Every place of the configuration holds a target. -/
def MfConfig.Full (mc : MfConfig) : Prop := ∀ e ∈ mc.entries, e ≠ none

/-- The references that the parser has taken so far, beside those that were `held` before. -/
structure PassRefs (held : ℕ → ℕ) (s : ParseState) : Prop where
  full : s.mc.Full
  refs : RefsCount s.tgts (fun t => held t + occurrences s.mc t)

variable {resolve : Bytes → Option CfgHost}

/-- What the parser preserves at every directive it preserves over the whole text. -/
theorem parseLoop_preserves {apply : Bool}
    {P : ParseState → Prop} (hcur : ∀ s cur, P s → P { s with cur := cur })
    (hdir : ∀ lex s s', P s → parseDirective resolve apply lex s = .ok s' → P s') {n : ℕ}
    {s s' : ParseState} (h : P s) (hok : parseLoop resolve apply n s = .ok s') : P s' := by
  induction n generalizing s with
  | zero => simp [parseLoop] at hok
  | succ n ih =>
    rw [parseLoop] at hok
    split_ifs at hok
    · rw [← Except.ok.inj hok]
      exact hcur s _ h
    · rw [← Except.ok.inj hok]
      exact hcur s _ h
    · cases hst : parseStatement resolve apply (cfgGetlexExt (cfgSkipspc s.cur)).1
          { s with cur := (cfgGetlexExt (cfgSkipspc s.cur)).2 } with
      | error e => simp [hst] at hok
      | ok t =>
        simp only [hst] at hok
        refine ih ?_ hok
        unfold parseStatement syntaxStop at hst
        cases hd : parseDirective resolve apply (cfgGetlexExt (cfgSkipspc s.cur)).1
            { s with cur := (cfgGetlexExt (cfgSkipspc s.cur)).2 } with
        | error e => simp [hd] at hst
        | ok u =>
          simp only [hd] at hst
          split_ifs at hst
          rw [← Except.ok.inj hst]
          exact hcur u _ (hdir _ _ _ (hcur s _ h) hd)

/-- One place more. -/
theorem entries_take (s : ParseState) (source : ConnTargetInfo) (cur : Bytes)
    (r : ℕ × ConnTargets) :
    ((s.take r).count source cur).mc.entries = s.mc.entries ++ [some r.1] := by
  unfold MfConfig.entries ParseState.count ParseState.take
  dsimp only
  rw [List.range_succ, List.map_append, List.map_singleton, Function.update_self]
  congr 1
  apply List.map_congr_left
  intro j hj
  rw [Function.update_of_ne]
  have := List.mem_range.mp hj
  omega

/-- **A target is read**: one reference more for its place. -/
theorem PassRefs.port {held : ℕ → ℕ}
    {s s' : ParseState} {ptr : ℕ} (h : PassRefs held s)
    (hok : cfgParseServerPort resolve true s = .ok (ptr, s')) : PassRefs held s' := by
  obtain ⟨-, -, a, a6, port, cur, t, -, hmake, rfl⟩ := cfgParseServerPort_ok.mp hok
  rw [makeTarget, if_pos rfl, Option.map_eq_some_iff] at hmake
  obtain ⟨r, hc, rfl⟩ := hmake
  have hentries := entries_take s (s.mc.cfgCt a a6 port) cur r
  constructor
  · intro e he
    rw [hentries, List.mem_append, List.mem_singleton] at he
    rcases he with he | rfl
    · exact h.full e he
    · exact Option.some_ne_none _
  · have hrefs := createTarget_refs h.refs hc
    have hcount : (fun t => held t +
          occurrences ((s.take r).count (s.mc.cfgCt a a6 port) cur).mc t)
        = fun u => held u + occurrences s.mc u + if r.1 = u then 1 else 0 := by
      funext u
      unfold occurrences
      rw [hentries, List.count_append, List.count_singleton, Nat.add_assoc]
      congr 2
      by_cases heq : r.1 = u
      · simp [heq]
      · simp [heq]
    rw [hcount]
    exact hrefs

/-- Only the places of a configuration matter. -/
theorem PassRefs.congr {held : ℕ → ℕ} {s s' : ParseState} (h : PassRefs held s)
    (htgts : s'.tgts = s.tgts) (hentries : s'.mc.entries = s.mc.entries) : PassRefs held s' := by
  constructor
  · intro e he
    rw [hentries] at he
    exact h.full e he
  · unfold occurrences
    rw [htgts, hentries]
    exact h.refs

/-- Cluster bookkeeping changes no places. -/
theorem addToCluster_entries {apply : Bool} {dc : ℤ} {ptr : ℕ} {mc mc' : MfConfig}
    (h : addToCluster apply dc ptr mc = some mc') : mc'.entries = mc.entries := by
  unfold addToCluster at h
  cases hlook : mfClusterLookup mc dc false with
  | none =>
    simp only [hlook, Option.some.injEq] at h
    rw [← h]
    rfl
  | some i =>
    simp only [hlook, Option.ite_none_right_eq_some] at h
    obtain ⟨-, h⟩ := h
    split_ifs at h
    · obtain ⟨c, -, rfl⟩ := Option.map_eq_some_iff.mp h
      rfl
    · rw [Option.some.inj h]

theorem PassRefs.proxy {held : ℕ → ℕ} {dc : ℤ}
    {s s' : ParseState} (h : PassRefs held s) (hok : parseProxy resolve true dc s = .ok s') :
    PassRefs held s' := by
  unfold parseProxy syntaxStop at hok
  dsimp only at hok
  split_ifs at hok
  cases hport : cfgParseServerPort resolve true { s with haveProxy := true } with
  | error e => simp [hport] at hok
  | ok r =>
    obtain ⟨ptr, t⟩ := r
    simp only [hport] at hok
    have hs : PassRefs held { s with haveProxy := true } := h.congr rfl rfl
    have ht : PassRefs held t := hs.port hport
    cases hadd : addToCluster true dc ptr t.mc with
    | none => simp [hadd] at hok
    | some mc =>
      simp only [hadd, Except.ok.injEq] at hok
      rw [← hok]
      exact ht.congr rfl (addToCluster_entries hadd)

/-- **A directive.**  Only `proxy` and `proxy_for` take references. -/
theorem PassRefs.directive {held : ℕ → ℕ} {lex : CfgLex}
    {s s' : ParseState} (h : PassRefs held s)
    (hok : parseDirective resolve true lex s = .ok s') : PassRefs held s' := by
  cases lex
  case proxy => exact h.proxy hok
  case proxyFor =>
    simp only [parseDirective, syntaxStop] at hok
    split_ifs at hok
    have hs : PassRefs held { s with cur := cfgSkspc (cfgGetintSignedZero s.cur).2 } :=
      h.congr rfl rfl
    exact hs.proxy hok
  case timeout =>
    simp only [parseDirective, syntaxStop] at hok
    split_ifs at hok
    rw [← Except.ok.inj hok]
    exact h.congr rfl rfl
  case default =>
    simp only [parseDirective, syntaxStop] at hok
    split_ifs at hok
    rw [← Except.ok.inj hok]
    exact h.congr rfl rfl
  case maxConnections =>
    simp only [parseDirective, syntaxStop] at hok
    split_ifs at hok
    rw [← Except.ok.inj hok]
    exact h.congr rfl rfl
  case minConnections =>
    simp only [parseDirective, syntaxStop] at hok
    split_ifs at hok
    rw [← Except.ok.inj hok]
    exact h.congr rfl rfl
  all_goals simp [parseDirective, syntaxStop] at hok

/-- **The applying pass** takes one reference for each place of the new configuration. -/
theorem parseConfig_refs {held : ℕ → ℕ} {mc : MfConfig}
    {tgts : ConnTargets} {text : Bytes} {p : ParseState} (h : RefsCount tgts held)
    (hok : parseConfig resolve true mc tgts text = .ok p) : PassRefs held p := by
  unfold parseConfig at hok
  cases hloop : parseLoop resolve true (text.length + 1)
      ⟨text, preinitConfig mc, tgts, false, []⟩ with
  | error e => simp [hloop] at hok
  | ok s =>
    simp only [hloop, parseFinish, syntaxStop] at hok
    have hstart : PassRefs held ⟨text, preinitConfig mc, tgts, false, []⟩ := by
      constructor
      · intro e he
        exact absurd he (by simp [MfConfig.entries, preinitConfig])
      · simpa [occurrences, MfConfig.entries, preinitConfig] using h
    have hs : PassRefs held s :=
      parseLoop_preserves (P := PassRefs held) (fun s cur h => h.congr rfl rfl)
        (fun lex s s' h hd => h.directive hd) hstart hloop
    split_ifs at hok
    rw [← Except.ok.inj hok]
    exact hs.congr rfl rfl

/-! ## The clean-up -/

/-- The places of a full configuration are a list of targets. -/
theorem MfConfig.Full.entries_eq {mc : MfConfig} (h : mc.Full) :
    ∃ L : List ℕ, mc.entries = L.map some ∧ ∀ t, L.count t = occurrences mc t := by
  have hmap : ∀ es : List (Option ℕ), (∀ e ∈ es, e ≠ none) → ∃ L : List ℕ, es = L.map some := by
    intro es hes
    induction es with
    | nil => exact ⟨[], rfl⟩
    | cons e es ih =>
      obtain ⟨L, hL⟩ := ih (fun e' he' => hes e' (List.mem_cons_of_mem _ he'))
      obtain ⟨t, ht⟩ := Option.ne_none_iff_exists'.mp (hes e List.mem_cons_self)
      exact ⟨t :: L, by rw [ht, hL, List.map_cons]⟩
  obtain ⟨L, hL⟩ := hmap mc.entries h
  refine ⟨L, hL, ?_⟩
  intro t
  rw [occurrences, hL]
  exact (List.count_map_of_injective L some (Option.some_injective ℕ) t).symm

/-- **The clean-up** drops the references of the old configuration: no assertion fails, and a
target is released once when no other reference is left, else never. -/
theorem clearConfig_refs {mc : MfConfig} {tgts : ConnTargets} {other : ℕ → ℕ} (hfull : mc.Full)
    (h : RefsCount tgts (fun t => occurrences mc t + other t)) :
    ∃ released tgts', clearConfig mc tgts = some (released, mc.cleared, tgts') ∧
      RefsCount tgts' other ∧
      ∀ t, released.count t = if 0 < occurrences mc t ∧ other t = 0 then 1 else 0 := by
  obtain ⟨L, hL, hcount⟩ := hfull.entries_eq
  obtain ⟨released, T', hd, hrefs, hreleased⟩ := destroyTargets_refs (L := L) h (by
    intro t
    rw [hcount t]
    exact Nat.le_add_right _ _)
  refine ⟨released, T', ?_, ?_, ?_⟩
  · rw [clearConfig, hL, hd]
    rfl
  · convert hrefs using 2 with t
    rw [hcount t]
    omega
  · intro t
    rw [hreleased t]
    refine if_congr ?_ rfl rfl
    rw [← List.count_pos_iff, hcount t]
    constructor
    · rintro ⟨hpos, heq⟩
      exact ⟨hpos, by omega⟩
    · rintro ⟨hpos, heq⟩
      exact ⟨hpos, by omega⟩

/-! ## Runs -/

/-- **The invariant**: the references are the places in the current configuration. -/
structure RefsExact (s : ConfigState) : Prop where
  full : s.curConf.Full
  refs : RefsCount s.tgts (occurrences s.curConf)

theorem RefsExact.start : RefsExact .start where
  full := by
    intro e he
    exact absurd he (by simp [ConfigState.start, MfConfig.zero, MfConfig.entries])
  refs := RefsCount.empty

/-- What a reload does to the references: it returns, and when it fails it changes nothing that
matters; else exactly the targets that drop out of the configuration are released. -/
structure ReloadOk (s : ConfigState) (res : ℤ) (s' : ConfigState) (released : List ℕ) : Prop where
  exact : RefsExact s'
  failed : res < 0 → s'.curConf = s.curConf ∧ s'.tgts = s.tgts ∧ released = []
  once : ∀ t, released.count t =
    if 0 < occurrences s.curConf t ∧ occurrences s'.curConf t = 0 then 1 else 0

/-- A reload that keeps the current configuration and the targets. -/
theorem ReloadOk.same {s s' : ConfigState} {res : ℤ} (h : RefsExact s)
    (hcur : s'.curConf = s.curConf) (htgts : s'.tgts = s.tgts) : ReloadOk s res s' [] where
  exact := by
    constructor
    · rw [hcur]
      exact h.full
    · rw [hcur, htgts]
      exact h.refs
  failed := fun _ => ⟨hcur, htgts, rfl⟩
  once := by
    intro t
    rw [hcur, List.count_nil, if_neg]
    omega

/-- How a reload may end: an assertion of `destroy_target` does not fail. -/
inductive ReloadEnds (s : ConfigState) : ReloadResult → Prop
  | badCall : ReloadEnds s .badCall
  | createFailed : ReloadEnds s .createFailed
  | exited : ReloadEnds s .exited
  | returned {res : ℤ} {s' : ConfigState} {released : List ℕ} (h : ReloadOk s res s' released) :
    ReloadEnds s (.returned res s' released)

/-- What stands in the buffer and in the other configuration does not matter. -/
theorem ReloadEnds.of_same {s t : ConfigState} {r : ReloadResult} (h : ReloadEnds t r)
    (hcur : t.curConf = s.curConf) (htgts : t.tgts = s.tgts) : ReloadEnds s r := by
  cases h with
  | badCall => exact .badCall
  | createFailed => exact .createFailed
  | exited => exact .exited
  | returned h =>
    refine .returned ⟨h.exact, fun hneg => ?_, fun u => ?_⟩
    · rw [← hcur, ← htgts]
      exact h.failed hneg
    · rw [← hcur]
      exact h.once u

/-- **The applying part** of a reload.  The program ends when a name fails to resolve there. -/
theorem applyConfig_ends (applying : Bytes → Option CfgHost) (text : Bytes) {s : ConfigState}
    (h : RefsExact s) : ReloadEnds s (applyConfig applying text s) := by
  unfold applyConfig
  cases hq : parseConfig applying true s.nextConf s.tgts text with
  | error e =>
    cases e with
    | assertFailed => exact .createFailed
    | syntaxError mc tgts => exact .exited
    | outOfFuel => exact .exited
  | ok q =>
    have hpass := parseConfig_refs h.refs hq
    obtain ⟨released, tgts', hclear, hrefs, hreleased⟩ := clearConfig_refs h.full hpass.refs
    simp only [hclear]
    refine .returned ⟨⟨hpass.full, hrefs⟩, ?_, hreleased⟩
    intro hneg
    exact absurd hneg (by decide)

/-- With the same answers the second pass does not fail where the first has not. -/
theorem applyConfig_ne_exited {text : Bytes} {s : ConfigState}
    {mc : MfConfig} {tgts : ConnTargets} {p : ParseState}
    (hcheck : parseConfig resolve false mc tgts text = .ok p) :
    applyConfig resolve text s ≠ .exited := by
  unfold applyConfig
  by_cases hassert : parseConfig resolve true s.nextConf s.tgts text = .error .assertFailed
  · rw [hassert]
    simp
  · obtain ⟨q, hq, -, -⟩ :=
      applying_pass_agrees resolve mc s.nextConf tgts s.tgts text p hcheck hassert
    rw [hq]
    cases hclear : clearConfig s.curConf q.tgts with
    | none => simp [hclear]
    | some r => simp [hclear]

/-- **A reload with a text** from a state with exact references. -/
theorem checkConfig_ends (checking applying : Bytes → Option CfgHost) (flags : ℕ) (text : Bytes)
    {s : ConfigState} (h : RefsExact s) :
    ReloadEnds s (checkConfig checking applying flags text s) ∧
      (checking = applying → checkConfig checking applying flags text s ≠ .exited) := by
  unfold checkConfig
  cases hcheck : parseConfig checking false s.nextConf s.tgts text with
  | error e =>
    cases e with
    | syntaxError mc _ => exact ⟨.returned (ReloadOk.same h rfl rfl), by simp⟩
    | assertFailed => exact ⟨.createFailed, by simp⟩
    | outOfFuel => exact absurd hcheck (parseConfig_ne_outOfFuel _ _ _ _ _)
  | ok p =>
    dsimp only
    split_ifs
    · exact ⟨.returned (ReloadOk.same h rfl rfl), by simp⟩
    · have hnext : RefsExact { s with nextConf := p.mc } := ⟨h.full, h.refs⟩
      refine ⟨(applyConfig_ends applying text hnext).of_same rfl rfl, ?_⟩
      rintro rfl
      exact applyConfig_ne_exited hcheck

/-- **A reload** keeps the references exact, however it ends. -/
theorem doReloadConfig_ends (checking applying : Bytes → Option CfgHost) (flags : ℕ)
    (file : FileRead) {s : ConfigState} (h : RefsExact s) :
    ReloadEnds s (doReloadConfig checking applying flags file s) ∧
      (checking = applying → doReloadConfig checking applying flags file s ≠ .exited) := by
  unfold doReloadConfig
  split_ifs
  · exact ⟨.badCall, by simp⟩
  · cases s.buff with
    | none => exact ⟨.badCall, by simp⟩
    | some text => exact checkConfig_ends checking applying flags text h
  · cases file with
    | cannotOpen => exact ⟨.returned (ReloadOk.same h rfl rfl), by simp⟩
    | opened read =>
      dsimp only
      cases hload : loadConfig read with
      | mk buff ok =>
        have hsame : RefsExact { s with buff := buff } := ⟨h.full, h.refs⟩
        cases buff with
        | none => exact ⟨.returned (ReloadOk.same h rfl rfl), by simp⟩
        | some text =>
          cases ok with
          | false => exact ⟨.returned (ReloadOk.same h rfl rfl), by simp⟩
          | true =>
            obtain ⟨hends, hexit⟩ := checkConfig_ends checking applying flags text hsame
            exact ⟨hends.of_same rfl rfl, hexit⟩

/-- **One step** keeps the references exact. -/
theorem RefsExact.step {s s' : ConfigState} {e : ConfigEvent} (h : RefsExact s)
    (hs : configStep s e = some s') : RefsExact s' := by
  cases e with
  | reload checking applying flags file =>
    simp only [configStep] at hs
    have hends := (doReloadConfig_ends checking applying flags file h).1
    generalize doReloadConfig checking applying flags file s = r at hends hs
    cases hends with
    | badCall => simp at hs
    | createFailed => simp at hs
    | exited => simp at hs
    | returned hreload =>
      rw [← Option.some.inj hs]
      exact hreload.exact
  | freeTarget t =>
    obtain ⟨T, hT, rfl⟩ := Option.map_eq_some_iff.mp hs
    exact ⟨h.full, (freeTarget_refs h.refs hT).2⟩

/-- **Reloads keep the references exact.**  In every state of every run, a target has as many
references as places in the current configuration, a target in the configuration is in the
table, and one that is freed is not in the configuration.  From there every reload keeps the
references exact, leaves everything as it was when it fails, and releases exactly the targets
that drop out, each once; the program does not end in `destroy_target`, and it ends in `exit` only
when a name is not resolved the same way twice. -/
theorem reload_keeps_refs (es : List ConfigEvent) (s : ConfigState)
    (hrun : Runs.run configStep .start es = some s) :
    (∀ t ∈ s.tgts.hTarget, (s.tgts.info t).globalRefcnt = occurrences s.curConf t) ∧
      (∀ t, 0 < occurrences s.curConf t → t ∈ s.tgts.hTarget) ∧
      (∀ t T, freeTarget s.tgts t = some T → occurrences s.curConf t = 0) ∧
      ∀ checking applying flags file,
        (checking = applying → doReloadConfig checking applying flags file s ≠ .exited) ∧
        doReloadConfig checking applying flags file s ≠ .destroyFailed ∧
        ∀ res s' released,
          doReloadConfig checking applying flags file s = .returned res s' released →
          (res < 0 → s'.curConf = s.curConf ∧ s'.tgts = s.tgts) ∧
          (∀ t ∈ s'.tgts.hTarget, (s'.tgts.info t).globalRefcnt = occurrences s'.curConf t) ∧
          ∀ t, released.count t =
            if 0 < occurrences s.curConf t ∧ occurrences s'.curConf t = 0 then 1 else 0 := by
  have hexact : RefsExact s := by
    refine Runs.run_invariant (C := fun _ _ => True) (P := RefsExact) ?_ RefsExact.start
      (Runs.along_of_always (fun _ _ _ => trivial)) hrun
    exact fun s e s' h _ hs => h.step hs
  refine ⟨hexact.refs.count, fun t ht => hexact.refs.mem_of_pos ht,
    fun t T hT => (freeTarget_refs hexact.refs hT).1, ?_⟩
  intro checking applying flags file
  obtain ⟨hends, hexit⟩ := doReloadConfig_ends checking applying flags file hexact
  refine ⟨hexit, ?_, ?_⟩
  · intro hfail
    rw [hfail] at hends
    cases hends
  · intro res s' released hret
    rw [hret] at hends
    cases hends with
    | returned h =>
      exact ⟨fun hneg => ⟨(h.failed hneg).1, (h.failed hneg).2.1⟩, h.exact.refs.count, h.once⟩

/-- One of the targets of `twoClusters`. -/
def oneCluster : Bytes := "proxy 10.0.0.2:443;\n".toUTF8.toList

/-- A configuration, and a text with an error; then a smaller one releases the other target. -/
theorem reload_keeps_refs_twoClusters :
    ∃ s s' released, Runs.run configStep .start
        [.reload twoHosts twoHosts 4 (.opened (some twoClusters)),
          .reload twoHosts twoHosts 4 (.opened (some "proxy\n10.0.0.1:443;".toUTF8.toList))]
        = some s ∧
      (∀ t ∈ s.tgts.hTarget, (s.tgts.info t).globalRefcnt = occurrences s.curConf t) ∧
      occurrences s.curConf 0 = 1 ∧ occurrences s.curConf 1 = 2 ∧
      doReloadConfig twoHosts twoHosts 4 (.opened (some oneCluster)) s = .returned 0 s' released ∧
      released.count 0 = 1 ∧ released.count 1 = 0 := by
  have hrun : (Runs.run configStep .start
      [.reload twoHosts twoHosts 4 (.opened (some twoClusters)),
        .reload twoHosts twoHosts 4 (.opened (some "proxy\n10.0.0.1:443;".toUTF8.toList))]).map
      (fun s => (occurrences s.curConf 0, occurrences s.curConf 1,
        match doReloadConfig twoHosts twoHosts 4 (.opened (some oneCluster)) s with
        | .returned res s' _ => some (res, occurrences s'.curConf 0, occurrences s'.curConf 1)
        | _ => none)) = some (1, 2, some (0, 0, 1)) := by decide +kernel
  obtain ⟨s, hs, hvalues⟩ := Option.map_eq_some_iff.mp hrun
  simp only [Prod.mk.injEq] at hvalues
  obtain ⟨hzero, hone, hreload⟩ := hvalues
  obtain ⟨hrefs, -, -, hall⟩ := reload_keeps_refs _ s hs
  obtain ⟨-, -, hends⟩ := hall twoHosts twoHosts 4 (.opened (some oneCluster))
  cases hret : doReloadConfig twoHosts twoHosts 4 (.opened (some oneCluster)) s with
  | returned res s' released =>
    simp only [hret, Option.some.injEq, Prod.mk.injEq] at hreload
    obtain ⟨rfl, hzero', hone'⟩ := hreload
    obtain ⟨-, -, honce⟩ := hends 0 s' released hret
    refine ⟨s, s', released, hs, hrefs, hzero, hone, hret, ?_, ?_⟩
    · rw [honce 0, hzero, hzero']
      rfl
    · rw [honce 1, hone, hone']
      rfl
  | _ => simp [hret] at hreload

end MtprotoProxy
