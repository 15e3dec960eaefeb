/-
# Two passes over the configuration

`parse_config` of `mtproto/mtproto-config.c`.  The parser runs twice over one buffer: first only
to check the syntax, then to make the targets as well; the flag `apply` says which.

Main result:

* `applying_pass_agrees` — when the first pass succeeds, and no target creation fails in the
  second, the second pass succeeds with the same configuration, and the slices of its clusters
  are a partition of its targets.

The two passes are compared directive by directive: `PassAgree` holds between their states, and
`Applied` says what the second pass has built so far.

`double timeout` is a rational number; it only takes thousandths of whole numbers.
-/
import MtprotoProxy.ConfigLexer
import MtprotoProxy.ConnTargets

namespace MtprotoProxy

open CLib

/-- `MAX_CFG_CLUSTERS`. -/
def maxCfgClusters : ℕ := 1024

/-- `MAX_CFG_TARGETS`. -/
def maxCfgTargets : ℕ := 4096

/-- `struct mf_cluster`.  `clusterTargets` is an index into the targets of the configuration. -/
structure MfCluster where
  targetsNum : ℕ
  writeTargetsNum : ℕ
  targetsAllocated : ℕ
  flags : ℕ
  clusterId : ℤ
  clusterTargets : Option ℕ

/-- `struct mf_config`.  The entries of the arrays behind `totTargets` and `authClusters` are
what earlier passes have left there; `defaultCluster` is an index into `authCluster`. -/
structure MfConfig where
  totTargets : ℕ
  authClusters : ℕ
  defaultClusterId : ℤ
  minConnections : ℤ
  maxConnections : ℤ
  timeout : ℚ
  configBytes : ℕ
  totClusters : ℤ
  haveProxy : Bool
  defaultCluster : Option ℕ
  targets : ℕ → Option ℕ
  authCluster : ℕ → MfCluster

/-- The zeroes of a static `struct mf_config`. -/
def MfConfig.zero : MfConfig :=
  ⟨0, 0, 0, 0, 0, 0, 0, 0, false, none, fun _ => none, fun _ => ⟨0, 0, 0, 0, 0, none⟩⟩

/-- The address in the `struct hostent` of a resolved name. -/
inductive CfgHost where
  | inet (addr : UInt32)
  | inet6 (addr : Bytes)
  | other

/-- What a run of the parser works on.  `specs` is the history of `default_cfg_ct`: the target
of every directive so far. -/
structure ParseState where
  cur : Bytes
  mc : MfConfig
  tgts : ConnTargets
  haveProxy : Bool
  specs : List ConnTargetInfo

/-- Why the parser stops: `Syntax`, with what it has changed by then; a failed assertion of
`create_target`; `outOfFuel` does not occur (`parseConfig_ne_outOfFuel`). -/
inductive ParseStop where
  | syntaxError (mc : MfConfig) (tgts : ConnTargets)
  | assertFailed
  | outOfFuel

/-- `Syntax (…)`. -/
def syntaxStop (s : ParseState) : Except ParseStop ParseState :=
  .error (.syntaxError s.mc s.tgts)

/-! ## One target -/

/-- The host and the port of `cfg_parse_server_port`; `none` after a syntax error. -/
def cfgGethostPort (resolve : Bytes → Option CfgHost) (s : Bytes) :
    Option (UInt32 × Bytes × ℤ × Bytes) :=
  let s := cfgSkspc s
  let l := cfgWordLength s
  if l = 0 ∨ 63 < l then none
  else
    let addr : Option (UInt32 × Bytes) :=
      match resolve (s.take l) with
      | some (.inet a) => some (a, List.replicate 16 0)
      | some (.inet6 a) => some (0, a)
      | _ => none
    match addr, cfgGetlexExt (s.drop l) with
    | some (a, a6), (.colon, t) =>
      let port := wrap32 (cfgGetint t).1.toInt
      if port = 0 ∨ port ≤ 0 ∨ 0x10000 ≤ port then none else some (a, a6, port, (cfgGetint t).2)
    | _, _ => none

/-- `default_cfg_ct` for an address and a port. -/
def MfConfig.cfgCt (mc : MfConfig) (a : UInt32) (a6 : Bytes) (port : ℤ) : ConnTargetInfo :=
  ⟨a, a6, port, mc.minConnections, mc.maxConnections, 0⟩

/-- The target that was made is put into the configuration. -/
def ParseState.take (s : ParseState) (r : ℕ × ConnTargets) : ParseState :=
  { s with
    tgts := r.2
    mc := { s.mc with targets := Function.update s.mc.targets s.mc.totTargets (some r.1) } }

/-- The second pass makes the target; `none` when `create_target` fails. -/
def makeTarget (apply : Bool) (source : ConnTargetInfo) (s : ParseState) : Option ParseState :=
  if apply then (createTarget s.tgts source).map s.take else some s

/-- The target is counted. -/
def ParseState.count (s : ParseState) (source : ConnTargetInfo) (cur : Bytes) : ParseState :=
  { s with
    cur := cur
    specs := s.specs ++ [source]
    mc := { s.mc with totTargets := s.mc.totTargets + 1 } }

/-- `cfg_parse_server_port`: the index of the new target, and the state with it. -/
def cfgParseServerPort (resolve : Bytes → Option CfgHost) (apply : Bool) (s : ParseState) :
    Except ParseStop (ℕ × ParseState) :=
  if maxCfgTargets ≤ s.mc.totTargets then .error (.syntaxError s.mc s.tgts)
  else
    match cfgGethostPort resolve s.cur with
    | none => .error (.syntaxError s.mc s.tgts)
    | some (a, a6, port, cur) =>
      match makeTarget apply (s.mc.cfgCt a a6 port) s with
      | none => .error .assertFailed
      | some s' => .ok (s.mc.totTargets, s'.count (s.mc.cfgCt a a6 port) cur)

/-! ## Clusters -/

/-- `mf_cluster_lookup`. -/
def mfClusterLookup (mc : MfConfig) (clusterId : ℤ) (force : Bool) : Option ℕ :=
  match (List.range mc.authClusters).find? (fun i => (mc.authCluster i).clusterId == clusterId) with
  | some i => some i
  | none => if force then mc.defaultCluster else none

/-- `init_old_mf_cluster`, with the flags and the number of targets of its only call. -/
def initOldMfCluster (targets : ℕ) (clusterId : ℤ) : MfCluster :=
  ⟨1, 1, 0, 1, clusterId, some targets⟩

/-- `extend_old_mf_cluster`; `none` when it returns `0`. -/
def extendOldMfCluster (c : MfCluster) (target : ℕ) (clusterId : ℤ) : Option MfCluster :=
  if c.clusterTargets.map (· + c.targetsNum) ≠ some target then none
  else if c.clusterId ≠ clusterId then none
  else some { c with targetsNum := c.targetsNum + 1, writeTargetsNum := c.targetsNum + 1 }

/-- The cluster bookkeeping of a `proxy` directive: the target becomes the first one of a new
cluster, or one more of the last cluster; `none` after a syntax error. -/
def addToCluster (apply : Bool) (targetDc : ℤ) (ptr : ℕ) (mc : MfConfig) : Option MfConfig :=
  match mfClusterLookup mc targetDc false with
  | none =>
    some { mc with
      authClusters := mc.authClusters + 1
      totClusters := if apply then mc.totClusters + 1 else mc.totClusters
      authCluster := Function.update mc.authCluster mc.authClusters
        (if apply then initOldMfCluster ptr targetDc
         else { mc.authCluster mc.authClusters with clusterId := targetDc }) }
  | some i =>
    if i + 1 = mc.authClusters then
      if apply then
        (extendOldMfCluster (mc.authCluster i) ptr targetDc).map
          (fun c => { mc with authCluster := Function.update mc.authCluster i c })
      else some mc
    else none

/-! ## Directives -/

/-- `case 'y'`. -/
def parseProxy (resolve : Bytes → Option CfgHost) (apply : Bool) (targetDc : ℤ)
    (s : ParseState) : Except ParseStop ParseState :=
  let s := { s with haveProxy := true }
  if maxCfgClusters ≤ s.mc.authClusters then syntaxStop s
  else
    match cfgParseServerPort resolve apply s with
    | .error e => .error e
    | .ok (ptr, s) =>
      match addToCluster apply targetDc ptr s.mc with
      | none => syntaxStop s
      | some mc => .ok { s with mc := mc }

/-- The `switch` of `parse_config`, behind its lexeme. -/
def parseDirective (resolve : Bytes → Option CfgHost) (apply : Bool) (lex : CfgLex)
    (s : ParseState) : Except ParseStop ParseState :=
  match lex with
  | .timeout =>
    let x := (cfgGetint s.cur).1.toInt
    if x < 10 ∨ 30000 < x then syntaxStop { s with mc := { s.mc with timeout := x } }
    else .ok { s with cur := (cfgGetint s.cur).2, mc := { s.mc with timeout := x / 1000 } }
  | .default =>
    let x := (cfgGetintSignedZero s.cur).1.toInt
    if x < -0x8000 ∨ 0x8000 ≤ x then syntaxStop s
    else .ok { s with
      cur := (cfgGetintSignedZero s.cur).2
      mc := { s.mc with defaultClusterId := x } }
  | .proxyFor =>
    let x := (cfgGetintSignedZero s.cur).1.toInt
    let cur := (cfgGetintSignedZero s.cur).2
    if x < -0x8000 ∨ 0x8000 ≤ x then syntaxStop s
    else if cfgPeek cur ≠ 32 ∧ cfgPeek cur ≠ 9 then syntaxStop s
    else parseProxy resolve apply x { s with cur := cfgSkspc cur }
  | .proxy => parseProxy resolve apply 0 s
  | .maxConnections =>
    let x := wrap32 (cfgGetint s.cur).1.toInt
    let mc := { s.mc with maxConnections := x }
    if x < s.mc.minConnections ∨ 1000 < x then syntaxStop { s with mc := mc }
    else .ok { s with cur := (cfgGetint s.cur).2, mc := mc }
  | .minConnections =>
    let x := wrap32 (cfgGetint s.cur).1.toInt
    let mc := { s.mc with minConnections := x }
    if x < 1 ∨ s.mc.maxConnections < x then syntaxStop { s with mc := mc }
    else .ok { s with cur := (cfgGetint s.cur).2, mc := mc }
  | _ => syntaxStop s

/-- A directive and its semicolon. -/
def parseStatement (resolve : Bytes → Option CfgHost) (apply : Bool) (lex : CfgLex)
    (s : ParseState) : Except ParseStop ParseState :=
  match parseDirective resolve apply lex s with
  | .error e => .error e
  | .ok s =>
    if (cfgGetlexExt s.cur).1 = .semicolon then .ok { s with cur := (cfgGetlexExt s.cur).2 }
    else syntaxStop s

/-- The loop of `parse_config`; the fuel bounds the number of statements. -/
def parseLoop (resolve : Bytes → Option CfgHost) (apply : Bool) :
    ℕ → ParseState → Except ParseStop ParseState
  | 0, _ => .error .outOfFuel
  | n + 1, s =>
    let cur := cfgSkipspc s.cur
    if cfgPeek cur = 0 then .ok { s with cur := cur }
    else if (cfgGetlexExt cur).1 = .eof then .ok { s with cur := (cfgGetlexExt cur).2 }
    else
      match parseStatement resolve apply (cfgGetlexExt cur).1
          { s with cur := (cfgGetlexExt cur).2 } with
      | .error e => .error e
      | .ok s => parseLoop resolve apply n s

/-- `preinit_config`. -/
def preinitConfig (mc : MfConfig) : MfConfig :=
  { mc with
    totTargets := 0
    authClusters := 0
    minConnections := 4
    maxConnections := 8
    timeout := 3 / 10
    defaultClusterId := 0
    defaultCluster := none }

/-- The end of `parse_config`, behind the loop. -/
def parseFinish (s : ParseState) : Except ParseStop ParseState :=
  if s.haveProxy = false then syntaxStop s
  else
    let mc := { s.mc with haveProxy := s.haveProxy }
    if mc.authClusters = 0 then syntaxStop { s with mc := mc }
    else .ok { s with mc := { mc with
      defaultCluster := mfClusterLookup mc mc.defaultClusterId false } }

/-- `parse_config` on the text in the buffer. -/
def parseConfig (resolve : Bytes → Option CfgHost) (apply : Bool) (mc : MfConfig)
    (tgts : ConnTargets) (text : Bytes) : Except ParseStop ParseState :=
  match parseLoop resolve apply (text.length + 1) ⟨text, preinitConfig mc, tgts, false, []⟩ with
  | .error e => .error e
  | .ok s => parseFinish s

/-! ## The parser ends -/

variable {resolve : Bytes → Option CfgHost}

theorem cfgGethostPort_length {s cur : Bytes} {a : UInt32}
    {a6 : Bytes} {port : ℤ} (h : cfgGethostPort resolve s = some (a, a6, port, cur)) :
    cur.length ≤ s.length := by
  unfold cfgGethostPort at h
  dsimp only at h
  rw [Option.ite_none_left_eq_some] at h
  obtain ⟨-, h⟩ := h
  have hskip := length_cfgSkspc s
  have hlex := length_cfgGetlexExt ((cfgSkspc s).drop (cfgWordLength (cfgSkspc s)))
  rw [List.length_drop] at hlex
  split at h
  · rename_i b b6 t _ hcolon
    rw [hcolon] at hlex
    rw [Option.ite_none_left_eq_some] at h
    obtain ⟨-, h⟩ := h
    have hint := length_cfgGetint t
    simp only [Option.some.injEq, Prod.mk.injEq] at h
    rw [← h.2.2.2]
    dsimp only at hlex
    omega
  · simp at h

/-- What `cfg_parse_server_port` gives, in either pass. -/
theorem cfgParseServerPort_ok {apply : Bool}
    {s s' : ParseState} {ptr : ℕ} :
    cfgParseServerPort resolve apply s = .ok (ptr, s') ↔
      s.mc.totTargets < maxCfgTargets ∧ ptr = s.mc.totTargets ∧
        ∃ a a6 port cur t, cfgGethostPort resolve s.cur = some (a, a6, port, cur) ∧
          makeTarget apply (s.mc.cfgCt a a6 port) s = some t ∧
          s' = t.count (s.mc.cfgCt a a6 port) cur := by
  unfold cfgParseServerPort
  by_cases hmax : maxCfgTargets ≤ s.mc.totTargets
  · simp [hmax]
  · rw [if_neg hmax]
    cases cfgGethostPort resolve s.cur with
    | none => simp
    | some r =>
      obtain ⟨a, a6, port, cur⟩ := r
      dsimp only
      cases hmake : makeTarget apply (s.mc.cfgCt a a6 port) s with
      | none =>
        constructor
        · intro h
          simp at h
        · rintro ⟨-, -, b, b6, q, c, t, hhost, ht, -⟩
          simp only [Option.some.injEq, Prod.mk.injEq] at hhost
          obtain ⟨rfl, rfl, rfl, rfl⟩ := hhost
          simp [hmake] at ht
      | some t =>
        constructor
        · intro h
          simp only [Except.ok.injEq, Prod.mk.injEq] at h
          exact ⟨by omega, h.1.symm, a, a6, port, cur, t, rfl, hmake, h.2.symm⟩
        · rintro ⟨-, rfl, b, b6, q, c, t', hhost, ht, rfl⟩
          simp only [Option.some.injEq, Prod.mk.injEq] at hhost
          obtain ⟨rfl, rfl, rfl, rfl⟩ := hhost
          rw [hmake] at ht
          rw [Option.some.inj ht]

theorem cfgParseServerPort_length {apply : Bool}
    {s s' : ParseState} {ptr : ℕ} (h : cfgParseServerPort resolve apply s = .ok (ptr, s')) :
    s'.cur.length ≤ s.cur.length := by
  obtain ⟨-, -, a, a6, port, cur, t, hhost, -, rfl⟩ := (cfgParseServerPort_ok).mp h
  exact cfgGethostPort_length hhost

theorem cfgParseServerPort_ne_outOfFuel {apply : Bool}
    {s : ParseState} : cfgParseServerPort resolve apply s ≠ .error .outOfFuel := by
  unfold cfgParseServerPort
  split_ifs
  · simp
  · split
    · simp
    · split
      · simp
      · simp

theorem parseProxy_length {apply : Bool} {dc : ℤ}
    {s s' : ParseState} (h : parseProxy resolve apply dc s = .ok s') :
    s'.cur.length ≤ s.cur.length := by
  unfold parseProxy syntaxStop at h
  dsimp only at h
  split_ifs at h
  cases hport : cfgParseServerPort resolve apply { s with haveProxy := true } with
  | error e => simp [hport] at h
  | ok r =>
    obtain ⟨ptr, t⟩ := r
    have hlen := cfgParseServerPort_length hport
    simp only [hport] at h
    cases hadd : addToCluster apply dc ptr t.mc with
    | none => simp [hadd] at h
    | some mc =>
      simp only [hadd, Except.ok.injEq] at h
      rw [← h]
      exact hlen

/-- A directive does not go back in the text. -/
theorem parseDirective_length {apply : Bool} {lex : CfgLex}
    {s s' : ParseState} (h : parseDirective resolve apply lex s = .ok s') :
    s'.cur.length ≤ s.cur.length := by
  have hint := length_cfgGetint s.cur
  have hsigned := length_cfgGetintSignedZero s.cur
  cases lex
  case timeout =>
    simp only [parseDirective, syntaxStop] at h
    split_ifs at h
    rw [← Except.ok.inj h]
    exact hint
  case default =>
    simp only [parseDirective, syntaxStop] at h
    split_ifs at h
    rw [← Except.ok.inj h]
    exact hsigned
  case proxyFor =>
    simp only [parseDirective, syntaxStop] at h
    split_ifs at h
    exact (parseProxy_length h).trans ((length_cfgSkspc _).trans hsigned)
  case proxy => exact parseProxy_length h
  case maxConnections =>
    simp only [parseDirective, syntaxStop] at h
    split_ifs at h
    rw [← Except.ok.inj h]
    exact hint
  case minConnections =>
    simp only [parseDirective, syntaxStop] at h
    split_ifs at h
    rw [← Except.ok.inj h]
    exact hint
  all_goals simp [parseDirective, syntaxStop] at h

theorem parseProxy_ne_outOfFuel {apply : Bool} {dc : ℤ}
    {s : ParseState} : parseProxy resolve apply dc s ≠ .error .outOfFuel := by
  unfold parseProxy syntaxStop
  dsimp only
  split_ifs
  · simp
  · cases hport : cfgParseServerPort resolve apply { s with haveProxy := true } with
    | error e =>
      simp only [ne_eq, Except.error.injEq]
      rintro rfl
      exact cfgParseServerPort_ne_outOfFuel hport
    | ok r =>
      dsimp only
      cases addToCluster apply dc r.1 r.2.mc <;> simp

/-- No directive runs out of fuel. -/
theorem parseDirective_ne_outOfFuel {apply : Bool}
    {lex : CfgLex} {s : ParseState} : parseDirective resolve apply lex s ≠ .error .outOfFuel := by
  cases lex
  case proxy => exact parseProxy_ne_outOfFuel
  case proxyFor =>
    simp only [parseDirective, syntaxStop]
    split_ifs
    · simp
    · simp
    · exact parseProxy_ne_outOfFuel
  all_goals
    simp only [parseDirective, syntaxStop]
    try split_ifs
    all_goals simp

/-- A statement takes a byte of the text. -/
theorem parseStatement_length {apply : Bool} {lex : CfgLex}
    {s s' : ParseState} (h : parseStatement resolve apply lex s = .ok s') :
    s'.cur.length < s.cur.length := by
  unfold parseStatement syntaxStop at h
  cases hdir : parseDirective resolve apply lex s with
  | error e => simp [hdir] at h
  | ok t =>
    simp only [hdir] at h
    split_ifs at h with hsemi
    rw [← Except.ok.inj h]
    exact (cfgGetlexExt_lt (Prod.ext hsemi rfl)).trans_le (parseDirective_length hdir)

theorem parseStatement_ne_outOfFuel {apply : Bool}
    {lex : CfgLex} {s : ParseState} : parseStatement resolve apply lex s ≠ .error .outOfFuel := by
  unfold parseStatement syntaxStop
  cases hdir : parseDirective resolve apply lex s with
  | error e =>
    simp only [ne_eq, Except.error.injEq]
    rintro rfl
    exact parseDirective_ne_outOfFuel hdir
  | ok t =>
    simp only
    split_ifs <;> simp

/-- Every statement takes a byte, so that the fuel lasts. -/
theorem parseLoop_ne_outOfFuel {apply : Bool} {n : ℕ}
    {s : ParseState} (h : s.cur.length < n) : parseLoop resolve apply n s ≠ .error .outOfFuel := by
  induction n generalizing s with
  | zero => omega
  | succ n ih =>
    rw [parseLoop]
    split_ifs
    · simp
    · simp
    · have hlex := length_cfgGetlexExt (cfgSkipspc s.cur)
      have hskip := length_cfgSkipspc s.cur
      cases hst : parseStatement resolve apply (cfgGetlexExt (cfgSkipspc s.cur)).1
          { s with cur := (cfgGetlexExt (cfgSkipspc s.cur)).2 } with
      | error e =>
        simp only [ne_eq, Except.error.injEq]
        rintro rfl
        exact parseStatement_ne_outOfFuel hst
      | ok s' =>
        have hlen : s'.cur.length < (cfgGetlexExt (cfgSkipspc s.cur)).2.length :=
          parseStatement_length hst
        apply ih
        omega

/-- **The parser ends**, on every text. -/
theorem parseConfig_ne_outOfFuel (resolve : Bytes → Option CfgHost) (apply : Bool)
    (mc : MfConfig) (tgts : ConnTargets) (text : Bytes) :
    parseConfig resolve apply mc tgts text ≠ .error .outOfFuel := by
  unfold parseConfig
  have hloop : parseLoop resolve apply (text.length + 1)
      ⟨text, preinitConfig mc, tgts, false, []⟩ ≠ .error .outOfFuel :=
    parseLoop_ne_outOfFuel (Nat.lt_succ_self text.length)
  cases h : parseLoop resolve apply (text.length + 1) ⟨text, preinitConfig mc, tgts, false, []⟩ with
  | error e =>
    rw [h] at hloop
    exact hloop
  | ok s =>
    simp only [parseFinish, syntaxStop]
    split_ifs <;> simp

/-! ## Slices -/

/-- The slices of the clusters are one behind the other, from the first target to the one
before `tot`; `b i` is where the slice of the cluster `i` starts. -/
def Slices (mc : MfConfig) (tot : ℕ) : Prop :=
  ∃ b : ℕ → ℕ, b 0 = 0 ∧ b mc.authClusters = tot ∧
    ∀ i < mc.authClusters,
      (mc.authCluster i).clusterTargets = some (b i) ∧
      b (i + 1) = b i + (mc.authCluster i).targetsNum ∧
      (mc.authCluster i).writeTargetsNum = (mc.authCluster i).targetsNum

/-- A target behind all slices may start a new cluster. -/
theorem Slices.push {mc mc' : MfConfig} {tot : ℕ} {c : MfCluster} (h : Slices mc tot)
    (hn : mc'.authClusters = mc.authClusters + 1)
    (hc : mc'.authCluster = Function.update mc.authCluster mc.authClusters c)
    (hstart : c.clusterTargets = some tot) (hnum : c.targetsNum = 1)
    (hwrite : c.writeTargetsNum = 1) : Slices mc' (tot + 1) := by
  obtain ⟨b, h0, hlast, hb⟩ := h
  refine ⟨Function.update b (mc.authClusters + 1) (tot + 1), ?_, ?_, ?_⟩
  · rw [Function.update_of_ne (by omega)]
    exact h0
  · rw [hn, Function.update_self]
  · intro i hi
    rw [hn] at hi
    rw [hc]
    by_cases heq : i = mc.authClusters
    · subst heq
      rw [Function.update_self, Function.update_self, Function.update_of_ne (by omega), hlast,
        hstart, hnum, hwrite]
      exact ⟨rfl, rfl, rfl⟩
    · rw [Function.update_of_ne heq, Function.update_of_ne (by omega),
        Function.update_of_ne (by omega)]
      exact hb i (by omega)

/-- It may also be one more target of the last cluster. -/
theorem Slices.extend {mc mc' : MfConfig} {tot i : ℕ} {c : MfCluster} (h : Slices mc tot)
    (hi : i + 1 = mc.authClusters) (hn : mc'.authClusters = mc.authClusters)
    (hc : mc'.authCluster = Function.update mc.authCluster i c)
    (hstart : c.clusterTargets = (mc.authCluster i).clusterTargets)
    (hnum : c.targetsNum = (mc.authCluster i).targetsNum + 1)
    (hwrite : c.writeTargetsNum = c.targetsNum) : Slices mc' (tot + 1) := by
  obtain ⟨b, h0, hlast, hb⟩ := h
  refine ⟨Function.update b mc.authClusters (tot + 1), ?_, ?_, ?_⟩
  · rw [Function.update_of_ne (by omega)]
    exact h0
  · rw [hn, Function.update_self]
  · intro k hk
    rw [hn] at hk
    rw [hc]
    by_cases heq : k = i
    · subst heq
      obtain ⟨hs, hnext, -⟩ := hb k (by omega)
      rw [hi] at hnext
      rw [Function.update_self, Function.update_of_ne (by omega), hi, Function.update_self]
      refine ⟨hstart.trans hs, ?_, hwrite⟩
      rw [hnum]
      omega
    · rw [Function.update_of_ne heq, Function.update_of_ne (by omega),
        Function.update_of_ne (by omega)]
      exact hb k (by omega)

/-! ## Two passes side by side -/

/-- What the two passes have in common in the configuration. -/
structure ConfigAgree (mc₁ mc₂ : MfConfig) : Prop where
  totTargets : mc₁.totTargets = mc₂.totTargets
  authClusters : mc₁.authClusters = mc₂.authClusters
  defaultClusterId : mc₁.defaultClusterId = mc₂.defaultClusterId
  minConnections : mc₁.minConnections = mc₂.minConnections
  maxConnections : mc₁.maxConnections = mc₂.maxConnections
  timeout : mc₁.timeout = mc₂.timeout
  clusterId : ∀ i < mc₁.authClusters,
    (mc₁.authCluster i).clusterId = (mc₂.authCluster i).clusterId

/-- What they have in common in the state of the parser. -/
structure PassAgree (s₁ s₂ : ParseState) : Prop where
  cur : s₁.cur = s₂.cur
  haveProxy : s₁.haveProxy = s₂.haveProxy
  specs : s₁.specs = s₂.specs
  mc : ConfigAgree s₁.mc s₂.mc

/-- The targets of the configuration are those of the directives so far, in their order. -/
structure TargetsMade (s : ParseState) : Prop where
  length : s.specs.length = s.mc.totTargets
  target : ∀ (j : ℕ) (h : j < s.specs.length), ∃ t, s.mc.targets j = some t ∧
    t < s.tgts.infos.length ∧ (s.tgts.info t).key = (s.specs[j]).key

/-- What the second pass has built. -/
structure Applied (s : ParseState) : Prop where
  slices : Slices s.mc s.mc.totTargets
  made : TargetsMade s

/-- Both passes look a cluster up with one result. -/
theorem ConfigAgree.mfClusterLookup {mc₁ mc₂ : MfConfig} (h : ConfigAgree mc₁ mc₂) (dc : ℤ) :
    mfClusterLookup mc₁ dc false = mfClusterLookup mc₂ dc false := by
  unfold MtprotoProxy.mfClusterLookup
  have hfind : (List.range mc₁.authClusters).find?
        (fun i => (mc₁.authCluster i).clusterId == dc)
      = (List.range mc₂.authClusters).find? (fun i => (mc₂.authCluster i).clusterId == dc) := by
    rw [← h.authClusters]
    apply List.find?_congr
    intro i hi
    rw [h.clusterId i (List.mem_range.mp hi)]
  rw [hfind]
  cases (List.range mc₂.authClusters).find? (fun i => (mc₂.authCluster i).clusterId == dc) <;> rfl

/-- A cluster that was found has the id that was asked for. -/
theorem mfClusterLookup_some {mc : MfConfig} {dc : ℤ} {i : ℕ}
    (h : mfClusterLookup mc dc false = some i) :
    i < mc.authClusters ∧ (mc.authCluster i).clusterId = dc := by
  unfold mfClusterLookup at h
  cases hfind : (List.range mc.authClusters).find? (fun i => (mc.authCluster i).clusterId == dc) with
  | none => simp [hfind] at h
  | some k =>
    simp only [hfind, Option.some.injEq] at h
    subst h
    refine ⟨List.mem_range.mp (List.mem_of_find?_eq_some hfind), ?_⟩
    simpa using List.find?_some hfind

/-- **Cluster bookkeeping.**  Where the first pass puts the target into a cluster, the second
pass does too, and extends the slices by it. -/
theorem addToCluster_agree {mc₁ mc₂ mc₁' : MfConfig} {dc : ℤ} {ptr : ℕ}
    (h : ConfigAgree mc₁ mc₂) (hs : Slices mc₂ ptr)
    (hadd : addToCluster false dc ptr mc₁ = some mc₁') :
    ∃ mc₂', addToCluster true dc ptr mc₂ = some mc₂' ∧ ConfigAgree mc₁' mc₂' ∧
      Slices mc₂' (ptr + 1) ∧ mc₂'.totTargets = mc₂.totTargets ∧
      mc₂'.targets = mc₂.targets := by
  unfold addToCluster at hadd ⊢
  rw [h.mfClusterLookup dc] at hadd
  cases hlook : mfClusterLookup mc₂ dc false with
  | none =>
    simp only [hlook, Option.some.injEq] at hadd
    subst hadd
    refine ⟨_, rfl, ?_, hs.push rfl rfl rfl rfl rfl, rfl, rfl⟩
    refine ⟨h.totTargets, congrArg (· + 1) h.authClusters, h.defaultClusterId,
      h.minConnections, h.maxConnections, h.timeout, ?_⟩
    intro i hi
    dsimp only at hi ⊢
    rw [h.authClusters] at hi ⊢
    by_cases heq : i = mc₂.authClusters
    · rw [heq, Function.update_self, Function.update_self]
      rfl
    · rw [Function.update_of_ne heq, Function.update_of_ne heq]
      exact h.clusterId i (by rw [h.authClusters]; omega)
  | some i =>
    obtain ⟨hi, hid⟩ := mfClusterLookup_some hlook
    simp only [hlook, Bool.false_eq_true, if_false, Option.ite_none_right_eq_some] at hadd
    obtain ⟨hlast, hmc⟩ := hadd
    rw [← Option.some.inj hmc]
    rw [h.authClusters] at hlast
    -- the slices end at the new target
    have hend : (mc₂.authCluster i).clusterTargets.map (· + (mc₂.authCluster i).targetsNum)
        = some ptr := by
      obtain ⟨b, -, hbl, hb⟩ := hs
      obtain ⟨hstart, hnext, -⟩ := hb i hi
      rw [hstart, Option.map_some, ← hnext, hlast, hbl]
    simp only [if_pos hlast, if_true, extendOldMfCluster, hend, hid, ne_eq, not_true_eq_false,
      if_false, Option.map_some]
    refine ⟨_, rfl, ?_, hs.extend hlast rfl rfl rfl rfl rfl, rfl, rfl⟩
    refine ⟨h.totTargets, h.authClusters, h.defaultClusterId, h.minConnections,
      h.maxConnections, h.timeout, ?_⟩
    intro k hk
    dsimp only
    by_cases heq : k = i
    · rw [heq, Function.update_self, h.clusterId i (by rw [h.authClusters]; exact hi), hid]
    · rw [Function.update_of_ne heq]
      exact h.clusterId k hk

/-- The target that was made is the one of the new directive. -/
theorem TargetsMade.count {s : ParseState} {source : ConnTargetInfo} {r : ℕ × ConnTargets}
    (hm : TargetsMade s) (hc : createTarget s.tgts source = some r) (cur : Bytes) :
    TargetsMade ((s.take r).count source cur) := by
  obtain ⟨hlt, hkey, hle, hold⟩ := createTarget_key hc
  constructor
  · simp only [ParseState.count, ParseState.take, List.length_append, List.length_singleton,
      hm.length]
  · intro j hj
    simp only [ParseState.count, ParseState.take, List.length_append,
      List.length_singleton] at hj ⊢
    by_cases heq : j = s.specs.length
    · subst heq
      refine ⟨r.1, ?_, hlt, ?_⟩
      · rw [hm.length, Function.update_self]
      · rw [List.getElem_append_right (le_refl _)]
        simpa using hkey
    · obtain ⟨t, ht, htlt, htkey⟩ := hm.target j (by omega)
      refine ⟨t, ?_, htlt.trans_le hle, ?_⟩
      · rw [Function.update_of_ne (by rw [← hm.length]; exact heq)]
        exact ht
      · rw [List.getElem_append_left (by omega), hold t htlt]
        exact htkey

variable {s₁ s₂ s₁' : ParseState}

/-- **One target.**  Where the first pass reads one, the second pass makes it. -/
theorem cfgParseServerPort_agree {ptr : ℕ} (h : PassAgree s₁ s₂) (hm : TargetsMade s₂)
    (hok : cfgParseServerPort resolve false s₁ = .ok (ptr, s₁')) :
    cfgParseServerPort resolve true s₂ = .error .assertFailed ∨
      ∃ s₂', cfgParseServerPort resolve true s₂ = .ok (ptr, s₂') ∧ PassAgree s₁' s₂' ∧
        TargetsMade s₂' ∧ ptr = s₂.mc.totTargets ∧ s₂'.mc.totTargets = ptr + 1 ∧
        s₂'.mc.authClusters = s₂.mc.authClusters ∧ s₂'.mc.authCluster = s₂.mc.authCluster := by
  obtain ⟨hmax, rfl, a, a6, port, cur, t₁, hhost, hmake, rfl⟩ := (cfgParseServerPort_ok).mp hok
  have hsource : s₁.mc.cfgCt a a6 port = s₂.mc.cfgCt a a6 port := by
    unfold MfConfig.cfgCt
    rw [h.mc.minConnections, h.mc.maxConnections]
  simp only [makeTarget, Bool.false_eq_true, if_false, Option.some.injEq] at hmake
  subst hmake
  rw [h.cur] at hhost
  rw [h.mc.totTargets] at hmax ⊢
  cases hc : createTarget s₂.tgts (s₂.mc.cfgCt a a6 port) with
  | none =>
    left
    unfold cfgParseServerPort
    rw [if_neg (by omega), hhost]
    simp [makeTarget, hc]
  | some r =>
    right
    refine ⟨_, (cfgParseServerPort_ok).mpr ⟨hmax, rfl, a, a6, port, cur, s₂.take r, hhost, ?_, rfl⟩,
      ?_, ?_, rfl, rfl, rfl, rfl⟩
    · rw [makeTarget, if_pos rfl, hc]
      rfl
    · refine ⟨rfl, h.haveProxy, ?_, ?_⟩
      · rw [hsource]
        exact congrArg (· ++ _) h.specs
      · exact ⟨congrArg (· + 1) h.mc.totTargets, h.mc.authClusters, h.mc.defaultClusterId,
          h.mc.minConnections, h.mc.maxConnections, h.mc.timeout, h.mc.clusterId⟩
    · exact hm.count hc cur

/-- **A `proxy` directive.** -/
theorem parseProxy_agree {dc : ℤ}
    (h : PassAgree s₁ s₂) (ha : Applied s₂) (hok : parseProxy resolve false dc s₁ = .ok s₁') :
    parseProxy resolve true dc s₂ = .error .assertFailed ∨
      ∃ s₂', parseProxy resolve true dc s₂ = .ok s₂' ∧ PassAgree s₁' s₂' ∧ Applied s₂' := by
  unfold parseProxy syntaxStop at hok ⊢
  dsimp only at hok ⊢
  split_ifs at hok with hmax
  rw [h.mc.authClusters] at hmax
  rw [if_neg hmax]
  cases hport : cfgParseServerPort resolve false { s₁ with haveProxy := true } with
  | error e => simp [hport] at hok
  | ok r =>
    obtain ⟨ptr, t₁⟩ := r
    simp only [hport] at hok
    have hproxy : PassAgree { s₁ with haveProxy := true } { s₂ with haveProxy := true } :=
      ⟨h.cur, rfl, h.specs, h.mc⟩
    have hmade : TargetsMade { s₂ with haveProxy := true } := ⟨ha.made.length, ha.made.target⟩
    rcases cfgParseServerPort_agree hproxy hmade hport with
      herr | ⟨t₂, ht₂, hagree, hmade', hptr, htot, hn, hclusters⟩
    · left
      rw [herr]
    · right
      rw [ht₂]
      have hslices : Slices t₂.mc ptr := by
        obtain ⟨b, h0, hlast, hb⟩ := ha.slices
        refine ⟨b, h0, ?_, ?_⟩
        · rw [hn, hptr]
          exact hlast
        · rw [hn, hclusters]
          exact hb
      cases hadd : addToCluster false dc ptr t₁.mc with
      | none => simp [hadd] at hok
      | some mc₁ =>
        simp only [hadd, Except.ok.injEq] at hok
        subst hok
        obtain ⟨mc₂, hadd₂, hmc, hsl, htots, htargets⟩ :=
          addToCluster_agree hagree.mc hslices hadd
        simp only [hadd₂]
        refine ⟨_, rfl, ⟨hagree.cur, hagree.haveProxy, hagree.specs, hmc⟩, ?_, ?_⟩
        · dsimp only
          rw [htots, htot]
          exact hsl
        · constructor
          · dsimp only
            rw [htots]
            exact hmade'.length
          · dsimp only
            rw [htargets]
            exact hmade'.target

/-- **One directive.** -/
theorem parseDirective_agree {lex : CfgLex}
    (h : PassAgree s₁ s₂) (ha : Applied s₂)
    (hok : parseDirective resolve false lex s₁ = .ok s₁') :
    parseDirective resolve true lex s₂ = .error .assertFailed ∨
      ∃ s₂', parseDirective resolve true lex s₂ = .ok s₂' ∧ PassAgree s₁' s₂' ∧ Applied s₂' := by
  obtain ⟨hcur, hproxy, hspecs, hmc⟩ := h
  obtain ⟨hslices, hlen, htarget⟩ := ha
  cases lex
  case timeout =>
    right
    simp only [parseDirective, syntaxStop, hcur] at hok ⊢
    split_ifs at hok ⊢ with hrange
    rw [← Except.ok.inj hok]
    refine ⟨_, rfl, ⟨rfl, hproxy, hspecs, ?_⟩, ⟨hslices, hlen, htarget⟩⟩
    exact ⟨hmc.totTargets, hmc.authClusters, hmc.defaultClusterId, hmc.minConnections,
      hmc.maxConnections, rfl, hmc.clusterId⟩
  case default =>
    right
    simp only [parseDirective, syntaxStop, hcur] at hok ⊢
    split_ifs at hok ⊢ with hrange
    rw [← Except.ok.inj hok]
    refine ⟨_, rfl, ⟨rfl, hproxy, hspecs, ?_⟩, ⟨hslices, hlen, htarget⟩⟩
    exact ⟨hmc.totTargets, hmc.authClusters, rfl, hmc.minConnections, hmc.maxConnections,
      hmc.timeout, hmc.clusterId⟩
  case proxyFor =>
    simp only [parseDirective, syntaxStop, hcur] at hok ⊢
    split_ifs at hok ⊢ with hrange hblank
    refine parseProxy_agree ?_ ⟨hslices, hlen, htarget⟩ hok
    exact ⟨rfl, hproxy, hspecs, hmc⟩
  case proxy => exact parseProxy_agree ⟨hcur, hproxy, hspecs, hmc⟩ ⟨hslices, hlen, htarget⟩ hok
  case maxConnections =>
    right
    simp only [parseDirective, syntaxStop, hcur, hmc.minConnections] at hok ⊢
    split_ifs at hok ⊢ with hrange
    rw [← Except.ok.inj hok]
    refine ⟨_, rfl, ⟨rfl, hproxy, hspecs, ?_⟩, ⟨hslices, hlen, htarget⟩⟩
    exact ⟨hmc.totTargets, hmc.authClusters, hmc.defaultClusterId, rfl, rfl, hmc.timeout,
      hmc.clusterId⟩
  case minConnections =>
    right
    simp only [parseDirective, syntaxStop, hcur, hmc.maxConnections] at hok ⊢
    split_ifs at hok ⊢ with hrange
    rw [← Except.ok.inj hok]
    refine ⟨_, rfl, ⟨rfl, hproxy, hspecs, ?_⟩, ⟨hslices, hlen, htarget⟩⟩
    exact ⟨hmc.totTargets, hmc.authClusters, hmc.defaultClusterId, rfl, rfl, hmc.timeout,
      hmc.clusterId⟩
  all_goals simp [parseDirective, syntaxStop] at hok

/-- **One statement.** -/
theorem parseStatement_agree {lex : CfgLex}
    (h : PassAgree s₁ s₂) (ha : Applied s₂)
    (hok : parseStatement resolve false lex s₁ = .ok s₁') :
    parseStatement resolve true lex s₂ = .error .assertFailed ∨
      ∃ s₂', parseStatement resolve true lex s₂ = .ok s₂' ∧ PassAgree s₁' s₂' ∧ Applied s₂' := by
  unfold parseStatement syntaxStop at hok ⊢
  cases hdir : parseDirective resolve false lex s₁ with
  | error e => simp [hdir] at hok
  | ok t₁ =>
    simp only [hdir] at hok
    split_ifs at hok with hsemi
    rw [← Except.ok.inj hok]
    rcases parseDirective_agree h ha hdir with herr | ⟨t₂, ht₂, hagree, happlied⟩
    · left
      rw [herr]
    · right
      rw [hagree.cur] at hsemi
      simp only [ht₂, if_pos hsemi]
      refine ⟨_, rfl, ⟨?_, hagree.haveProxy, hagree.specs, hagree.mc⟩, happlied.slices,
        happlied.made.length, happlied.made.target⟩
      dsimp only
      rw [hagree.cur]

/-- **All statements**, by induction on the fuel. -/
theorem parseLoop_agree {n : ℕ} (h : PassAgree s₁ s₂) (ha : Applied s₂)
    (hok : parseLoop resolve false n s₁ = .ok s₁') :
    parseLoop resolve true n s₂ = .error .assertFailed ∨
      ∃ s₂', parseLoop resolve true n s₂ = .ok s₂' ∧ PassAgree s₁' s₂' ∧ Applied s₂' := by
  induction n generalizing s₁ s₂ with
  | zero => simp [parseLoop] at hok
  | succ n ih =>
    rw [parseLoop] at hok ⊢
    rw [h.cur] at hok
    split_ifs at hok ⊢ with hend heof
    · rw [← Except.ok.inj hok]
      exact Or.inr ⟨_, rfl, ⟨rfl, h.haveProxy, h.specs, h.mc⟩, ha.slices, ha.made.length,
        ha.made.target⟩
    · rw [← Except.ok.inj hok]
      exact Or.inr ⟨_, rfl, ⟨rfl, h.haveProxy, h.specs, h.mc⟩, ha.slices, ha.made.length,
        ha.made.target⟩
    · cases hst : parseStatement resolve false (cfgGetlexExt (cfgSkipspc s₂.cur)).1
          { s₁ with cur := (cfgGetlexExt (cfgSkipspc s₂.cur)).2 } with
      | error e => simp [hst] at hok
      | ok t₁ =>
        simp only [hst] at hok
        have hnext : PassAgree { s₁ with cur := (cfgGetlexExt (cfgSkipspc s₂.cur)).2 }
            { s₂ with cur := (cfgGetlexExt (cfgSkipspc s₂.cur)).2 } :=
          ⟨rfl, h.haveProxy, h.specs, h.mc⟩
        have happlied : Applied { s₂ with cur := (cfgGetlexExt (cfgSkipspc s₂.cur)).2 } :=
          ⟨ha.slices, ha.made.length, ha.made.target⟩
        rcases parseStatement_agree hnext happlied hst with herr | ⟨t₂, ht₂, hagree, ht⟩
        · left
          rw [herr]
        · rw [ht₂]
          exact ih hagree ht hok

/-! ## The result of the second pass -/

/-- The targets of the cluster `i`, as indices into the targets of the configuration. -/
def clusterSlice (mc : MfConfig) (i : ℕ) : Finset ℕ :=
  Finset.Ico ((mc.authCluster i).clusterTargets.getD 0)
    ((mc.authCluster i).clusterTargets.getD 0 + (mc.authCluster i).targetsNum)

/-- The slices of the clusters are contiguous, pairwise disjoint, and together all targets. -/
structure SlicesPartition (mc : MfConfig) : Prop where
  start : ∀ i < mc.authClusters, (mc.authCluster i).clusterTargets.isSome
  contiguous : ∀ i, i + 1 < mc.authClusters →
    (mc.authCluster (i + 1)).clusterTargets
      = (mc.authCluster i).clusterTargets.map (· + (mc.authCluster i).targetsNum)
  disjoint : ∀ i < mc.authClusters, ∀ j < mc.authClusters, i ≠ j →
    Disjoint (clusterSlice mc i) (clusterSlice mc j)
  cover : (Finset.range mc.authClusters).biUnion (clusterSlice mc) = Finset.range mc.totTargets

/-- Slices one behind the other are a partition. -/
theorem Slices.partition {mc : MfConfig} (h : Slices mc mc.totTargets) : SlicesPartition mc := by
  obtain ⟨b, h0, hlast, hb⟩ := h
  have hslice : ∀ i < mc.authClusters, clusterSlice mc i = Finset.Ico (b i) (b (i + 1)) := by
    intro i hi
    obtain ⟨hs, hnext, -⟩ := hb i hi
    rw [clusterSlice, hs, Option.getD_some, hnext]
  have hmono : ∀ i j, i ≤ j → j ≤ mc.authClusters → b i ≤ b j := by
    intro i j hij hj
    induction j, hij using Nat.le_induction with
    | base => exact le_refl _
    | succ j hij ih =>
      obtain ⟨-, hnext, -⟩ := hb j (by omega)
      have := ih (by omega)
      omega
  refine ⟨?_, ?_, ?_, ?_⟩
  · intro i hi
    rw [(hb i hi).1]
    rfl
  · intro i hi
    rw [(hb (i + 1) hi).1, (hb i (by omega)).1, Option.map_some, (hb i (by omega)).2.1]
  · intro i hi j hj hne
    rw [hslice i hi, hslice j hj, Finset.disjoint_left]
    intro x hx hx'
    rw [Finset.mem_Ico] at hx hx'
    rcases lt_or_gt_of_ne hne with hlt | hlt
    · have := hmono (i + 1) j hlt hj.le
      omega
    · have := hmono (j + 1) i hlt hi.le
      omega
  · -- the union of the first `n` slices ends where the next one starts
    have hunion : ∀ n ≤ mc.authClusters,
        (Finset.range n).biUnion (clusterSlice mc) = Finset.range (b n) := by
      intro n hn
      induction n with
      | zero => rw [h0, Finset.range_zero, Finset.biUnion_empty]
      | succ n ih =>
        have hle := hmono n (n + 1) (Nat.le_succ n) hn
        rw [Finset.range_add_one, Finset.biUnion_insert, ih (by omega), hslice n (by omega)]
        ext x
        rw [Finset.mem_union, Finset.mem_Ico, Finset.mem_range, Finset.mem_range]
        omega
    rw [hunion _ le_rfl, hlast]

/-- What is the same in the results of the two passes. -/
structure SameResult (s₁ s₂ : ParseState) : Prop where
  authClusters : s₁.mc.authClusters = s₂.mc.authClusters
  clusterId : ∀ i < s₁.mc.authClusters,
    (s₁.mc.authCluster i).clusterId = (s₂.mc.authCluster i).clusterId
  minConnections : s₁.mc.minConnections = s₂.mc.minConnections
  maxConnections : s₁.mc.maxConnections = s₂.mc.maxConnections
  timeout : s₁.mc.timeout = s₂.mc.timeout
  defaultClusterId : s₁.mc.defaultClusterId = s₂.mc.defaultClusterId
  defaultCluster : s₁.mc.defaultCluster = s₂.mc.defaultCluster
  haveProxy : s₁.mc.haveProxy = s₂.mc.haveProxy
  totTargets : s₁.mc.totTargets = s₂.mc.totTargets
  specs : s₁.specs.length = s₁.mc.totTargets
  target : ∀ (j : ℕ) (h : j < s₁.specs.length), ∃ t, s₂.mc.targets j = some t ∧
    (s₂.tgts.info t).key = (s₁.specs[j]).key

/-- **The end of the parser** agrees as well. -/
theorem parseFinish_agree (h : PassAgree s₁ s₂) (ha : Applied s₂)
    (hok : parseFinish s₁ = .ok s₁') :
    ∃ s₂', parseFinish s₂ = .ok s₂' ∧ SameResult s₁' s₂' ∧ SlicesPartition s₂'.mc := by
  unfold parseFinish syntaxStop at hok ⊢
  dsimp only at hok ⊢
  split_ifs at hok with hproxy hnone
  rw [← Except.ok.inj hok, if_neg (by rwa [← h.haveProxy]), if_neg (by rwa [← h.mc.authClusters])]
  refine ⟨_, rfl, ?_, ?_⟩
  · refine ⟨h.mc.authClusters, h.mc.clusterId, h.mc.minConnections, h.mc.maxConnections,
      h.mc.timeout, h.mc.defaultClusterId, ?_, h.haveProxy, h.mc.totTargets, ?_, ?_⟩
    · dsimp only
      rw [h.mc.defaultClusterId]
      apply ConfigAgree.mfClusterLookup
      exact ⟨h.mc.totTargets, h.mc.authClusters, rfl, h.mc.minConnections, h.mc.maxConnections,
        h.mc.timeout, h.mc.clusterId⟩
    · dsimp only
      rw [h.specs, h.mc.totTargets]
      exact ha.made.length
    · dsimp only
      rw [h.specs]
      intro j hj
      obtain ⟨t, ht, -, hkey⟩ := ha.made.target j hj
      exact ⟨t, ht, hkey⟩
  · apply Slices.partition
    exact ha.slices

/-- **Two passes, one configuration.**  On every text, with any contents of the configuration
and of the table of targets before each pass: when the pass that only checks the syntax
succeeds and no target creation fails in the applying pass, the applying pass succeeds with the
same result, and its slices are a partition of its targets. -/
theorem applying_pass_agrees (resolve : Bytes → Option CfgHost) (mc₁ mc₂ : MfConfig)
    (tgts₁ tgts₂ : ConnTargets) (text : Bytes) (s₁ : ParseState)
    (hcheck : parseConfig resolve false mc₁ tgts₁ text = .ok s₁)
    (hcreate : parseConfig resolve true mc₂ tgts₂ text ≠ .error .assertFailed) :
    ∃ s₂, parseConfig resolve true mc₂ tgts₂ text = .ok s₂ ∧ SameResult s₁ s₂ ∧
      SlicesPartition s₂.mc := by
  unfold parseConfig at hcheck hcreate ⊢
  cases hloop : parseLoop resolve false (text.length + 1)
      ⟨text, preinitConfig mc₁, tgts₁, false, []⟩ with
  | error e => simp [hloop] at hcheck
  | ok t₁ =>
    simp only [hloop] at hcheck
    have hstart : PassAgree ⟨text, preinitConfig mc₁, tgts₁, false, []⟩
        ⟨text, preinitConfig mc₂, tgts₂, false, []⟩ := by
      refine ⟨rfl, rfl, rfl, rfl, rfl, rfl, rfl, rfl, rfl, ?_⟩
      intro i hi
      exact absurd hi (Nat.not_lt_zero i)
    have hempty : Applied ⟨text, preinitConfig mc₂, tgts₂, false, []⟩ := by
      refine ⟨⟨fun _ => 0, rfl, rfl, ?_⟩, rfl, ?_⟩
      · intro i hi
        exact absurd hi (Nat.not_lt_zero i)
      · intro j hj
        exact absurd hj (Nat.not_lt_zero j)
    rcases parseLoop_agree hstart hempty hloop with herr | ⟨t₂, ht₂, hagree, happlied⟩
    · rw [herr] at hcreate
      exact absurd rfl hcreate
    · rw [ht₂]
      exact parseFinish_agree hagree happlied hcheck

/-- A name is the address of one of two hosts. -/
def twoHosts (name : Bytes) : Option CfgHost :=
  if name = "10.0.0.1".toUTF8.toList then some (.inet 0x0100000a)
  else if name = "10.0.0.2".toUTF8.toList then some (.inet 0x0200000a)
  else none

/-- Two clusters; the second one has the same target twice. -/
def twoClusters : Bytes :=
  ("default 2; # clusters\nproxy_for 2 10.0.0.1:8888;\n" ++
    "proxy 10.0.0.2:443;proxy 10.0.0.2:443;\n").toUTF8.toList

theorem applying_pass_agrees_twoClusters :
    ∃ s₁ s₂, parseConfig twoHosts false .zero .empty twoClusters = .ok s₁ ∧
      parseConfig twoHosts true .zero .empty twoClusters = .ok s₂ ∧
      SameResult s₁ s₂ ∧ SlicesPartition s₂.mc ∧ s₁.mc.authClusters = 2 := by
  have hcheck : (parseConfig twoHosts false .zero .empty twoClusters).toOption.map
      (fun s => s.mc.authClusters) = some 2 := by decide +kernel
  have happly : (parseConfig twoHosts true .zero .empty twoClusters).toOption.map
      (fun s => s.mc.totTargets) = some 3 := by decide +kernel
  cases h₁ : parseConfig twoHosts false .zero .empty twoClusters with
  | error e =>
    rw [h₁] at hcheck
    simp [Except.toOption] at hcheck
  | ok s₁ =>
    rw [h₁] at hcheck
    have hcreate : parseConfig twoHosts true .zero .empty twoClusters ≠ .error .assertFailed := by
      intro herr
      rw [herr] at happly
      simp [Except.toOption] at happly
    obtain ⟨s₂, h₂, hsame, hpart⟩ :=
      applying_pass_agrees twoHosts .zero .zero .empty .empty twoClusters s₁ h₁ hcreate
    exact ⟨s₁, s₂, rfl, h₂, hsame, hpart, Option.some.inj hcheck⟩

end MtprotoProxy
