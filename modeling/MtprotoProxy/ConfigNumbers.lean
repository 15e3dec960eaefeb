/-
# The numbers of the configuration

What a directive of the configuration text says in digits, of any length, and what `parse_config`
stores for it.  `cfg_getint` adds the digits up in a `long long`, which wraps, and what is stored
in an `int` wraps once more before its range is checked.

* `configNumbers_iff`: in an accepted text every number is stored as it is written exactly when
  no port and no number of connections is written that an `int` does not hold, and no default
  cluster that a `long long` does not hold.

`directives` are the directives that the loop gets through, with the states before and behind
each of them; `Directive.effect` says what one of them changes.
-/
import MtprotoProxy.ConfigParse

namespace MtprotoProxy

open CLib

/-! ## Digits -/

theorem isDigit_toNat {c : UInt8} (h : isDigit c = true) : 48 ≤ c.toNat ∧ c.toNat ≤ 57 := by
  unfold isDigit at h
  rw [Bool.and_eq_true, decide_eq_true_eq, decide_eq_true_eq, UInt8.le_iff_toNat_le,
    UInt8.le_iff_toNat_le] at h
  exact h

/-- One more digit, with a sign, in the arithmetic of a `long long`. -/
theorem signedDigit_ofInt {c : UInt8} (h : isDigit c = true) (sgn x : ℤ) :
    Int64.ofInt x * 10 + Int64.ofInt sgn * (Int64.ofNat c.toNat - 48)
      = Int64.ofInt (x * 10 + sgn * ((c.toNat - 48 : ℕ) : ℤ)) := by
  obtain ⟨hlo, -⟩ := isDigit_toNat h
  rw [Int64.ofInt_add, Int64.ofInt_mul, Int64.ofInt_mul, Nat.cast_sub hlo, Int64.ofInt_sub,
    Int64.ofInt_eq_ofNat]
  rfl

/-- Digits behind a number, as the loops add them up. -/
theorem foldl_signedDigits (sgn x : ℤ) {ds : Bytes} (hds : ∀ c ∈ ds, isDigit c = true) :
    ds.foldl (fun x c => x * 10 + Int64.ofInt sgn * (Int64.ofNat c.toNat - 48)) (Int64.ofInt x)
      = Int64.ofInt (ds.foldl (fun x c => x * 10 + sgn * ((c.toNat - 48 : ℕ) : ℤ)) x) := by
  induction ds generalizing x with
  | nil => rfl
  | cons c ds ih =>
    rw [List.forall_mem_cons] at hds
    rw [List.foldl_cons, List.foldl_cons, signedDigit_ofInt hds.1]
    exact ih _ hds.2

/-- Without wrapping the loops give the decimal value. -/
theorem foldl_decValue (sgn : ℤ) (n : ℕ) (ds : Bytes) :
    ds.foldl (fun x c => x * 10 + sgn * ((c.toNat - 48 : ℕ) : ℤ)) (sgn * n)
      = sgn * (ds.foldl (fun acc d => acc * 10 + (d.toNat - 48)) n : ℕ) := by
  induction ds generalizing n with
  | nil => rfl
  | cons c ds ih =>
    rw [List.foldl_cons, List.foldl_cons, ← ih]
    congr 1
    push_cast
    ring

/-- **The digits wrap.** -/
theorem cfgSignedDigits_toInt (sgn : ℤ) (s : Bytes) :
    (cfgSignedDigits (Int64.ofInt sgn) s).toInt
      = Int.bmod (sgn * decValue (s.takeWhile isDigit)) (2 ^ 64) := by
  have hsum := foldl_decValue sgn 0 (s.takeWhile isDigit)
  rw [Nat.cast_zero, mul_zero] at hsum
  unfold cfgSignedDigits decValue
  have hzero : (0 : Int64) = Int64.ofInt 0 := rfl
  rw [hzero, foldl_signedDigits sgn 0 (fun c => List.mem_takeWhile_imp), hsum, Int64.toInt_ofInt]
  rfl

/-- The number in the digits behind blanks. -/
def writtenNumber (s : Bytes) : ℕ := decValue ((cfgSkspc s).takeWhile isDigit)

/-- The number behind blanks, with a sign. -/
def writtenSigned (s : Bytes) : ℤ :=
  match cfgSkspc s with
  | 45 :: t => -(decValue (t.takeWhile isDigit) : ℤ)
  | t => decValue (t.takeWhile isDigit)

theorem cfgGetint_toInt (s : Bytes) :
    (cfgGetint s).1.toInt = Int.bmod (writtenNumber s) (2 ^ 64) := by
  have hdigit : (fun (x : Int64) (c : UInt8) => x * 10 + Int64.ofNat c.toNat - 48)
      = fun x c => x * 10 + Int64.ofInt 1 * (Int64.ofNat c.toNat - 48) := by
    funext x c
    rw [show Int64.ofInt 1 = 1 from rfl, Int64.one_mul, Int64.sub_eq_add_neg,
      Int64.sub_eq_add_neg, Int64.add_assoc]
  have hone := cfgSignedDigits_toInt 1 (cfgSkspc s)
  rw [one_mul] at hone
  rw [writtenNumber, ← hone]
  unfold cfgGetint cfgSignedDigits
  rw [hdigit]

/-- An `int` that gets the result. -/
theorem wrap32_cfgGetint (s : Bytes) : wrap32 (cfgGetint s).1.toInt = wrap32 (writtenNumber s) := by
  rw [cfgGetint_toInt]
  exact Int.bmod_bmod_of_dvd (by norm_num)

theorem writtenSigned_minus {s t : Bytes} (hs : cfgSkspc s = 45 :: t) :
    writtenSigned s = -(decValue (t.takeWhile isDigit) : ℤ) := by
  simp only [writtenSigned, hs]

theorem writtenSigned_of_ne {s : Bytes} (hs : ∀ t, cfgSkspc s ≠ 45 :: t) :
    writtenSigned s = decValue ((cfgSkspc s).takeWhile isDigit) := by
  unfold writtenSigned
  split
  · rename_i heq
    exact absurd heq (hs _)
  · rfl

theorem cfgGetintSignedZero_minus {s t : Bytes} (hs : cfgSkspc s = 45 :: t) :
    (cfgGetintSignedZero s).1
      = if (t.takeWhile isDigit).isEmpty then Int64.minValue else cfgSignedDigits (-1) t := by
  simp only [cfgGetintSignedZero, hs]
  exact apply_ite Prod.fst _ _ _

theorem cfgGetintSignedZero_of_ne {s : Bytes} (hs : ∀ t, cfgSkspc s ≠ 45 :: t) :
    (cfgGetintSignedZero s).1
      = if ((cfgSkspc s).takeWhile isDigit).isEmpty then Int64.minValue
        else cfgSignedDigits 1 (cfgSkspc s) := by
  unfold cfgGetintSignedZero
  dsimp only
  split
  · rename_i heq
    exact absurd heq (hs _)
  · exact apply_ite Prod.fst _ _ _

/-- A number that is not the smallest `long long` is in digits. -/
theorem cfgGetintSignedZero_toInt {s : Bytes} (h : -0x8000 ≤ (cfgGetintSignedZero s).1.toInt) :
    (cfgGetintSignedZero s).1.toInt = Int.bmod (writtenSigned s) (2 ^ 64) := by
  have hmin : ¬ -0x8000 ≤ Int64.minValue.toInt := by decide
  by_cases hminus : ∃ t, cfgSkspc s = 45 :: t
  · obtain ⟨t, ht⟩ := hminus
    rw [writtenSigned_minus ht]
    rw [cfgGetintSignedZero_minus ht] at h ⊢
    split_ifs at h ⊢
    · exact absurd h hmin
    · have hdigits := cfgSignedDigits_toInt (-1) t
      rw [neg_one_mul] at hdigits
      exact hdigits
  · push Not at hminus
    rw [writtenSigned_of_ne hminus]
    rw [cfgGetintSignedZero_of_ne hminus] at h ⊢
    split_ifs at h ⊢
    · exact absurd h hmin
    · have hdigits := cfgSignedDigits_toInt 1 (cfgSkspc s)
      rw [one_mul] at hdigits
      exact hdigits

/-! ## Directives -/

/-- A directive that the loop gets through: its lexeme, and the states before and behind it. -/
structure Directive where
  lex : CfgLex
  before : ParseState
  after : ParseState

/-- The directives of the loop of `parse_config`, one for each turn. -/
def directives (resolve : Bytes → Option CfgHost) (apply : Bool) :
    ℕ → ParseState → List Directive
  | 0, _ => []
  | n + 1, s =>
    let cur := cfgSkipspc s.cur
    if cfgPeek cur = 0 then []
    else if (cfgGetlexExt cur).1 = .eof then []
    else
      match parseStatement resolve apply (cfgGetlexExt cur).1
          { s with cur := (cfgGetlexExt cur).2 } with
      | .error _ => []
      | .ok t =>
        ⟨(cfgGetlexExt cur).1, { s with cur := (cfgGetlexExt cur).2 }, t⟩
          :: directives resolve apply n t

namespace Directive

variable (d : Directive)

def isTarget : Bool := d.lex == .proxy || d.lex == .proxyFor

/-- Where the host of a target is written. -/
def hostText : Bytes :=
  if d.lex = .proxyFor then cfgSkspc (cfgGetintSignedZero d.before.cur).2 else d.before.cur

/-- What is written behind the colon of a target. -/
def portText : Bytes :=
  let s := cfgSkspc d.hostText
  (cfgGetlexExt (s.drop (cfgWordLength s))).2

/-- The number in the text: the port of a target, the id of a default cluster with its sign, and
otherwise what stands behind the lexeme. -/
def written : ℤ :=
  if d.isTarget then writtenNumber d.portText
  else if d.lex = .default then writtenSigned d.before.cur
  else writtenNumber d.before.cur

/-- What is stored is what is written. -/
def Stores : Prop :=
  (d.lex = .minConnections → d.after.mc.minConnections = d.written) ∧
    (d.lex = .maxConnections → d.after.mc.maxConnections = d.written) ∧
    (d.lex = .default → d.after.mc.defaultClusterId = d.written)

/-- The number fits into the type that gets it first: `int`, or `long long` for the id of a
default cluster. -/
def Fits : Prop :=
  (d.isTarget ∨ d.lex = .minConnections ∨ d.lex = .maxConnections → d.written < 2 ^ 31) ∧
    (d.lex = .default → -2 ^ 63 ≤ d.written ∧ d.written < 2 ^ 63)

instance : Decidable d.Fits := inferInstanceAs (Decidable (_ ∧ _))

/-- What a directive changes. -/
structure Effect (apply : Bool) : Prop where
  ports : if d.isTarget then
      ∃ t, d.after.specs = d.before.specs ++ [t] ∧ t.port = wrap32 d.written ∧
        1 ≤ t.port ∧ t.port ≤ 65535
    else d.after.specs = d.before.specs
  minConnections : d.after.mc.minConnections =
    if d.lex = .minConnections then wrap32 d.written else d.before.mc.minConnections
  maxConnections : d.after.mc.maxConnections =
    if d.lex = .maxConnections then wrap32 d.written else d.before.mc.maxConnections
  defaultClusterId : d.after.mc.defaultClusterId =
    if d.lex = .default then Int.bmod d.written (2 ^ 64) else d.before.mc.defaultClusterId
  made : apply = true → TargetsMade d.before → TargetsMade d.after

end Directive

variable {resolve : Bytes → Option CfgHost}

/-- The port behind the colon. -/
theorem cfgGethostPort_port {s cur : Bytes} {a : UInt32}
    {a6 : Bytes} {port : ℤ} (h : cfgGethostPort resolve s = some (a, a6, port, cur)) :
    port = wrap32 (writtenNumber
        (cfgGetlexExt ((cfgSkspc s).drop (cfgWordLength (cfgSkspc s)))).2) ∧
      1 ≤ port ∧ port ≤ 65535 := by
  unfold cfgGethostPort at h
  dsimp only at h
  rw [Option.ite_none_left_eq_some] at h
  obtain ⟨-, h⟩ := h
  split at h
  · rename_i b b6 t _ hcolon
    rw [Option.ite_none_left_eq_some] at h
    obtain ⟨hrange, h⟩ := h
    simp only [Option.some.injEq, Prod.mk.injEq] at h
    rw [hcolon, ← h.2.2.1]
    refine ⟨wrap32_cfgGetint t, ?_, ?_⟩ <;> omega
  · simp at h

/-- Clusters have no numbers of connections. -/
theorem addToCluster_frame {apply : Bool} {dc : ℤ} {ptr : ℕ} {mc mc' : MfConfig}
    (h : addToCluster apply dc ptr mc = some mc') :
    mc'.minConnections = mc.minConnections ∧ mc'.maxConnections = mc.maxConnections ∧
      mc'.defaultClusterId = mc.defaultClusterId ∧ mc'.totTargets = mc.totTargets ∧
      mc'.targets = mc.targets := by
  unfold addToCluster at h
  split at h
  · rw [← Option.some.inj h]
    exact ⟨rfl, rfl, rfl, rfl, rfl⟩
  · split_ifs at h
    · obtain ⟨c, -, rfl⟩ := Option.map_eq_some_iff.mp h
      exact ⟨rfl, rfl, rfl, rfl, rfl⟩
    · rw [← Option.some.inj h]
      exact ⟨rfl, rfl, rfl, rfl, rfl⟩

/-- **A target.** -/
theorem parseProxy_spec {apply : Bool} {dc : ℤ}
    {s s' : ParseState} (h : parseProxy resolve apply dc s = .ok s') :
    (∃ t, s'.specs = s.specs ++ [t] ∧ t.port = wrap32 (writtenNumber
        (cfgGetlexExt ((cfgSkspc s.cur).drop (cfgWordLength (cfgSkspc s.cur)))).2) ∧
      1 ≤ t.port ∧ t.port ≤ 65535) ∧
    s'.mc.minConnections = s.mc.minConnections ∧ s'.mc.maxConnections = s.mc.maxConnections ∧
    s'.mc.defaultClusterId = s.mc.defaultClusterId ∧
    (apply = true → TargetsMade s → TargetsMade s') := by
  unfold parseProxy syntaxStop at h
  dsimp only at h
  split_ifs at h
  cases hport : cfgParseServerPort resolve apply { s with haveProxy := true } with
  | error e => simp [hport] at h
  | ok r =>
    obtain ⟨ptr, t⟩ := r
    simp only [hport] at h
    cases hadd : addToCluster apply dc ptr t.mc with
    | none => simp [hadd] at h
    | some mc =>
      simp only [hadd, Except.ok.injEq] at h
      obtain ⟨hmin, hmax, hdefault, htot, htargets⟩ := addToCluster_frame hadd
      obtain ⟨-, rfl, a, a6, port, cur, u, hhost, hmake, rfl⟩ := cfgParseServerPort_ok.mp hport
      obtain ⟨hvalue, hrange⟩ := cfgGethostPort_port hhost
      -- the second pass makes the target, and the first one changes nothing
      have hu : u.specs = s.specs ∧ u.mc.minConnections = s.mc.minConnections ∧
          u.mc.maxConnections = s.mc.maxConnections ∧
          u.mc.defaultClusterId = s.mc.defaultClusterId := by
        unfold makeTarget at hmake
        split_ifs at hmake
        · obtain ⟨r, -, rfl⟩ := Option.map_eq_some_iff.mp hmake
          exact ⟨rfl, rfl, rfl, rfl⟩
        · rw [← Option.some.inj hmake]
          exact ⟨rfl, rfl, rfl, rfl⟩
      rw [← h]
      refine ⟨⟨_, congrArg (· ++ _) hu.1, hvalue, hrange⟩, hmin.trans hu.2.1, hmax.trans hu.2.2.1,
        hdefault.trans hu.2.2.2, ?_⟩
      rintro rfl hm
      rw [makeTarget, if_pos rfl] at hmake
      obtain ⟨r, hc, rfl⟩ := Option.map_eq_some_iff.mp hmake
      have hmade : TargetsMade { s with haveProxy := true } := ⟨hm.length, hm.target⟩
      obtain ⟨hlength, htarget⟩ := hmade.count hc cur
      constructor
      · show _ = mc.totTargets
        rw [htot]
        exact hlength
      · show ∀ j _, ∃ t, mc.targets j = some t ∧ _
        rw [htargets]
        exact htarget

/-- **One directive.** -/
theorem parseDirective_effect {apply : Bool} {lex : CfgLex}
    {s s' : ParseState} (h : parseDirective resolve apply lex s = .ok s') :
    (⟨lex, s, s'⟩ : Directive).Effect apply := by
  cases lex
  case timeout =>
    simp only [parseDirective, syntaxStop] at h
    split_ifs at h
    rw [← Except.ok.inj h]
    exact ⟨rfl, rfl, rfl, rfl, fun _ hm => ⟨hm.length, hm.target⟩⟩
  case default =>
    simp only [parseDirective, syntaxStop] at h
    split_ifs at h with hrange
    rw [← Except.ok.inj h]
    refine ⟨rfl, rfl, rfl, ?_, fun _ hm => ⟨hm.length, hm.target⟩⟩
    exact cfgGetintSignedZero_toInt (by omega)
  case proxyFor =>
    simp only [parseDirective, syntaxStop] at h
    split_ifs at h
    obtain ⟨hport, hmin, hmax, hdefault, hmade⟩ := parseProxy_spec h
    exact ⟨hport, hmin, hmax, hdefault, fun ha hm => hmade ha ⟨hm.length, hm.target⟩⟩
  case proxy =>
    obtain ⟨hport, hmin, hmax, hdefault, hmade⟩ := parseProxy_spec h
    exact ⟨hport, hmin, hmax, hdefault, hmade⟩
  case maxConnections =>
    simp only [parseDirective, syntaxStop] at h
    split_ifs at h
    rw [← Except.ok.inj h]
    exact ⟨rfl, rfl, (wrap32_cfgGetint s.cur).trans (if_pos rfl).symm, rfl,
      fun _ hm => ⟨hm.length, hm.target⟩⟩
  case minConnections =>
    simp only [parseDirective, syntaxStop] at h
    split_ifs at h
    rw [← Except.ok.inj h]
    exact ⟨rfl, (wrap32_cfgGetint s.cur).trans (if_pos rfl).symm, rfl, rfl,
      fun _ hm => ⟨hm.length, hm.target⟩⟩
  all_goals simp [parseDirective, syntaxStop] at h

/-- The semicolon changes nothing. -/
theorem parseStatement_effect {apply : Bool} {lex : CfgLex}
    {s s' : ParseState} (h : parseStatement resolve apply lex s = .ok s') :
    (⟨lex, s, s'⟩ : Directive).Effect apply := by
  unfold parseStatement syntaxStop at h
  cases hdir : parseDirective resolve apply lex s with
  | error e => simp [hdir] at h
  | ok t =>
    simp only [hdir] at h
    split_ifs at h
    rw [← Except.ok.inj h]
    obtain ⟨hports, hmin, hmax, hdefault, hmade⟩ := parseDirective_effect hdir
    refine ⟨hports, hmin, hmax, hdefault, fun ha hm => ?_⟩
    obtain ⟨hlength, htarget⟩ := hmade ha hm
    exact ⟨hlength, htarget⟩

/-! ## Texts -/

/-- The number of the last directive with a lexeme, and `init` where there is none. -/
def lastNumber (lex : CfgLex) (number : Directive → ℤ) (init : ℤ) (ds : List Directive) : ℤ :=
  ds.foldl (fun x d => if d.lex = lex then number d else x) init

/-- What the directives `ds` change from `s` to `s'`. -/
structure RunEffect (apply : Bool) (s : ParseState) (ds : List Directive) (s' : ParseState) :
    Prop where
  each : ∀ d ∈ ds, d.Effect apply
  ports : ∃ ts, s'.specs = s.specs ++ ts ∧
    List.Forall₂ (fun d t => t.port = wrap32 (Directive.written d) ∧ 1 ≤ t.port ∧ t.port ≤ 65535)
      (ds.filter Directive.isTarget) ts
  minConnections : s'.mc.minConnections =
    lastNumber .minConnections (fun d => wrap32 d.written) s.mc.minConnections ds
  maxConnections : s'.mc.maxConnections =
    lastNumber .maxConnections (fun d => wrap32 d.written) s.mc.maxConnections ds
  defaultClusterId : s'.mc.defaultClusterId =
    lastNumber .default (fun d => Int.bmod d.written (2 ^ 64)) s.mc.defaultClusterId ds
  made : apply = true → TargetsMade s → TargetsMade s'

theorem RunEffect.cons {apply : Bool} {d : Directive} {ds : List Directive} {s s' : ParseState}
    {cur : Bytes} (hd : d.Effect apply) (hbefore : d.before = { s with cur := cur })
    (h : RunEffect apply d.after ds s') : RunEffect apply s (d :: ds) s' := by
  have heach : ∀ e ∈ d :: ds, e.Effect apply := List.forall_mem_cons.mpr ⟨hd, h.each⟩
  obtain ⟨hports, hmin, hmax, hdefault, hmade⟩ := hd
  rw [hbefore] at hports hmin hmax hdefault hmade
  refine ⟨heach, ?_, ?_, ?_, ?_, ?_⟩
  · obtain ⟨ts, hts, hall⟩ := h.ports
    by_cases htarget : d.isTarget = true
    · rw [if_pos htarget] at hports
      obtain ⟨t, ht, hport⟩ := hports
      refine ⟨t :: ts, ?_, ?_⟩
      · rw [hts, ht, List.append_assoc]
        rfl
      · rw [List.filter_cons_of_pos htarget]
        exact hall.cons hport
    · rw [if_neg htarget] at hports
      refine ⟨ts, hts.trans (congrArg (· ++ ts) hports), ?_⟩
      rwa [List.filter_cons_of_neg htarget]
  · rw [h.minConnections, hmin]
    rfl
  · rw [h.maxConnections, hmax]
    rfl
  · rw [h.defaultClusterId, hdefault]
    rfl
  · intro ha hm
    exact h.made ha (hmade ha ⟨hm.length, hm.target⟩)

theorem RunEffect.nil (apply : Bool) (s : ParseState) (cur : Bytes) :
    RunEffect apply s [] { s with cur := cur } where
  each := by simp
  ports := ⟨[], (List.append_nil _).symm, .nil⟩
  minConnections := rfl
  maxConnections := rfl
  defaultClusterId := rfl
  made _ hm := ⟨hm.length, hm.target⟩

/-- **All directives**, by induction on the fuel. -/
theorem parseLoop_effect {apply : Bool} {n : ℕ}
    {s s' : ParseState} (h : parseLoop resolve apply n s = .ok s') :
    RunEffect apply s (directives resolve apply n s) s' := by
  induction n generalizing s with
  | zero => simp [parseLoop] at h
  | succ n ih =>
    rw [parseLoop] at h
    rw [directives]
    split_ifs at h ⊢
    · rw [← Except.ok.inj h]
      exact .nil apply s _
    · rw [← Except.ok.inj h]
      exact .nil apply s _
    · cases hst : parseStatement resolve apply (cfgGetlexExt (cfgSkipspc s.cur)).1
          { s with cur := (cfgGetlexExt (cfgSkipspc s.cur)).2 } with
      | error e => simp [hst] at h
      | ok t =>
        simp only [hst] at h
        exact .cons (parseStatement_effect hst) rfl (ih h)

/-- The directives of a text. -/
def textDirectives (resolve : Bytes → Option CfgHost) (apply : Bool) (mc : MfConfig)
    (tgts : ConnTargets) (text : Bytes) : List Directive :=
  directives resolve apply (text.length + 1) ⟨text, preinitConfig mc, tgts, false, []⟩

/-- The numbers of a configuration are those of the text: the ports of the targets in their
order, in both passes; what each directive stores; and what is stored in the end. -/
structure NumbersKept (apply : Bool) (ds : List Directive) (s : ParseState) : Prop where
  ports : List.Forall₂ (fun d t => t.port = Directive.written d ∧ 1 ≤ t.port ∧ t.port ≤ 65535)
    (ds.filter Directive.isTarget) s.specs
  made : apply = true → s.mc.totTargets = s.specs.length ∧
    ∀ (j : ℕ) (h : j < s.specs.length),
      ∃ t, s.mc.targets j = some t ∧ (s.tgts.info t).port = (s.specs[j]).port
  stores : ∀ d ∈ ds, d.Stores
  minConnections : s.mc.minConnections = lastNumber .minConnections Directive.written 4 ds
  maxConnections : s.mc.maxConnections = lastNumber .maxConnections Directive.written 8 ds
  defaultClusterId : s.mc.defaultClusterId = lastNumber .default Directive.written 0 ds

/-- What `parse_config` leaves of what the loop has changed. -/
theorem parseConfig_effect {apply : Bool} {mc : MfConfig}
    {tgts : ConnTargets} {text : Bytes} {s : ParseState}
    (h : parseConfig resolve apply mc tgts text = .ok s) :
    RunEffect apply ⟨text, preinitConfig mc, tgts, false, []⟩
      (textDirectives resolve apply mc tgts text) s := by
  unfold parseConfig at h
  cases hloop : parseLoop resolve apply (text.length + 1)
      ⟨text, preinitConfig mc, tgts, false, []⟩ with
  | error e => simp [hloop] at h
  | ok t =>
    have hrun := parseLoop_effect hloop
    simp only [hloop, parseFinish, syntaxStop] at h
    split_ifs at h
    rw [← Except.ok.inj h]
    refine ⟨hrun.each, hrun.ports, hrun.minConnections, hrun.maxConnections,
      hrun.defaultClusterId, fun ha hm => ?_⟩
    obtain ⟨hlength, htarget⟩ := hrun.made ha hm
    exact ⟨hlength, htarget⟩

/-! ## What is written and what is stored -/

theorem wrap32_eq_self_iff {x : ℤ} : wrap32 x = x ↔ IsInt32 x := by
  constructor
  · intro h
    rw [← h]
    exact isInt32_wrap32 x
  · exact wrap32_of_isInt32

theorem bmod64_eq_self_iff {x : ℤ} : Int.bmod x (2 ^ 64) = x ↔ -2 ^ 63 ≤ x ∧ x < 2 ^ 63 := by
  unfold Int.bmod
  norm_num
  split_ifs <;> omega

/-- Only the id of a default cluster has a sign. -/
theorem Directive.written_nonneg {d : Directive} (h : d.lex ≠ .default) : 0 ≤ d.written := by
  unfold written
  rw [if_neg h]
  split_ifs <;> exact Int.natCast_nonneg _

theorem Directive.wrap32_written {d : Directive} (h : d.lex ≠ .default) :
    wrap32 d.written = d.written ↔ d.written < 2 ^ 31 := by
  have hnonneg := d.written_nonneg h
  rw [wrap32_eq_self_iff, IsInt32]
  omega

theorem Directive.isTarget_lex {d : Directive} (h : d.isTarget = true) : d.lex ≠ .default := by
  intro hlex
  rw [isTarget, hlex] at h
  exact absurd h (by decide)

/-- A directive that stores what is written has written what fits. -/
theorem Directive.Effect.stores_iff {apply : Bool} {d : Directive} (h : d.Effect apply) :
    d.Stores ↔ (d.lex = .minConnections ∨ d.lex = .maxConnections → d.written < 2 ^ 31) ∧
      (d.lex = .default → -2 ^ 63 ≤ d.written ∧ d.written < 2 ^ 63) := by
  have hif (lex : CfgLex) (x y : ℤ) : (d.lex = lex → (if d.lex = lex then x else y) = d.written) ↔
      (d.lex = lex → x = d.written) := by
    refine forall_congr' fun hlex => ?_
    rw [if_pos hlex]
  have hmin : (d.lex = .minConnections → wrap32 d.written = d.written) ↔
      (d.lex = .minConnections → d.written < 2 ^ 31) :=
    forall_congr' fun hlex => d.wrap32_written (by rw [hlex]; decide)
  have hmax : (d.lex = .maxConnections → wrap32 d.written = d.written) ↔
      (d.lex = .maxConnections → d.written < 2 ^ 31) :=
    forall_congr' fun hlex => d.wrap32_written (by rw [hlex]; decide)
  unfold Stores
  rw [h.minConnections, h.maxConnections, h.defaultClusterId, hif, hif, hif, hmin, hmax,
    bmod64_eq_self_iff, or_imp, and_assoc]

/-- The last number does not depend on what the others are. -/
theorem lastNumber_congr {lex : CfgLex} {f g : Directive → ℤ} {ds : List Directive}
    (h : ∀ d ∈ ds, d.lex = lex → f d = g d) (init : ℤ) :
    lastNumber lex f init ds = lastNumber lex g init ds := by
  unfold lastNumber
  apply List.foldl_ext
  intro x d hd
  split_ifs with hlex
  · exact h d hd hlex
  · rfl

/-- **Configuration numbers.**  When a pass accepts a text, the ports of its targets are those
behind the colons and in `1..65535`, and every number of connections and every default cluster is
stored as it is written, exactly when no written port or number of connections is above what an
`int` holds and no written default cluster is outside a `long long`. -/
theorem configNumbers_iff (resolve : Bytes → Option CfgHost) (apply : Bool) (mc : MfConfig)
    (tgts : ConnTargets) (text : Bytes) (s : ParseState)
    (h : parseConfig resolve apply mc tgts text = .ok s) :
    NumbersKept apply (textDirectives resolve apply mc tgts text) s ↔
      ∀ d ∈ textDirectives resolve apply mc tgts text, d.Fits := by
  obtain ⟨heach, ⟨ts, hts, hports⟩, hmin, hmax, hdefault, hmade⟩ := parseConfig_effect h
  generalize textDirectives resolve apply mc tgts text = ds at *
  rw [List.nil_append] at hts
  rw [← hts] at hports
  constructor
  · intro hkept d hd
    obtain ⟨hconnections, hid⟩ := (heach d hd).stores_iff.mp (hkept.stores d hd)
    refine ⟨?_, hid⟩
    rintro (htarget | hlex)
    · -- the port of the target is the number of its directive
      have hall : ∀ d ∈ ds.filter Directive.isTarget, d.written < 2 ^ 31 := by
        refine ((List.forall₂_and_left (R := fun _ _ => True) _ _).mp
          (hkept.ports.imp (fun d t hdt => ⟨?_, trivial⟩))).1
        omega
      exact hall d (List.mem_filter.mpr ⟨hd, htarget⟩)
    · exact hconnections hlex
  · intro hfits
    have hstores : ∀ d ∈ ds, d.Stores := by
      intro d hd
      obtain ⟨hconnections, hid⟩ := hfits d hd
      exact (heach d hd).stores_iff.mpr ⟨fun hlex => hconnections (Or.inr hlex), hid⟩
    have hconnections : ∀ d ∈ ds, d.lex = .minConnections ∨ d.lex = .maxConnections →
        wrap32 d.written = d.written := by
      intro d hd hlex
      refine (d.wrap32_written ?_).mpr ((hfits d hd).1 (Or.inr hlex))
      rcases hlex with hlex | hlex <;> rw [hlex] <;> decide
    refine ⟨?_, fun ha => ?_, hstores, ?_, ?_, ?_⟩
    · have hwritten : ∀ d ∈ ds.filter Directive.isTarget, wrap32 d.written = d.written := by
        intro d hd
        obtain ⟨hmem, htarget⟩ := List.mem_filter.mp hd
        exact (d.wrap32_written (d.isTarget_lex htarget)).mpr ((hfits d hmem).1 (Or.inl htarget))
      exact ((List.forall₂_and_left _ _).mpr ⟨hwritten, hports⟩).imp
        (fun d t hdt => ⟨hdt.2.1.trans hdt.1, hdt.2.2⟩)
    · obtain ⟨hlength, htarget⟩ := hmade ha ⟨rfl, fun j hj => absurd hj (Nat.not_lt_zero j)⟩
      refine ⟨hlength.symm, fun j hj => ?_⟩
      obtain ⟨t, ht, -, hkey⟩ := htarget j hj
      exact ⟨t, ht, congrArg (fun key => key.2.2) hkey⟩
    · rw [hmin]
      exact lastNumber_congr (fun d hd hlex => hconnections d hd (Or.inl hlex)) 4
    · rw [hmax]
      exact lastNumber_congr (fun d hd hlex => hconnections d hd (Or.inr hlex)) 8
    · rw [hdefault]
      exact lastNumber_congr (fun d hd hlex => bmod64_eq_self_iff.mpr ((hfits d hd).2 hlex)) 0

/-- A target whose port is above what an `int` holds. -/
def wrappedPort : Bytes := "proxy 10.0.0.1:4294967739;\n".toUTF8.toList

/-- The port in the text is 4294967739, and the one that is stored is 443. -/
theorem configNumbers_wrappedPort :
    ∃ s, parseConfig twoHosts false .zero .empty wrappedPort = .ok s ∧
      s.specs.map (·.port) = [443] ∧
      (textDirectives twoHosts false .zero .empty wrappedPort).map Directive.written
        = [4294967739] ∧
      ¬ NumbersKept false (textDirectives twoHosts false .zero .empty wrappedPort) s := by
  have hport : (parseConfig twoHosts false .zero .empty wrappedPort).toOption.map
      (fun s => s.specs.map (·.port)) = some [443] := by decide +kernel
  have hwritten : (textDirectives twoHosts false .zero .empty wrappedPort).map Directive.written
      = [4294967739] := by decide +kernel
  have htarget : (textDirectives twoHosts false .zero .empty wrappedPort).map Directive.isTarget
      = [true] := by decide +kernel
  cases h : parseConfig twoHosts false .zero .empty wrappedPort with
  | error e =>
    rw [h] at hport
    simp [Except.toOption] at hport
  | ok s =>
    rw [h] at hport
    have hports : s.specs.map (·.port) = [443] := Option.some.inj hport
    refine ⟨s, rfl, hports, hwritten, fun hkept => ?_⟩
    obtain ⟨d, hd, hdtarget⟩ := List.map_eq_singleton_iff.mp htarget
    rw [hd, List.map_singleton, List.cons.injEq] at hwritten
    obtain ⟨t, ht, htport⟩ := List.map_eq_singleton_iff.mp hports
    have hone := hkept.ports
    rw [hd, ht, List.filter_cons_of_pos hdtarget, List.filter_nil] at hone
    cases hone with
    | cons hsame _ =>
      rw [htport, hwritten.1] at hsame
      exact absurd hsame.1 (by decide)

/-- Every number of the two clusters fits, and so the ports and the default cluster are kept. -/
theorem configNumbers_iff_twoClusters :
    ∃ s, parseConfig twoHosts true .zero .empty twoClusters = .ok s ∧
      (textDirectives twoHosts true .zero .empty twoClusters).map Directive.written
        = [2, 8888, 443, 443] ∧
      NumbersKept true (textDirectives twoHosts true .zero .empty twoClusters) s ∧
      s.specs.map (·.port) = [8888, 443, 443] ∧ s.mc.defaultClusterId = 2 := by
  have happly : (parseConfig twoHosts true .zero .empty twoClusters).toOption.map
      (fun s => (s.specs.map (·.port), s.mc.defaultClusterId)) = some ([8888, 443, 443], 2) := by
    decide +kernel
  have hfits : ∀ d ∈ textDirectives twoHosts true .zero .empty twoClusters, d.Fits := by
    decide +kernel
  have hwritten : (textDirectives twoHosts true .zero .empty twoClusters).map Directive.written
      = [2, 8888, 443, 443] := by decide +kernel
  cases h : parseConfig twoHosts true .zero .empty twoClusters with
  | error e =>
    rw [h] at happly
    simp [Except.toOption] at happly
  | ok s =>
    rw [h] at happly
    have hstored := Prod.mk.inj (Option.some.inj happly)
    have hkept := (configNumbers_iff twoHosts true .zero .empty twoClusters s h).mpr hfits
    exact ⟨s, rfl, hwritten, hkept, hstored.1, hstored.2⟩

end MtprotoProxy
