/-
# Machines that read their input in blocks

A machine gets its input in blocks.  A step looks at the rest of the block, takes some of it
and goes to another state, or fails; the machine steps until the block is used up or the state
is one it halts in.

`CutLaw` says of the steps what makes the cuts between the blocks invisible: a step that finds
a longer block either does what it did, or uses up the shorter one and does what the next step
would do with the rest.  A machine may also get lost at a cut, and then it stays lost.
`runBlocks_spec` says that the machine comes to an end, where it comes to on one block unless
it is lost, and keeps an invariant about what it has taken; `runBlocks_eq` is the consequence
where it cannot get lost.

This file names nothing of the proxy.
-/
import Mathlib

namespace BlockMachine

variable {σ α : Type*}

/-- Steps until the block is used up or the state is halted. -/
def runBlock (step : σ → List α → Option (σ × List α)) (halted : σ → Bool) :
    ℕ → σ → List α → Option (σ × List α)
  | 0, s, bs => if bs.isEmpty || halted s then some (s, bs) else none
  | n + 1, s, bs =>
    if bs.isEmpty || halted s then some (s, bs)
    else (step s bs).bind (fun out => runBlock step halted n out.1 out.2)

/-- Block after block; what is left over comes second. -/
def runBlocks (step : σ → List α → Option (σ × List α)) (halted : σ → Bool) (fuel : List α → ℕ) :
    σ → List (List α) → Option (σ × List α)
  | s, [] => some (s, [])
  | s, b :: bs => do
    let (s', rest) ← runBlock step halted (fuel b) s b
    if halted s' then some (s', rest ++ bs.flatten) else runBlocks step halted fuel s' bs

variable (step : σ → List α → Option (σ × List α)) (halted : σ → Bool)

/-- The law of a step from a state `s` that has the invariant, with `pre` taken and the block
`a` to take from, when `b` comes behind that block.  The rank goes down where nothing is
taken. -/
structure CutLaw (I : List α → σ → Prop) (Lost : σ → Prop) (content : List α) (rank : σ → ℕ) :
    Prop where
  lost : ∀ pre s a s' r, I pre s → Lost s → halted s = false → step s a = some (s', r) → Lost s'
  step : ∀ pre s a b, I pre s → a ≠ [] → halted s = false → pre ++ (a ++ b) <+: content →
    ∃ s' x r, a = x ++ r ∧ step s a = some (s', r) ∧ I (pre ++ x) s' ∧
      (x = [] → rank s' < rank s) ∧
      (step s (a ++ b) = some (s', r ++ b) ∨
        r = [] ∧ halted s' = false ∧ (b ≠ [] → step s (a ++ b) = step s' b) ∨ Lost s')

variable {step halted} {I : List α → σ → Prop} {Lost : σ → Prop} {content : List α}
  {rank : σ → ℕ} {R : ℕ}

theorem runBlock_stop {s : σ} {bs : List α} (h : bs = [] ∨ halted s = true) (n : ℕ) :
    runBlock step halted n s bs = some (s, bs) := by
  have hstop : (bs.isEmpty || halted s) = true := by
    rcases h with rfl | h
    · rfl
    · rw [h, Bool.or_true]
  cases n with
  | zero => exact if_pos hstop
  | succ n => exact if_pos hstop

theorem runBlock_succ {s : σ} {bs : List α} (hne : bs ≠ []) (hgo : halted s = false) (n : ℕ) :
    runBlock step halted (n + 1) s bs
      = (step s bs).bind (fun out => runBlock step halted n out.1 out.2) := by
  have hempty : bs.isEmpty = false := by
    rwa [Bool.eq_false_iff, ne_eq, List.isEmpty_iff]
  rw [runBlock, hempty, hgo]
  rfl

/-- More fuel changes nothing. -/
theorem runBlock_mono {n m : ℕ} (hle : n ≤ m) {s : σ} {bs : List α} {out : σ × List α}
    (h : runBlock step halted n s bs = some out) : runBlock step halted m s bs = some out := by
  induction n generalizing m s bs with
  | zero =>
    rw [runBlock] at h
    split_ifs at h with hstop
    rw [← h]
    refine runBlock_stop ?_ m
    rwa [Bool.or_eq_true, List.isEmpty_iff] at hstop
  | succ n ih =>
    obtain ⟨m, rfl⟩ := Nat.exists_eq_add_of_le' (Nat.le_trans (Nat.succ_le_succ n.zero_le) hle)
    rw [runBlock] at h ⊢
    split_ifs at h ⊢
    · exact h
    · obtain ⟨next, hstep, hrest⟩ := Option.bind_eq_some_iff.mp h
      rw [hstep]
      exact ih (by omega) hrest

/-- The rank of a state and the length of what it has to take. -/
def work (rank : σ → ℕ) (R : ℕ) (s : σ) (bs : List α) : ℕ := (R + 1) * bs.length + rank s

/-- **The machine comes to an end on a block.** -/
theorem runBlock_total (hlaw : CutLaw step halted I Lost content rank) (hrank : ∀ s, rank s ≤ R)
    (n : ℕ) {pre a : List α} {s : σ} (hI : I pre s) (hpre : pre ++ a <+: content)
    (hn : work rank R s a ≤ n) :
    ∃ s' x r, a = x ++ r ∧ runBlock step halted n s a = some (s', r) ∧ I (pre ++ x) s' ∧
      (r = [] ∨ halted s' = true) ∧ (Lost s → Lost s') := by
  induction n generalizing pre a s with
  | zero =>
    have hnil : a = [] := by
      unfold work at hn
      by_contra hne
      have hpos := List.length_pos_iff.mpr hne
      have := Nat.mul_le_mul_left (R + 1) hpos
      omega
    subst hnil
    exact ⟨s, [], [], rfl, runBlock_stop (Or.inl rfl) 0, by rwa [List.append_nil], Or.inl rfl, id⟩
  | succ n ih =>
    by_cases hstop : a = [] ∨ halted s = true
    · exact ⟨s, [], a, rfl, runBlock_stop hstop _, by rwa [List.append_nil], hstop, id⟩
    · push Not at hstop
      obtain ⟨hne, hgo⟩ := hstop
      rw [ne_eq, Bool.not_eq_true] at hgo
      obtain ⟨s₁, x, r, rfl, hstep, hI₁, hdown, -⟩ :=
        hlaw.step pre s a [] hI hne hgo (by rwa [List.append_nil])
      have hwork : work rank R s₁ r ≤ n := by
        unfold work at hn ⊢
        rw [List.length_append, Nat.mul_add] at hn
        by_cases hx : x = []
        · have := hdown hx
          omega
        · have hpos := Nat.mul_le_mul_left (R + 1) (List.length_pos_iff.mpr hx)
          have := hrank s₁
          omega
      obtain ⟨s', y, r', rfl, hrun, hI', hend, hlost⟩ :=
        ih hI₁ (by rwa [List.append_assoc]) hwork
      refine ⟨s', x ++ y, r', (List.append_assoc x y r').symm, ?_,
        by rwa [← List.append_assoc], hend,
        fun h => hlost (hlaw.lost pre s _ s₁ _ hI h hgo hstep)⟩
      rw [runBlock_succ hne hgo, hstep]
      exact hrun

theorem runBlock_unique {n m : ℕ} {s : σ} {bs : List α} {out out' : σ × List α}
    (h : runBlock step halted n s bs = some out) (h' : runBlock step halted m s bs = some out') :
    out = out' := by
  have hn := runBlock_mono (Nat.le_max_left n m) h
  have hm := runBlock_mono (Nat.le_max_right n m) h'
  exact Option.some.inj (hn.symm.trans hm)

theorem runBlock_lost (hlaw : CutLaw step halted I Lost content rank) (hrank : ∀ s, rank s ≤ R)
    {n : ℕ} {pre a r : List α} {s s' : σ} (hI : I pre s) (hpre : pre ++ a <+: content)
    (hlost : Lost s) (hrun : runBlock step halted n s a = some (s', r)) : Lost s' := by
  obtain ⟨s₁, x, r₁, -, hrun₁, -, -, hkeep⟩ :=
    runBlock_total hlaw hrank (work rank R s a) hI hpre le_rfl
  obtain ⟨rfl, rfl⟩ := Prod.mk.inj (runBlock_unique hrun₁ hrun)
  exact hkeep hlost

/-- **A block that goes on** is gone on with from where the machine stopped, unless it is lost
there. -/
theorem runBlock_append (hlaw : CutLaw step halted I Lost content rank) {b : List α} {n : ℕ}
    {pre a r : List α} {s s' : σ} (hI : I pre s) (hpre : pre ++ (a ++ b) <+: content)
    (hrank : ∀ s, rank s ≤ R) (hrun : runBlock step halted n s a = some (s', r)) :
    Lost s' ∨
      (halted s' = true → ∃ m, runBlock step halted m s (a ++ b) = some (s', r ++ b)) ∧
      (halted s' = false → ∀ k out, runBlock step halted k s' b = some out →
        ∃ m, runBlock step halted m s (a ++ b) = some out) := by
  induction n generalizing pre a s with
  | zero =>
    rw [runBlock] at hrun
    split_ifs at hrun with hstop
    rw [Bool.or_eq_true, List.isEmpty_iff] at hstop
    obtain ⟨rfl, rfl⟩ := Prod.mk.inj (Option.some.inj hrun)
    refine Or.inr ⟨fun hhalt => ⟨0, runBlock_stop (Or.inr hhalt) 0⟩, ?_⟩
    intro hgo k out hout
    obtain rfl := hstop.resolve_right (by rw [hgo]; exact Bool.false_ne_true)
    exact ⟨k, hout⟩
  | succ n ih =>
    by_cases hstop : a = [] ∨ halted s = true
    · rw [runBlock_stop hstop] at hrun
      obtain ⟨rfl, rfl⟩ := Prod.mk.inj (Option.some.inj hrun)
      refine Or.inr ⟨fun hhalt => ⟨0, runBlock_stop (Or.inr hhalt) 0⟩, ?_⟩
      intro hgo k out hout
      obtain rfl := hstop.resolve_right (by rw [hgo]; exact Bool.false_ne_true)
      exact ⟨k, hout⟩
    push Not at hstop
    obtain ⟨hne, hgo⟩ := hstop
    rw [ne_eq, Bool.not_eq_true] at hgo
    have hne' : a ++ b ≠ [] := fun hb => hne (List.append_eq_nil_iff.mp hb).1
    obtain ⟨s₁, x, r₁, rfl, hstep, hI₁, -, hcut⟩ := hlaw.step pre s a b hI hne hgo hpre
    rw [runBlock_succ hne hgo, hstep] at hrun
    have hpre₁ : (pre ++ x) ++ (r₁ ++ b) <+: content := by
      rwa [List.append_assoc, ← List.append_assoc x]
    rcases hcut with hsame | ⟨rfl, hgo₁, hnext⟩ | hlost
    · -- the step does what it did
      rcases ih hI₁ hpre₁ hrun with hlost | ⟨hhalt, hcont⟩
      · exact Or.inl hlost
      refine Or.inr ⟨fun hh => ?_, fun hg k out hout => ?_⟩
      · obtain ⟨m, hm⟩ := hhalt hh
        refine ⟨m + 1, ?_⟩
        rw [runBlock_succ hne' hgo, hsame]
        exact hm
      · obtain ⟨m, hm⟩ := hcont hg k out hout
        refine ⟨m + 1, ?_⟩
        rw [runBlock_succ hne' hgo, hsame]
        exact hm
    · -- the block is used up, and the step goes on as the next one would
      have hstay : runBlock step halted n s₁ [] = some (s₁, []) := runBlock_stop (Or.inl rfl) n
      obtain ⟨rfl, rfl⟩ := Prod.mk.inj (Option.some.inj (hstay.symm.trans hrun))
      right
      constructor
      · intro hh
        rw [hgo₁] at hh
        exact absurd hh Bool.false_ne_true
      · intro _ k out hout
        by_cases hb : b = []
        · subst hb
          rw [runBlock_stop (Or.inl rfl)] at hout
          refine ⟨1, ?_⟩
          rw [runBlock_succ hne' hgo, List.append_nil, hstep, ← hout]
          show runBlock step halted 0 s₁ [] = some (s₁, [])
          exact runBlock_stop (Or.inl rfl) 0
        · refine ⟨k + 1, ?_⟩
          have hout' : runBlock step halted (k + 1) s₁ b = some out :=
            runBlock_mono (Nat.le_succ k) hout
          rw [runBlock_succ hb hgo₁] at hout'
          rw [runBlock_succ hne' hgo, hnext hb]
          exact hout'
    · -- a lost machine stays lost
      rw [← List.append_assoc] at hpre₁
      exact Or.inl (runBlock_lost hlaw hrank hI₁ ((List.prefix_append _ b).trans hpre₁) hlost hrun)

variable {fuel : List α → ℕ}

/-- **Blocks are read like what they contain.**  The machine comes to an end on the blocks, what
it took has the invariant, and it ends where it would on one block, or lost. -/
theorem runBlocks_spec (hlaw : CutLaw step halted I Lost content rank) (hrank : ∀ s, rank s ≤ R)
    (hfuel : ∀ b s, work rank R s b ≤ fuel b) (blocks : List (List α)) {pre : List α} {s : σ}
    (hI : I pre s) (hpre : pre ++ blocks.flatten <+: content) :
    ∃ s' x r, blocks.flatten = x ++ r ∧ runBlocks step halted fuel s blocks = some (s', r) ∧
      I (pre ++ x) s' ∧ (r = [] ∨ halted s' = true) ∧ (Lost s → Lost s') ∧
      (Lost s' ∨ ∃ m, runBlock step halted m s blocks.flatten = some (s', r)) := by
  induction blocks generalizing pre s with
  | nil =>
    exact ⟨s, [], [], rfl, rfl, by rwa [List.append_nil], Or.inl rfl, id,
      Or.inr ⟨0, runBlock_stop (Or.inl rfl) 0⟩⟩
  | cons b bs ih =>
    rw [List.flatten_cons] at hpre ⊢
    have hpre₁ : pre ++ b <+: content := by
      rw [← List.append_assoc] at hpre
      exact (List.prefix_append _ _).trans hpre
    obtain ⟨s₁, x, r, rfl, hrun, hI₁, hend, hkeep⟩ :=
      runBlock_total hlaw hrank (fuel b) hI hpre₁ (hfuel b s)
    have happend := runBlock_append hlaw hI hpre hrank hrun
    by_cases hhalt : halted s₁ = true
    · refine ⟨s₁, x, r ++ bs.flatten, List.append_assoc _ _ _, ?_, hI₁, Or.inr hhalt, hkeep,
        happend.imp_right (fun h => h.1 hhalt)⟩
      rw [runBlocks, hrun]
      exact if_pos hhalt
    · obtain rfl := hend.resolve_right hhalt
      rw [List.append_nil] at hpre hrun happend ⊢
      rw [← List.append_assoc] at hpre
      obtain ⟨s', y, r', hy, hruns, hI', hend', hkeep', hone⟩ := ih hI₁ hpre
      refine ⟨s', x ++ y, r', ?_, ?_, by rwa [← List.append_assoc], hend',
        fun h => hkeep' (hkeep h), ?_⟩
      · rw [hy, List.append_assoc]
      · rw [runBlocks, hrun]
        exact (if_neg hhalt).trans hruns
      · rcases hone with hlost | ⟨m, hm⟩
        · exact Or.inl hlost
        · rcases happend with hlost | ⟨-, hcont⟩
          · exact Or.inl (hkeep' hlost)
          · exact Or.inr (hcont (Bool.eq_false_iff.mpr hhalt) m _ hm)

/-- **The cuts do not matter** to a machine that cannot get lost. -/
theorem runBlocks_eq (hlaw : CutLaw step halted I Lost content rank) (hnever : ∀ s, ¬ Lost s)
    (hrank : ∀ s, rank s ≤ R) (hfuel : ∀ b s, work rank R s b ≤ fuel b)
    {blocks blocks' : List (List α)} (hsame : blocks.flatten = blocks'.flatten) {pre : List α}
    {s : σ} (hI : I pre s) (hpre : pre ++ blocks.flatten <+: content) :
    runBlocks step halted fuel s blocks = runBlocks step halted fuel s blocks' := by
  obtain ⟨s₁, x₁, r₁, -, hrun₁, -, -, -, hone₁⟩ := runBlocks_spec hlaw hrank hfuel blocks hI hpre
  rw [hsame] at hpre hone₁
  obtain ⟨s₂, x₂, r₂, -, hrun₂, -, -, -, hone₂⟩ := runBlocks_spec hlaw hrank hfuel blocks' hI hpre
  obtain ⟨m₁, hm₁⟩ := hone₁.resolve_left (hnever s₁)
  obtain ⟨m₂, hm₂⟩ := hone₂.resolve_left (hnever s₂)
  rw [hrun₁, hrun₂, runBlock_unique hm₁ hm₂]

/-! ## Where a block ends -/

variable (step halted) in
/-- On the block `bs` the machine halts, and `P` holds of the state and the rest. -/
def Ends (P : σ → List α → Prop) (s : σ) (bs : List α) : Prop :=
  ∃ n s' r, runBlock step halted n s bs = some (s', r) ∧ halted s' = true ∧ P s' r

variable (step halted) in
/-- The machine halts behind a step. -/
def EndsOf (P : σ → List α → Prop) (out : Option (σ × List α)) : Prop :=
  ∃ s r, out = some (s, r) ∧ Ends step halted P s r

variable {P : σ → List α → Prop}

theorem ends_of_halted {s : σ} {bs : List α} (h : halted s = true) (hP : P s bs) :
    Ends step halted P s bs :=
  ⟨0, s, bs, runBlock_stop (Or.inr h) 0, h, hP⟩

theorem ends_iff {s : σ} {bs : List α} (hne : bs ≠ []) (hgo : halted s = false) :
    Ends step halted P s bs ↔ EndsOf step halted P (step s bs) := by
  constructor
  · rintro ⟨n, s', r, hrun, hhalt, hP⟩
    have hrun' := runBlock_mono (Nat.le_succ n) hrun
    rw [runBlock_succ hne hgo] at hrun'
    obtain ⟨out, hstep, hrest⟩ := Option.bind_eq_some_iff.mp hrun'
    exact ⟨out.1, out.2, hstep, n, s', r, hrest, hhalt, hP⟩
  · rintro ⟨s₁, r₁, hstep, n, s', r, hrun, hhalt, hP⟩
    refine ⟨n + 1, s', r, ?_, hhalt, hP⟩
    rw [runBlock_succ hne hgo, hstep]
    exact hrun

/-- A lost machine that halts at its next step halts where there is something to read. -/
theorem runBlocks_halts_lost (hdead : ∀ s a, Lost s → halted s = false → a ≠ [] →
      ∃ s' r, step s a = some (s', r) ∧ halted s' = true)
    (hpos : ∀ b, 0 < fuel b) (blocks : List (List α)) {s : σ} (hlost : Lost s)
    (hne : blocks.flatten ≠ []) :
    ∃ s' r, runBlocks step halted fuel s blocks = some (s', r) ∧ halted s' = true := by
  induction blocks with
  | nil => exact absurd rfl hne
  | cons b bs ih =>
    by_cases hstop : halted s = true
    · refine ⟨s, b ++ bs.flatten, ?_, hstop⟩
      rw [runBlocks, runBlock_stop (Or.inr hstop)]
      exact if_pos hstop
    by_cases hb : b = []
    · subst hb
      obtain ⟨s', r, hrun, hhalt⟩ := ih (by simpa using hne)
      refine ⟨s', r, ?_, hhalt⟩
      rw [runBlocks, runBlock_stop (Or.inl rfl)]
      exact (if_neg hstop).trans hrun
    · have hgo : halted s = false := Bool.eq_false_iff.mpr hstop
      obtain ⟨s', r, hstep, hhalt⟩ := hdead s b hlost hgo hb
      obtain ⟨n, hn⟩ := Nat.exists_eq_add_of_lt (hpos b)
      refine ⟨s', r ++ bs.flatten, ?_, hhalt⟩
      rw [runBlocks, hn, Nat.zero_add, runBlock_succ hb hgo, hstep, Option.bind_some,
        runBlock_stop (Or.inr hhalt)]
      exact if_pos hhalt

/-- **A machine that halts on one block halts on blocks**, when it halts at its next step once it
is lost. -/
theorem runBlocks_halts (hlaw : CutLaw step halted I Lost content rank) (hrank : ∀ s, rank s ≤ R)
    (hfuel : ∀ b s, work rank R s b ≤ fuel b) (hpos : ∀ b, 0 < fuel b)
    (hdead : ∀ s a, Lost s → halted s = false → a ≠ [] →
      ∃ s' r, step s a = some (s', r) ∧ halted s' = true)
    (blocks : List (List α)) {pre : List α} {s : σ} (hI : I pre s)
    (hpre : pre ++ blocks.flatten <+: content)
    (hone : Ends step halted (fun _ _ => True) s blocks.flatten) :
    ∃ s' r, runBlocks step halted fuel s blocks = some (s', r) ∧ halted s' = true := by
  induction blocks generalizing pre s with
  | nil =>
    obtain ⟨n, s', r, hrun, hhalt, -⟩ := hone
    rw [List.flatten_nil, runBlock_stop (Or.inl rfl)] at hrun
    obtain ⟨rfl, rfl⟩ := Prod.mk.inj (Option.some.inj hrun)
    exact ⟨s, [], rfl, hhalt⟩
  | cons b bs ih =>
    rw [List.flatten_cons] at hpre hone
    have hpre₁ : pre ++ b <+: content := by
      rw [← List.append_assoc] at hpre
      exact (List.prefix_append _ _).trans hpre
    obtain ⟨s₁, x, r, rfl, hrun, hI₁, hend, -⟩ :=
      runBlock_total hlaw hrank (fuel b) hI hpre₁ (hfuel b s)
    by_cases hhalt : halted s₁ = true
    · refine ⟨s₁, r ++ bs.flatten, ?_, hhalt⟩
      rw [runBlocks, hrun]
      exact if_pos hhalt
    obtain rfl := hend.resolve_right hhalt
    have hruns : runBlocks step halted fuel s ((x ++ []) :: bs)
        = runBlocks step halted fuel s₁ bs := by
      rw [runBlocks, hrun]
      exact if_neg hhalt
    rw [hruns]
    obtain ⟨n, s', r', hrun', hhalt', -⟩ := hone
    by_cases hmore : bs.flatten = []
    · -- nothing comes behind the block, and it is the one block
      rw [hmore, List.append_nil] at hrun'
      obtain ⟨rfl, -⟩ := Prod.mk.inj (runBlock_unique hrun hrun')
      exact absurd hhalt' hhalt
    · rcases runBlock_append hlaw hI hpre hrank hrun with hlost | ⟨-, hcont⟩
      · exact runBlocks_halts_lost hdead hpos bs hlost hmore
      · rw [List.append_nil] at hpre hcont hrun'
        rw [← List.append_assoc] at hpre
        apply ih hI₁ hpre
        obtain ⟨s₂, y, r₂, hy, hrun₂, -⟩ :=
          runBlock_total hlaw hrank (work rank R s₁ bs.flatten) hI₁ hpre le_rfl
        obtain ⟨m, hm⟩ := hcont (Bool.eq_false_iff.mpr hhalt) _ _ hrun₂
        obtain ⟨rfl, rfl⟩ := Prod.mk.inj (runBlock_unique hm hrun')
        exact ⟨_, _, _, hrun₂, hhalt', trivial⟩

end BlockMachine
