/-
# Loading the hosts table

In a plain file every line is read as it is written.  `strtoul` skips the end of a line of spaces,
but what it finds there is the number at which the next line starts.  So both passes over the file
visit the hosts of its lines in their order, and the table holds the first host for each name.

Other files are misread: `lookup_fails` shows a line that is lost, a line that runs into the next
one, a name whose index is negative, a line behind blanks, and a line for the address 0.0.0.0.
-/
import MtprotoProxy.HostsHash

namespace MtprotoProxy

open CLib OpenAddressing

/-! ## Pointers in a line -/

/-- What follows a line in the buffer: its end, or the end of the text. -/
def EndsLine (τ : Bytes) : Prop := ∃ c τ', τ = c :: τ' ∧ (c = 0 ∨ c = 10)

/-- A text in a line. -/
def InLine (b : Bytes) : Prop := ∀ c ∈ b, c ≠ 0 ∧ c ≠ 10

theorem InLine.suffix {b b' : Bytes} (h : InLine b) (hb : b' <:+ b) : InLine b' :=
  fun c hc => h c (hb.subset hc)

/-- A test that fails at the end of a line splits what is before it. -/
theorem takeWhile_endsLine {q : UInt8 → Bool} (hzero : q 0 = false) (hline : q 10 = false)
    {τ : Bytes} (hτ : EndsLine τ) (b : Bytes) : (b ++ τ).takeWhile q = b.takeWhile q ∧
      (b ++ τ).dropWhile q = b.dropWhile q ++ τ := by
  induction b with
  | nil =>
    obtain ⟨c, τ', rfl, hc⟩ := hτ
    have hstop : ¬ q c = true := by
      rcases hc with rfl | rfl
      · rw [hzero]; exact Bool.false_ne_true
      · rw [hline]; exact Bool.false_ne_true
    rw [List.nil_append, List.takeWhile_cons_of_neg hstop, List.dropWhile_cons_of_neg hstop]
    exact ⟨rfl, rfl⟩
  | cons c b ih =>
    rw [List.cons_append]
    by_cases hc : q c = true
    · rw [List.takeWhile_cons_of_pos hc, List.takeWhile_cons_of_pos hc,
        List.dropWhile_cons_of_pos hc, List.dropWhile_cons_of_pos hc, ih.1, ih.2]
      exact ⟨rfl, rfl⟩
    · rw [List.takeWhile_cons_of_neg hc, List.takeWhile_cons_of_neg hc,
        List.dropWhile_cons_of_neg hc, List.dropWhile_cons_of_neg hc]
      exact ⟨rfl, rfl⟩

theorem skipspc_eq {τ : Bytes} (hτ : EndsLine τ) (b : Bytes) :
    skipspc (b ++ τ) = some (b.dropWhile isBlank ++ τ) := by
  induction b with
  | nil =>
    obtain ⟨c, τ', rfl, rfl | rfl⟩ := hτ
    · rfl
    · rfl
  | cons c b ih =>
    rw [List.cons_append, skipspc]
    by_cases hc : isBlank c = true
    · rw [if_pos hc, ih, List.dropWhile_cons_of_pos hc]
    · rw [if_neg hc, List.dropWhile_cons_of_neg hc, List.cons_append]

theorem wordEnd_eq {τ : Bytes} (hτ : EndsLine τ) {b : Bytes} (hb : InLine b) :
    wordEnd (b ++ τ) = some (b.takeWhile (fun c => !isBlank c),
      b.dropWhile (fun c => !isBlank c) ++ τ) := by
  induction b with
  | nil =>
    obtain ⟨c, τ', rfl, rfl | rfl⟩ := hτ
    · rfl
    · rfl
  | cons c b ih =>
    obtain ⟨hzero, hline⟩ := hb c List.mem_cons_self
    rw [List.cons_append, wordEnd, ih (hb.suffix (List.suffix_cons c b))]
    by_cases hc : isBlank c = true
    · rw [if_pos (Or.inr (Or.inl hc)), List.takeWhile_cons_of_neg (by rw [hc]; simp),
        List.dropWhile_cons_of_neg (by rw [hc]; simp), List.cons_append]
    · have hword : (!isBlank c) = true := by rw [Bool.not_eq_true', ← Bool.not_eq_true]; exact hc
      rw [if_neg (by rintro (h | h | h) <;> contradiction),
        List.takeWhile_cons_of_pos (p := fun c => !isBlank c) hword,
        List.dropWhile_cons_of_pos (p := fun c => !isBlank c) hword]
      rfl

theorem skiptoeoln_eq {b : Bytes} (hb : InLine b) (τ : Bytes) :
    skiptoeoln (b ++ τ) = skiptoeoln τ := by
  induction b with
  | nil => rfl
  | cons c b ih =>
    obtain ⟨hzero, hline⟩ := hb c List.mem_cons_self
    rw [List.cons_append, skiptoeoln, if_neg hzero, if_neg hline,
      ih (hb.suffix (List.suffix_cons c b))]

/-! ## The words of a line -/

/-- The hosts are visited in their order. -/
def visitHosts (mode : Bool) (R : ResolverConf) (L : List Host) : Option ResolverConf :=
  L.foldlM (fun R H => visitWord mode R H.name H.ip) R

theorem visitHosts_append (mode : Bool) (R : ResolverConf) (L L' : List Host) :
    visitHosts mode R (L ++ L') = (visitHosts mode R L).bind (fun R => visitHosts mode R L') := by
  unfold visitHosts
  rw [List.foldlM_append]
  rfl

theorem visitHosts_false (R : ResolverConf) (L : List Host) : visitHosts false R L = some R := by
  induction L with
  | nil => rfl
  | cons H L ih => exact ih

/-- The hosts of an address and of words. -/
def wordHosts (ip : ℕ) (words : List Bytes) : List Host :=
  (words.filter (fun w => w.length < 128)).map (fun w => ⟨ip, w⟩)

theorem wordHosts_cons_of_lt (ip : ℕ) {w : Bytes} (hw : w.length < 128) (words : List Bytes) :
    wordHosts ip (w :: words) = ⟨ip, w⟩ :: wordHosts ip words := by
  unfold wordHosts
  rw [List.filter_cons, if_pos (decide_eq_true hw), List.map_cons]

theorem wordHosts_cons_of_ge (ip : ℕ) {w : Bytes} (hw : ¬ w.length < 128) (words : List Bytes) :
    wordHosts ip (w :: words) = wordHosts ip words := by
  unfold wordHosts
  rw [List.filter_cons, if_neg (by rw [decide_eq_true_eq]; exact hw)]

/-- **The loop over the words** visits those of less than 128 bytes. -/
theorem wordLoop_eq (mode : Bool) (ip : ℕ) {τ : Bytes} (hτ : EndsLine τ) {fuel : ℕ} {b : Bytes}
    (hb : InLine b) (hfuel : b.length < fuel) (R : ResolverConf) (ans : ℕ) :
    wordLoop mode ip fuel R (b ++ τ) ans
      = (visitHosts mode R (wordHosts ip (strtok isBlank b))).map
          (fun R' => (R', τ, ans + (wordHosts ip (strtok isBlank b)).length)) := by
  induction fuel generalizing b R ans with
  | zero => exact absurd hfuel (Nat.not_lt_zero _)
  | succ fuel ih =>
    have hsuffix := List.dropWhile_suffix isBlank (l := b)
    have hword : getword (b ++ τ) = some ((b.dropWhile isBlank).takeWhile (fun c => !isBlank c),
        (b.dropWhile isBlank).dropWhile (fun c => !isBlank c) ++ τ) := by
      unfold getword
      rw [skipspc_eq hτ]
      exact wordEnd_eq hτ (hb.suffix hsuffix)
    unfold wordLoop
    simp only [hword, some_bind, Option.pure_def]
    rw [← strtok_dropWhile]
    obtain ⟨c, hc⟩ : ∃ c, b.dropWhile isBlank = c := ⟨_, rfl⟩
    rw [hc] at hsuffix ⊢
    by_cases hnil : c.takeWhile (fun c => !isBlank c) = []
    · have hempty : c = [] := by
        cases c with
        | nil => rfl
        | cons x c =>
          have hhead := List.head_dropWhile_not isBlank
            (show b.dropWhile isBlank ≠ [] by rw [hc]; exact List.cons_ne_nil _ _)
          simp only [hc, List.head_cons] at hhead
          rw [List.takeWhile_cons_of_pos (by rw [hhead]; rfl)] at hnil
          cases hnil
      rw [if_pos hnil, hempty]
      rfl
    · have hsplit := congrArg List.length
        (List.takeWhile_append_dropWhile (p := fun c => !isBlank c) (l := c))
      rw [List.length_append] at hsplit
      have hpos := List.length_pos_iff.mpr hnil
      have hle := hsuffix.length_le
      have hrest := hb.suffix ((List.dropWhile_suffix (fun c => !isBlank c)).trans hsuffix)
      have hshort : (c.dropWhile (fun c => !isBlank c)).length < fuel := by omega
      rw [if_neg hnil, strtok_word _ hnil]
      by_cases hlen : (c.takeWhile (fun c => !isBlank c)).length < 128
      · rw [if_pos hlen, wordHosts_cons_of_lt ip hlen, visitHosts, List.foldlM_cons]
        cases hvisit : visitWord mode R (c.takeWhile (fun c => !isBlank c)) ip with
        | none => rfl
        | some R' =>
          show wordLoop mode ip fuel R' _ (ans + 1) = _
          rw [ih hrest hshort R' (ans + 1), List.length_cons, Nat.add_right_comm]
          rfl
      · rw [if_neg hlen, wordHosts_cons_of_ge ip hlen]
        exact ih hrest hshort R ans

/-! ## The address -/

/-- `readbyte` at a number. -/
theorem readbyte_of_digit {s : Bytes} (h : s.takeWhile isDigit ≠ [])
    (hle : decValue (s.takeWhile isDigit) ≤ 255) :
    readbyte s = some (decValue (s.takeWhile isDigit), s.dropWhile isDigit) := by
  have hsplit := congrArg List.length (List.takeWhile_append_dropWhile (p := isDigit) (l := s))
  rw [List.length_append] at hsplit
  have hpos := List.length_pos_iff.mpr h
  have hval : min (decValue (s.takeWhile isDigit)) (2 ^ 64 - 1) % 2 ^ 32
      = decValue (s.takeWhile isDigit) := by
    rw [min_eq_left (by omega), Nat.mod_eq_of_lt (by omega)]
  have hne : s.dropWhile isDigit ≠ s := by
    intro heq
    rw [heq] at hsplit
    omega
  unfold readbyte
  rw [strtoul_of_digit h]
  dsimp only
  rw [hval, if_neg (by rintro (heq | hbig); exacts [hne heq, absurd hle (not_le.mpr hbig)])]

/-- A byte more in an address that has room for it. -/
theorem shift_or {ip res n : ℕ} (hip : (ip + 1) * 256 ^ (n + 1) ≤ 2 ^ 32) (hres : res ≤ 255) :
    (ip <<< 8) % 2 ^ 32 ||| res = ip * 256 + res := by
  have hpow : 0 < 256 ^ n := Nat.pow_pos (by norm_num)
  have hlt : (ip + 1) * 256 ≤ 2 ^ 32 := by
    calc (ip + 1) * 256 ≤ (ip + 1) * 256 * 256 ^ n := Nat.le_mul_of_pos_right _ hpow
      _ = (ip + 1) * 256 ^ (n + 1) := by ring
      _ ≤ 2 ^ 32 := hip
  have hshift : ip <<< 8 = ip * 256 := Nat.shiftLeft_eq ip 8
  rw [Nat.mod_eq_of_lt (by omega), ← Nat.shiftLeft_add_eq_or_of_lt (by omega), hshift]

/-- The number at a place of a plain line. -/
theorem readbyte_plain {τ : Bytes} (hτ : EndsLine τ) {n : ℕ} {b : Bytes}
    (hplain : plainBytes (n + 1) (b ++ τ) = true) :
    ((b.takeWhile isDigit = [] ∨ 255 < decValue (b.takeWhile isDigit)) ∧
      readbyte (b ++ τ) = none) ∨
    (¬ (b.takeWhile isDigit = [] ∨ 255 < decValue (b.takeWhile isDigit)) ∧
      readbyte (b ++ τ) = some (decValue (b.takeWhile isDigit), b.dropWhile isDigit ++ τ) ∧
      (n = 0 ∨ ∃ c t, b.dropWhile isDigit = c :: t ∧
        (c = 46 → plainBytes n (t ++ τ) = true))) := by
  obtain ⟨htake, hdrop⟩ := takeWhile_endsLine (q := isDigit) (by decide) (by decide) hτ b
  unfold plainBytes at hplain
  simp only [htake, hdrop] at hplain
  by_cases hbad : b.takeWhile isDigit = [] ∨ 255 < decValue (b.takeWhile isDigit)
  · left
    rw [if_pos hbad, Option.isNone_iff_eq_none] at hplain
    exact ⟨hbad, hplain⟩
  · right
    rw [if_neg hbad, Bool.or_eq_true, decide_eq_true_eq] at hplain
    push Not at hbad
    have hread := readbyte_of_digit (s := b ++ τ) (by rw [htake]; exact hbad.1)
      (by rw [htake]; exact hbad.2)
    rw [htake, hdrop] at hread
    refine ⟨by push Not; exact hbad, hread, ?_⟩
    rcases hplain with hn | hnext
    · exact Or.inl hn
    · right
      cases hrest : b.dropWhile isDigit with
      | nil =>
        -- the line does not end here
        obtain ⟨c, τ', rfl, rfl | rfl⟩ := hτ
        · rw [hrest] at hnext
          exact absurd hnext (by simp)
        · rw [hrest] at hnext
          exact absurd hnext (by simp)
      | cons c t =>
        refine ⟨c, t, rfl, ?_⟩
        intro hdot
        rw [hrest, List.cons_append] at hnext
        dsimp only at hnext
        rwa [if_pos hdot] at hnext

theorem dottedBytes_suffix {n ip ip' : ℕ} {s t : Bytes} (h : dottedBytes n ip s = some (ip', t)) :
    t <:+ s := by
  induction n generalizing ip s with
  | zero =>
    obtain ⟨-, rfl⟩ := Prod.mk.inj (Option.some.inj h)
    exact List.suffix_rfl
  | succ n ih =>
    have hsuffix := List.dropWhile_suffix isDigit (l := s)
    rw [dottedBytes] at h
    dsimp only at h
    split_ifs at h with hbad hn
    · obtain ⟨-, rfl⟩ := Prod.mk.inj (Option.some.inj h)
      exact hsuffix
    · cases hrest : s.dropWhile isDigit with
      | nil =>
        rw [hrest] at h
        cases h
      | cons c t' =>
        rw [hrest] at h hsuffix
        dsimp only at h
        split_ifs at h with hdot
        exact (ih h).trans ((List.suffix_cons c t').trans hsuffix)

/-- **The loop that reads an address** in a plain line reads what is written there. -/
theorem readAddress_eq {τ : Bytes} (hτ : EndsLine τ) {n : ℕ} {b : Bytes} {ip : ℕ}
    (hip : (ip + 1) * 256 ^ (n + 1) ≤ 2 ^ 32) (hplain : plainBytes (n + 1) (b ++ τ) = true) :
    match dottedBytes (n + 1) ip b with
    | some (ip', t) => readAddress (n + 1) ip (b ++ τ) = some (true, ip', t ++ τ)
    | none => ∃ ip' t, readAddress (n + 1) ip (b ++ τ) = some (false, ip', t ++ τ) ∧ t <:+ b := by
  induction n generalizing b ip with
  | zero =>
    rw [dottedBytes, readAddress]
    rcases readbyte_plain hτ hplain with ⟨hbad, hread⟩ | ⟨hgood, hread, -⟩
    · rw [hread]
      simp only [if_pos hbad]
      exact ⟨ip, b, rfl, List.suffix_rfl⟩
    · have hval := shift_or hip (not_lt.mp (fun h => hgood (Or.inr h)))
      rw [hread]
      simp only [if_neg hgood, if_true, hval]
  | succ n ih =>
    rw [dottedBytes, readAddress]
    rcases readbyte_plain hτ hplain with ⟨hbad, hread⟩ | ⟨hgood, hread, hnext⟩
    · rw [hread]
      simp only [if_pos hbad]
      exact ⟨ip, b, rfl, List.suffix_rfl⟩
    · have hle := not_lt.mp (fun h => hgood (Or.inr h))
      have hval := shift_or hip hle
      have hsuffix := List.dropWhile_suffix isDigit (l := b)
      obtain ⟨c, t, hrest, hdot⟩ := hnext.resolve_left (Nat.succ_ne_zero n)
      rw [hrest] at hsuffix
      have ht : t <:+ b := (List.suffix_cons c t).trans hsuffix
      rw [hread, hrest]
      simp only [if_neg hgood, if_neg (Nat.succ_ne_zero n), hval, List.cons_append]
      by_cases hc : c = 46
      · have hroom : (ip * 256 + decValue (b.takeWhile isDigit) + 1) * 256 ^ (n + 1) ≤ 2 ^ 32 := by
          calc _ ≤ ((ip + 1) * 256) * 256 ^ (n + 1) := Nat.mul_le_mul_right _ (by omega)
            _ = (ip + 1) * 256 ^ (n + 1 + 1) := by ring
            _ ≤ 2 ^ 32 := hip
        have hrec := ih hroom (hdot hc)
        simp only [if_neg (not_not.mpr hc), if_pos hc]
        cases hd : dottedBytes (n + 1) (ip * 256 + decValue (b.takeWhile isDigit)) t with
        | none =>
          rw [hd] at hrec
          obtain ⟨ip', t', hrun, ht'⟩ := hrec
          exact ⟨ip', t', hrun, ht'.trans ht⟩
        | some r =>
          rw [hd] at hrec
          exact hrec
      · simp only [if_pos hc, if_neg hc]
        exact ⟨_, t, rfl, ht⟩

/-! ## A line -/

/-- What a line does, and where the next one starts. -/
def LineDone (mode : Bool) (R : ResolverConf) (l τ : Bytes) (ans : ℕ)
    (res : Option (ResolverConf × Bytes × ℕ)) : Prop :=
  ∃ b, InLine b ∧ res = (visitHosts mode R (lineHosts l)).map
    (fun R' => (R', b ++ τ, ans + (lineHosts l).length))

theorem lineHosts_eq (l : Bytes) :
    lineHosts l = (match hostsLine l with
      | none => []
      | some (ip, words) => wordHosts ip words) := rfl

theorem isSpace_of_isBlank {c : UInt8} (h : isBlank c = true) : isSpace c = true := by
  unfold isBlank at h
  rw [Bool.or_eq_true, beq_iff_eq, beq_iff_eq] at h
  rcases h with rfl | rfl
  · rfl
  · rfl

/-- A line that does not start with a digit has no hosts. -/
theorem hostsLine_eq_none {l : Bytes} (h : l.takeWhile isDigit = []) : hostsLine l = none := by
  unfold hostsLine
  rw [dottedBytes]
  simp only [h, true_or, if_true]
  rfl

/-- Blanks that are skipped do not matter for a line that counts. -/
theorem countedLine_spec {l : Bytes} (h : countedLine l = true) :
    hostsLine (l.dropWhile isBlank) = hostsLine l ∧
      ∀ ip names, hostsLine l = some (ip, names) → ip ≠ 0 := by
  unfold countedLine at h
  cases hline : hostsLine (l.dropWhile isBlank) with
  | none =>
    have hnone : hostsLine l = none := by
      by_cases hsame : l.dropWhile isBlank = l
      · rwa [hsame] at hline
      · apply hostsLine_eq_none
        cases l with
        | nil => rfl
        | cons c l =>
          apply List.takeWhile_cons_of_neg
          intro hdigit
          refine hsame (List.dropWhile_cons_of_neg (fun hblank => ?_))
          have hspace := isDigit_not_isSpace hdigit
          rw [isSpace_of_isBlank hblank] at hspace
          cases hspace
    rw [hnone]
    exact ⟨rfl, fun ip names h => by cases h⟩
  | some r =>
    obtain ⟨ip, names⟩ := r
    rw [hline] at h
    dsimp only at h
    rw [Bool.and_eq_true, beq_iff_eq, bne_iff_ne] at h
    obtain ⟨hsame, hip⟩ := h
    rw [hsame] at hline
    refine ⟨hline.symm, fun ip' names' heq => ?_⟩
    rw [hline] at heq
    obtain ⟨rfl, -⟩ := Prod.mk.inj (Option.some.inj heq)
    exact hip

/-- **A plain line** visits its hosts. -/
theorem parseLine_plain {τ : Bytes} (hτ : EndsLine τ) {l : Bytes} (hl : InLine l)
    (hplain : plainBytes 4 (l.dropWhile isBlank ++ τ) = true) (hcounted : countedLine l = true)
    (mode : Bool) (R : ResolverConf) (ans : ℕ) :
    LineDone mode R l τ ans (parseLine mode R (l ++ τ) ans) := by
  have hroom : (0 + 1) * 256 ^ (3 + 1) ≤ 2 ^ 32 := by norm_num
  have hread := readAddress_eq hτ hroom hplain
  have hsuffix := List.dropWhile_suffix isBlank (l := l)
  obtain ⟨hsame, hzero⟩ := countedLine_spec hcounted
  unfold LineDone parseLine
  rw [skipspc_eq hτ, lineHosts_eq, ← hsame]
  rw [← hsame] at hzero
  unfold hostsLine at hzero ⊢
  cases hd : dottedBytes 4 0 (l.dropWhile isBlank) with
  | none =>
    rw [hd] at hread
    obtain ⟨ip, t, hrun, ht⟩ := hread
    refine ⟨t, hl.suffix (ht.trans hsuffix), ?_⟩
    simp only [hrun, some_bind, true_or, if_true]
    rfl
  | some r =>
    obtain ⟨ip, t⟩ := r
    rw [hd] at hread
    have hrun : readAddress 4 0 (l.dropWhile isBlank ++ τ) = some (true, ip, t ++ τ) := hread
    have ht' := hl.suffix ((dottedBytes_suffix hd).trans hsuffix)
    have hhead : (t ++ τ).head?.any isBlank = t.head?.any isBlank := by
      cases t with
      | nil =>
        obtain ⟨c, τ', rfl, rfl | rfl⟩ := hτ
        · rfl
        · rfl
      | cons c t => rfl
    simp only [hrun, hhead, some_bind, Option.pure_def, Bool.true_eq_false, false_or]
    by_cases hhost : t.head?.any isBlank = true
    · refine ⟨[], List.forall_mem_nil _, ?_⟩
      simp only [hd, guard, if_pos hhost, some_bind] at hzero
      have hip : ip ≠ 0 := hzero _ _ rfl
      rw [if_neg (by rintro (h | h); exacts [absurd (hhost.symm.trans h) (by simp), hip h])]
      simp only [guard, if_pos hhost]
      exact wordLoop_eq mode ip hτ ht' (by rw [List.length_append]; omega) R ans
    · refine ⟨t, ht', ?_⟩
      rw [if_pos (Or.inl (Bool.eq_false_of_not_eq_true hhost))]
      simp only [guard, if_neg hhost]
      rfl

/-- A line of spaces has no hosts. -/
theorem lineHosts_spaces {l : Bytes} (hspace : ∀ c ∈ l, isSpace c = true) : lineHosts l = [] := by
  have hdigits : l.takeWhile isDigit = [] := by
    cases l with
    | nil => rfl
    | cons c t =>
      apply List.takeWhile_cons_of_neg
      intro hdigit
      exact absurd (hspace c List.mem_cons_self) (by simp [isDigit_not_isSpace hdigit])
  rw [lineHosts_eq, hostsLine_eq_none hdigits]

/-- The spaces at the start of a text are skipped, those that are skipped already too. -/
theorem dropWhile_isSpace_append {l : Bytes} (hspace : ∀ c ∈ l, isSpace c = true) (s : Bytes) :
    (l ++ s).dropWhile isSpace = s.dropWhile isSpace := by
  induction l with
  | nil => rfl
  | cons c l ih =>
    rw [List.cons_append, List.dropWhile_cons_of_pos (hspace c List.mem_cons_self),
      ih (fun c hc => hspace c (List.mem_cons_of_mem _ hc))]

/-- **A line of spaces**: it is done, or the number that `strtoul` finds behind it belongs to a
line below. -/
theorem parseLine_spaces {l : Bytes} (hl : InLine l) (hspace : ∀ c ∈ l, isSpace c = true)
    (mode : Bool) (R : ResolverConf) (ans : ℕ) (r : Bytes) :
    LineDone mode R l (10 :: (r ++ [0])) ans (parseLine mode R (l ++ 10 :: (r ++ [0])) ans) ∨
    (r ≠ [] ∧ parseLine mode R (l ++ 10 :: (r ++ [0])) ans = parseLine mode R (r ++ [0]) ans) := by
  have hline : EndsLine (10 :: (r ++ [0])) := ⟨10, _, rfl, Or.inr rfl⟩
  have hend : EndsLine [0] := ⟨0, [], rfl, Or.inl rfl⟩
  have hsuffix := List.dropWhile_suffix isBlank (l := l)
  obtain ⟨b, hb⟩ : ∃ b, l.dropWhile isBlank = b := ⟨_, rfl⟩
  obtain ⟨s, hs⟩ : ∃ s, r.dropWhile isBlank ++ [0] = s := ⟨_, rfl⟩
  rw [hb] at hsuffix
  have hbspace : ∀ c ∈ b, isSpace c = true := fun c hc => hspace c (hsuffix.subset hc)
  have hskip : (b ++ 10 :: (r ++ [0])).dropWhile isSpace = s.dropWhile isSpace := by
    have hblank : ∀ c ∈ r.takeWhile isBlank, isSpace c = true :=
      fun c hc => isSpace_of_isBlank (List.mem_takeWhile_imp hc)
    have hrest := dropWhile_isSpace_append hblank (r.dropWhile isBlank ++ [0])
    rw [← List.append_assoc, List.takeWhile_append_dropWhile, hs] at hrest
    rw [dropWhile_isSpace_append hbspace, List.dropWhile_cons_of_pos (by decide), hrest]
  unfold LineDone parseLine
  rw [skipspc_eq hline, skipspc_eq hend, hb, hs]
  cases hread : readbyte (b ++ 10 :: (r ++ [0])) with
  | none =>
    left
    refine ⟨b, hl.suffix hsuffix, ?_⟩
    have hstop : readAddress 4 0 (b ++ 10 :: (r ++ [0]))
        = some (false, 0, b ++ 10 :: (r ++ [0])) := by
      rw [readAddress, hread]
    rw [lineHosts_spaces hspace]
    simp only [hstop, some_bind, true_or, if_true]
    rfl
  | some res =>
    right
    have hfound : strtoul (b ++ 10 :: (r ++ [0])) ≠ (0, b ++ 10 :: (r ++ [0])) := by
      intro hnone
      unfold readbyte at hread
      rw [hnone] at hread
      simp at hread
    obtain ⟨hsame, hlt⟩ := strtoul_congr hskip hfound
    have hread' : readbyte s = some res := by
      unfold readbyte at hread ⊢
      rw [hsame]
      dsimp only at hread ⊢
      have hne : (strtoul (b ++ 10 :: (r ++ [0]))).2 ≠ s := by
        intro heq
        rw [hsame, heq] at hlt
        exact lt_irrefl _ hlt
      split_ifs at hread with hnot
      rw [if_neg (by rintro (h | h); exacts [hne h, hnot (Or.inr h)])]
      exact hread
    constructor
    · rintro rfl
      rw [← hs] at hlt
      revert hlt
      decide
    · have haddress : readAddress 4 0 (b ++ 10 :: (r ++ [0])) = readAddress 4 0 s := by
        rw [readAddress, readAddress, hread, hread']
      simp only [haddress, some_bind]

/-- A last line of spaces is done. -/
theorem parseLine_spaces_end {l : Bytes} (hl : InLine l) (hspace : ∀ c ∈ l, isSpace c = true)
    (mode : Bool) (R : ResolverConf) (ans : ℕ) :
    LineDone mode R l [0] ans (parseLine mode R (l ++ [0]) ans) := by
  have hend : EndsLine [0] := ⟨0, [], rfl, Or.inl rfl⟩
  have hsuffix := List.dropWhile_suffix isBlank (l := l)
  refine ⟨l.dropWhile isBlank, hl.suffix hsuffix, ?_⟩
  have hread : readbyte (l.dropWhile isBlank ++ [0]) = none := by
    have hskip : (l.dropWhile isBlank ++ [0]).dropWhile isSpace = [0] :=
      dropWhile_isSpace_append (fun c hc => hspace c (hsuffix.subset hc)) [0]
    rcases strtoul_cases (l.dropWhile isBlank ++ [0]) with ⟨-, hnone⟩ | ⟨hdigits, -⟩
    · unfold readbyte
      rw [hnone]
      simp
    · rw [hskip] at hdigits
      exact absurd (by decide) hdigits
  have hstop : readAddress 4 0 (l.dropWhile isBlank ++ [0])
      = some (false, 0, l.dropWhile isBlank ++ [0]) := by
    rw [readAddress, hread]
  unfold parseLine
  rw [skipspc_eq hend, lineHosts_spaces hspace]
  simp only [hstop, some_bind, true_or, if_true]
  rfl

/-! ## The file -/

theorem lineStarts_line {l : Bytes} (hl : InLine l) (r : Bytes) :
    lineStarts (l ++ 10 :: r) = (l ++ 10 :: r) :: lineStarts r := by
  induction l with
  | nil => rfl
  | cons c l ih =>
    rw [List.cons_append, lineStarts, if_neg (hl c List.mem_cons_self).2,
      ih (hl.suffix (List.suffix_cons c l))]
    rfl

theorem mem_lineStarts (s : Bytes) : s ∈ lineStarts s := by
  cases s with
  | nil => exact List.mem_cons_self
  | cons c s => exact List.mem_cons_self

theorem splitOn_line {l : Bytes} (hl : InLine l) :
    l.splitOn 10 = [l] ∧ ∀ r, (l ++ 10 :: r).splitOn 10 = l :: r.splitOn 10 := by
  have hne : ∀ c ∈ l, (c == 10) = false := by
    intro c hc
    rw [beq_eq_false_iff_ne]
    exact (hl c hc).2
  constructor
  · rw [List.splitOn_eq_splitOnP, List.splitOnP_eq_singleton hne]
  · intro r
    rw [List.splitOn_eq_splitOnP, List.splitOn_eq_splitOnP,
      List.splitOnP_append_cons_of_forall_mem hne 10 (by decide)]

theorem fileHosts_line {l : Bytes} (hl : InLine l) :
    fileHosts l = lineHosts l ∧ ∀ r, fileHosts (l ++ 10 :: r) = lineHosts l ++ fileHosts r := by
  obtain ⟨hlast, hline⟩ := splitOn_line hl
  unfold fileHosts
  constructor
  · rw [hlast, List.flatMap_singleton]
  · intro r
    rw [hline, List.flatMap_cons]

/-- A round of the loop, for a line that is done. -/
theorem parseHostsLoop_line {mode : Bool} {R : ResolverConf} {l τ after : Bytes} {ans : ℕ}
    (hdone : LineDone mode R l τ ans (parseLine mode R (l ++ τ) ans))
    (hstart : ∃ c s, l ++ τ = c :: s ∧ c ≠ 0) (hnext : skiptoeoln τ = some after) (fuel : ℕ) :
    parseHostsLoop mode (fuel + 1) R (l ++ τ) ans = (visitHosts mode R (lineHosts l)).bind
      (fun R' => parseHostsLoop mode fuel R' after (ans + (lineHosts l).length)) := by
  obtain ⟨b, hb, hdone⟩ := hdone
  obtain ⟨c, s, hs, hc⟩ := hstart
  rw [hs] at hdone ⊢
  rw [parseHostsLoop]
  simp only [if_neg hc, hdone, Option.bind_eq_bind]
  cases visitHosts mode R (lineHosts l) with
  | none => rfl
  | some R' =>
    simp only [Option.map_some, Option.bind_some, skiptoeoln_eq hb, hnext]

/-- **`parse_hosts`** visits the hosts of a file whose lines are plain. -/
theorem parseHostsLoop_eq (mode : Bool) {s : Bytes} (hzero : 0 ∉ s)
    (hlines : ∀ t ∈ lineStarts s, PlainLine t) (hcounted : ∀ l ∈ s.splitOn 10, countedLine l)
    {fuel : ℕ} (hfuel : s.length < fuel) (R : ResolverConf) (ans : ℕ) :
    parseHostsLoop mode fuel R (s ++ [0]) ans = (visitHosts mode R (fileHosts s)).map
      (fun R' => (R', ans + (fileHosts s).length)) := by
  induction hn : s.length using Nat.strong_induction_on generalizing s fuel R ans with
  | _ n ih =>
    obtain ⟨fuel, rfl⟩ : ∃ k, fuel = k + 1 := ⟨fuel - 1, by omega⟩
    have hend : EndsLine [0] := ⟨0, [], rfl, Or.inl rfl⟩
    have hplain := hlines s (mem_lineStarts s)
    by_cases hnl : (10 : UInt8) ∈ s
    · obtain ⟨l, r, rfl, hl10⟩ := List.eq_append_cons_of_mem hnl
      have hl : InLine l := by
        intro c hc
        constructor
        · rintro rfl
          exact hzero (List.mem_append_left _ hc)
        · rintro rfl
          exact hl10 hc
      have hline : EndsLine (10 :: (r ++ [0])) := ⟨10, _, rfl, Or.inr rfl⟩
      have hr0 : 0 ∉ r := fun h => hzero (List.mem_append_right _ (List.mem_cons_of_mem _ h))
      rw [lineStarts_line hl] at hlines
      have hrlines : ∀ t ∈ lineStarts r, PlainLine t :=
        fun t ht => hlines t (List.mem_cons_of_mem _ ht)
      rw [(splitOn_line hl).2 r, List.forall_mem_cons] at hcounted
      obtain ⟨hlcounted, hrcounted⟩ := hcounted
      rw [List.length_append, List.length_cons] at hn hfuel
      have hbuffer : l ++ 10 :: r ++ [0] = l ++ 10 :: (r ++ [0]) := by
        rw [List.append_assoc, List.cons_append]
      have hstart : ∃ c s, l ++ 10 :: (r ++ [0]) = c :: s ∧ c ≠ 0 := by
        cases l with
        | nil => exact ⟨10, _, rfl, by decide⟩
        | cons c l => exact ⟨c, _, rfl, (hl c List.mem_cons_self).1⟩
      rw [(fileHosts_line hl).2 r, hbuffer, visitHosts_append]
      -- the loop after a line that is done
      have hgoOn (hdone : LineDone mode R l (10 :: (r ++ [0])) ans
          (parseLine mode R (l ++ 10 :: (r ++ [0])) ans)) :
          parseHostsLoop mode (fuel + 1) R (l ++ 10 :: (r ++ [0])) ans
            = ((visitHosts mode R (lineHosts l)).bind
                (fun R => visitHosts mode R (fileHosts r))).map
              (fun R' => (R', ans + (lineHosts l ++ fileHosts r).length)) := by
        rw [parseHostsLoop_line hdone hstart rfl]
        cases visitHosts mode R (lineHosts l) with
        | none => rfl
        | some R' =>
          simp only [Option.bind_some]
          rw [ih r.length (by omega) hr0 hrlines hrcounted (by omega) R' _ rfl,
            List.length_append, ← Nat.add_assoc]
      rcases hplain with hspace | hplain
      · have hspace' : ∀ c ∈ l, isSpace c = true := by
          intro c hc
          apply hspace c
          rw [List.takeWhile_append_of_pos]
          · exact List.mem_append_left _ hc
          · intro c hc
            rw [bne_iff_ne]
            exact (hl c hc).2
        rcases parseLine_spaces hl hspace' mode R ans r with hdone | ⟨hne, hsame⟩
        · exact hgoOn hdone
        · -- the number behind the line is read in this round
          obtain ⟨x, r', rfl⟩ := List.exists_cons_of_ne_nil hne
          obtain ⟨c, s, hs, hc⟩ := hstart
          have hx : x ≠ 0 := by
            rintro rfl
            exact hr0 List.mem_cons_self
          have hloop : parseHostsLoop mode (fuel + 1) R (l ++ 10 :: (x :: r' ++ [0])) ans
              = parseHostsLoop mode (fuel + 1) R (x :: r' ++ [0]) ans := by
            rw [hs] at hsame ⊢
            rw [List.cons_append] at hsame ⊢
            rw [parseHostsLoop, parseHostsLoop]
            simp only [if_neg hc, if_neg hx, hsame]
          rw [hloop, ih _ (by omega) hr0 hrlines hrcounted (by omega) R ans rfl,
            lineHosts_spaces hspace']
          rfl
      · refine hgoOn (parseLine_plain hline hl ?_ hlcounted mode R ans)
        have hfollows : EndsLine (10 :: r) := ⟨10, r, rfl, Or.inr rfl⟩
        have hdrop := (takeWhile_endsLine (q := isBlank) rfl rfl hfollows l).2
        rwa [hdrop, List.append_assoc, List.cons_append] at hplain
    · have hl : InLine s := by
        intro c hc
        constructor
        · rintro rfl
          exact hzero hc
        · rintro rfl
          exact hnl hc
      rw [(splitOn_line hl).1, List.forall_mem_singleton] at hcounted
      rw [(fileHosts_line hl).1]
      cases s with
      | nil => rfl
      | cons c s =>
        rw [List.length_cons] at hfuel
        obtain ⟨fuel, rfl⟩ : ∃ k, fuel = k + 1 := ⟨fuel - 1, by omega⟩
        have hdone : LineDone mode R (c :: s) [0] ans (parseLine mode R (c :: s ++ [0]) ans) := by
          rcases hplain with hspace | hplain
          · refine parseLine_spaces_end hl (fun x hx => hspace x ?_) mode R ans
            rwa [List.takeWhile_eq_self_iff.mpr]
            intro y hy
            rw [bne_iff_ne]
            exact (hl y hy).2
          · exact parseLine_plain hend hl hplain hcounted mode R ans
        rw [parseHostsLoop_line hdone ⟨c, _, rfl, (hl c List.mem_cons_self).1⟩ rfl]
        cases visitHosts mode R (lineHosts (c :: s)) with
        | none => rfl
        | some R' => rfl

/-! ## The hosts of a file -/

theorem mem_lineHosts {l : Bytes} {H : Host} (h : H ∈ lineHosts l) :
    ∃ ip names, hostsLine l = some (ip, names) ∧ H.ip = ip ∧ H.name ∈ names ∧
      H.name.length < 128 := by
  rw [lineHosts_eq] at h
  cases hline : hostsLine l with
  | none =>
    rw [hline] at h
    exact absurd h List.not_mem_nil
  | some r =>
    obtain ⟨ip, names⟩ := r
    rw [hline] at h
    obtain ⟨w, hw, rfl⟩ := List.mem_map.mp h
    obtain ⟨hmem, hlen⟩ := List.mem_filter.mp hw
    exact ⟨ip, names, rfl, rfl, hmem, of_decide_eq_true hlen⟩

theorem hostsLine_spec {l : Bytes} {ip : ℕ} {names : List Bytes}
    (h : hostsLine l = some (ip, names)) : ∃ t, t <:+ l ∧ names = strtok isBlank t := by
  unfold hostsLine at h
  cases hd : dottedBytes 4 0 l with
  | none =>
    rw [hd] at h
    cases h
  | some r =>
    obtain ⟨ip', t⟩ := r
    simp only [hd, some_bind] at h
    by_cases hhost : t.head?.any isBlank = true
    · rw [guard, if_pos hhost] at h
      obtain ⟨rfl, rfl⟩ := Prod.mk.inj (Option.some.inj h)
      exact ⟨t, dottedBytes_suffix hd, rfl⟩
    · rw [guard, if_neg hhost] at h
      cases h

theorem length_lineHosts_le (l : Bytes) : (lineHosts l).length ≤ l.length := by
  rw [lineHosts_eq]
  cases hline : hostsLine l with
  | none => exact Nat.zero_le _
  | some r =>
    obtain ⟨ip, names⟩ := r
    obtain ⟨t, ht, rfl⟩ := hostsLine_spec hline
    dsimp only [wordHosts]
    rw [List.length_map]
    exact (List.length_filter_le _ _).trans ((length_strtok_le _ _).trans ht.length_le)

theorem sum_length_splitOnP_le (q : UInt8 → Bool) (s : Bytes) :
    ((s.splitOnP q).map List.length).sum ≤ s.length := by
  induction s with
  | nil => exact le_rfl
  | cons c s ih =>
    rw [List.splitOnP_cons_eq_if_modifyHead, List.length_cons]
    by_cases hc : q c = true
    · rw [if_pos hc, List.map_cons, List.sum_cons, List.length_nil]
      omega
    · rw [if_neg hc]
      cases hsplit : s.splitOnP q with
      | nil => exact absurd hsplit (List.splitOnP_ne_nil q s)
      | cons l L =>
        rw [hsplit, List.map_cons, List.sum_cons] at ih
        rw [List.modifyHead_cons, List.map_cons, List.sum_cons, List.length_cons]
        omega

/-- A file has no more hosts than bytes. -/
theorem length_fileHosts_le (data : Bytes) : (fileHosts data).length ≤ data.length := by
  unfold fileHosts
  rw [List.splitOn_eq_splitOnP, List.length_flatMap]
  exact (List.sum_le_sum (fun l _ => length_lineHosts_le l)).trans (sum_length_splitOnP_le _ data)

/-- **The first host with the name** is in the first line that lists it. -/
theorem firstOf_fileHosts (data : Bytes) {name : Bytes} (hname : name.length < 128) :
    (firstOf Host.name name (fileHosts data)).map Host.ip = firstAddress data name := by
  unfold firstOf fileHosts firstAddress
  rw [List.find?_flatMap, List.map_findSome?]
  congr 1
  funext l
  show ((lineHosts l).find? (fun H => H.name = name)).map Host.ip = _
  rw [lineHosts_eq]
  cases hostsLine l with
  | none => rfl
  | some r =>
    obtain ⟨ip, names⟩ := r
    simp only [some_bind]
    by_cases hmem : name ∈ names
    · have hfind : (wordHosts ip names).find? (fun H => H.name = name) = some ⟨ip, name⟩ := by
        cases hfind : (wordHosts ip names).find? (fun H => H.name = name) with
        | none =>
          have hthere : (⟨ip, name⟩ : Host) ∈ wordHosts ip names :=
            List.mem_map.mpr ⟨name, List.mem_filter.mpr ⟨hmem, decide_eq_true hname⟩, rfl⟩
          exact absurd (decide_eq_true rfl) (List.find?_eq_none.mp hfind _ hthere)
        | some H =>
          obtain ⟨w, -, rfl⟩ := List.mem_map.mp (List.mem_of_find?_eq_some hfind)
          have hw := List.find?_some (p := fun H : Host => decide (H.name = name)) hfind
          rw [← of_decide_eq_true hw]
      rw [hfind, guard, if_pos hmem]
      rfl
    · have hfind : (wordHosts ip names).find? (fun H => H.name = name) = none := by
        rw [List.find?_eq_none]
        intro H hH hdec
        obtain ⟨w, hw, rfl⟩ := List.mem_map.mp hH
        rw [decide_eq_true_eq] at hdec
        exact hmem (hdec ▸ (List.mem_filter.mp hw).1)
      rw [hfind, guard, if_neg hmem]
      rfl

/-! ## Lookups -/

/-- The table is large enough for every file. -/
theorem exists_hsize {data : Bytes} (hsize : data.length < maxHostsSize) :
    ∃ p ∈ pr, pr.find? (fun p => (fileHosts data).length * 2 < p) = some p ∧
      (fileHosts data).length * 2 < p := by
  have hcount := length_fileHosts_le data
  have hlast : (fileHosts data).length * 2 < 37318507 := by
    unfold maxHostsSize at hsize
    omega
  cases hfind : pr.find? (fun p => (fileHosts data).length * 2 < p) with
  | none =>
    have hmem : 37318507 ∈ pr := by decide
    exact absurd (decide_eq_true hlast) (List.find?_eq_none.mp hfind _ hmem)
  | some p =>
    have hp := List.find?_some (p := fun p : ℕ => decide ((fileHosts data).length * 2 < p)) hfind
    exact ⟨p, List.mem_of_find?_eq_some hfind, rfl, of_decide_eq_true hp⟩

/-- **A plain file is loaded**, and the table holds its hosts. -/
theorem kdbLoadHostsInternal_plain {data name : Bytes} (hsize : data.length < maxHostsSize)
    (hplain : PlainFile data name) :
    ∃ R, ∃ p ∈ pr, kdbLoadHostsInternal data = some (some R) ∧ R.hsize = p ∧
      (fileHosts data).length < p ∧ PlainName p name ∧
      Stored Host.name (nameSlots p) R.htable (fileHosts data) := by
  obtain ⟨p, hp, hfind, hlt⟩ := exists_hsize hsize
  obtain ⟨hname, hnames⟩ := hplain.names p hfind
  have hgood : ∀ H ∈ fileHosts data,
      PlainName p H.name ∧ H.name.length < 128 ∧ H.ip ≠ 0 := by
    intro H hH
    obtain ⟨l, hmem, hl⟩ := List.mem_flatMap.mp hH
    obtain ⟨ip, names, hline, rfl, -, hlen⟩ := mem_lineHosts hl
    exact ⟨hnames H hH, hlen, (countedLine_spec (hplain.counted l hmem)).2 _ _ hline⟩
  obtain ⟨R, hrun, hR, hholds⟩ := insert_all hp hgood (R := ⟨p, fun _ => none⟩) rfl Stored.empty
    (by rw [List.length_nil]; omega)
  rw [List.nil_append] at hholds
  refine ⟨R, p, hp, ?_, hR, by omega, hname, hholds⟩
  have hpass (mode : Bool) (R₀ : ResolverConf) : parseHosts R₀ (data ++ [0]) mode
      = (visitHosts mode R₀ (fileHosts data)).map (fun R' => (R', (fileHosts data).length)) := by
    have hloop := parseHostsLoop_eq mode hplain.nonzero hplain.lines hplain.counted
      (by rw [List.length_append]; omega : data.length < (data ++ [0]).length + 1) R₀ 0
    rwa [zero_add] at hloop
  have hcount : parseHosts ⟨0, fun _ => none⟩ (data ++ [0]) false
      = some (⟨0, fun _ => none⟩, (fileHosts data).length) := by
    rw [hpass, visitHosts_false]
    rfl
  have hinsert : parseHosts ⟨p, fun _ => none⟩ (data ++ [0]) true
      = some (R, (fileHosts data).length) := by
    rw [hpass, visitHosts, hrun]
    rfl
  unfold kdbLoadHostsInternal
  rw [if_neg (not_le.mpr hsize)]
  simp only [hcount, hfind, hinsert, guard, if_true, some_bind, Option.pure_def]

/-- **The hosts table**: in a plain file every lookup finds the address of the first line that lists
the name, and nothing when no line does. -/
theorem lookup_finds {data name : Bytes} (hsize : data.length < maxHostsSize)
    (hname : name.length < 128) (hplain : PlainFile data name) : LookupFinds data name := by
  obtain ⟨R, p, hp, hload, hR, hfew, hplainName, hholds⟩ := kdbLoadHostsInternal_plain hsize hplain
  have hget := getHash_lookup hp hR hholds hfew hplainName hname
  unfold LookupFinds hostsLookup
  rw [hload, ← firstOf_fileHosts data hname]
  simp only [hget, some_bind, Option.pure_def]

/-- The second host of the line `1.2.3.4 a b`. -/
theorem lookup_finds_second : LookupFinds
    [10, 49, 46, 50, 46, 51, 46, 52, 32, 97, 32, 98, 10] [98] := by
  apply lookup_finds (by decide) (by decide)
  refine ⟨by decide, by decide +kernel, by decide +kernel, ?_⟩
  intro hsize hfind
  have hhosts : fileHosts [10, 49, 46, 50, 46, 51, 46, 52, 32, 97, 32, 98, 10]
      = [⟨16909060, [97]⟩, ⟨16909060, [98]⟩] := by rfl
  have hfirst : pr.find? (fun p => 2 * 2 < p) = some 29 := by decide
  rw [hhosts] at hfind ⊢
  obtain rfl : 29 = hsize := Option.some.inj (hfirst.symm.trans hfind)
  have hplain (c : UInt8) (hc : c < 128) : PlainName 29 [c] := by
    have hchars : ∀ d ∈ [c], d < 128 := List.forall_mem_singleton.mpr hc
    exact ⟨hchars, hashFits_of_le (by norm_num) (by norm_num) hchars (by norm_num)⟩
  refine ⟨hplain 98 (by decide), ?_⟩
  intro H hH
  rcases List.mem_pair.mp hH with rfl | rfl
  · exact hplain 97 (by decide)
  · exact hplain 98 (by decide)

/-- **Lines and names that are not plain.**  After the line `12` the line `1.2.3.4 a` is lost; in
the lines `1.2.` and `3.4 a` no line lists `a`, but it is found; the name of the one byte 255 is
looked for at the index -1; ` 1.2.3.4 a` counts though it starts with a blank; and `0.0.0.0 a` does
not count. -/
theorem lookup_fails :
    ¬ LookupFinds [49, 50, 10, 49, 46, 50, 46, 51, 46, 52, 32, 97, 10] [97] ∧
    ¬ LookupFinds [49, 46, 50, 46, 10, 51, 46, 52, 32, 97, 10] [97] ∧
    ¬ LookupFinds [49, 46, 50, 46, 51, 46, 52, 32, 97, 10] [255] ∧
    (nameHash 29 [255]).1 = -1 ∧
    ¬ LookupFinds [32, 49, 46, 50, 46, 51, 46, 52, 32, 97, 10] [97] ∧
    ¬ LookupFinds [48, 46, 48, 46, 48, 46, 48, 32, 97, 10] [97] := by
  decide

end MtprotoProxy
