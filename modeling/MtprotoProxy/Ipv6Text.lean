/-
# IPv6 addresses in text

`parse_text_ipv6` from `mtproto/mtproto-proxy.c`, against the text form of an address: eight groups
of one to four hexadecimal digits with colons between them, or at most seven groups with one double
colon that stands for the missing ones (`Ipv6Text`).

One loop reads the groups.  What it reads from a place on is `Reads`: from the round `i` on, with
the gap `k` so far (`-1` when there was no double colon), the text is a list of groups with a colon
in front of each, two in front of the group where the gap is (`groupsText`).  The loop accepts a
text exactly when it is of this form (`ipv6Loop_sound`, `ipv6Loop_complete`).

The code accepts one more form, eight groups and a double colon in front of one of them
(`EightWithGap`): after eight rounds it does not look at the gap.
-/
import MtprotoProxy.CMemory
import MtprotoProxy.CStdio

namespace MtprotoProxy

open CLib

/-! ## The code -/

/-- An array `unsigned char ip[16]`. -/
abbrev Ipv6Bytes : Type := { ip : Bytes // ip.length = 16 }

/-- The loop over the hexadecimal digits: their number, their value and the text behind them; `none`
is `return -1`. -/
def hexLoop : Bytes → ℕ → ℕ → Option (ℕ × ℕ × Bytes)
  | [], j, v => some (j, v, [])
  | c :: s, j, v =>
    if isXdigit c then
      if 4 < j + 1 then none else hexLoop s (j + 1) (v * 16 + hexDigitValue c)
    else some (j, v, c :: s)

/-- What the colons in front of a group say: the gap and the text behind them, the end of the
loop, or `return -1`. -/
inductive Separator where
  | go (k : ℤ) (s : Bytes)
  | stop
  | fail

/-- The colons in front of the group `i`. -/
def ipv6Separator (i : ℕ) (k : ℤ) (s : Bytes) : Separator :=
  if 0 < i then
    match s with
    | 58 :: 58 :: s => if 0 ≤ k then .fail else .go i s
    | 58 :: s => .go k s
    | _ => if 0 ≤ k then .stop else .fail
  else .go k s

/-- The loop over the groups: the array, and the number of groups, the gap and the rest of the text
when the loop was left, or `none` for `return -1`.  A write outside of the array is `none`. -/
def ipv6Loop : ℕ → ℕ → ℤ → Bytes → Bytes → Option (Bytes × Option (ℕ × ℤ × Bytes))
  | 0, i, k, ip, s => some (ip, some (i, k, s))
  | n + 1, i, k, ip, s =>
    match ipv6Separator i k s with
    | .stop => some (ip, some (i, k, s))
    | .fail => some (ip, none)
    | .go k s =>
      match hexLoop s 0 0 with
      | none => some (ip, none)
      | some (j, v, s) =>
        if j = 0 then some (ip, if k = i then some (i, k, s) else none)
        else do
          let ip ← writeAt ip (2 * i) [UInt8.ofNat (v >>> 8)]
          let ip ← writeAt ip (2 * i + 1) [UInt8.ofNat (v &&& 0xff)]
          ipv6Loop n (i + 1) k ip s

/-- The double colon at the start: the gap, and the text behind it. -/
def ipv6Start : Bytes → ℤ × Bytes
  | 58 :: 58 :: s => (0, s)
  | s => (-1, s)

/-- `parse_text_ipv6`: the result and the array, for a text without its zero.  A failed assertion
and a byte outside of the array are `none`. -/
def parseTextIpv6 (ip str : Bytes) : Option (ℤ × Bytes) := do
  let (k, s) := ipv6Start str
  let (ip, r) ← ipv6Loop 8 0 k ip s
  match r with
  | none => some (-1, ip)
  | some (i, k, s) =>
    if s ≠ [] then some (-1, ip)
    else if i < 8 then
      guard (0 ≤ k ∧ k ≤ i)
      let gap := 2 * (8 - i)
      let ip ← do
        let ip ← memmoveAt ip (2 * k.toNat + gap) (2 * k.toNat) (2 * (i - k.toNat))
        memsetAt ip (2 * k.toNat) 0 gap
      some (str.length - s.length, ip)
    else some (str.length - s.length, ip)

/-! ## The text form -/

/-- One to four hexadecimal digits. -/
def IsGroup (g : Bytes) : Prop := g ≠ [] ∧ g.length ≤ 4 ∧ ∀ c ∈ g, isXdigit c = true

/-- Groups with colons between them. -/
def joinGroups (gs : List Bytes) : Bytes := [58].intercalate gs

/-- The bytes of the values of groups. -/
def groupBytes (vs : List ℕ) : Bytes := vs.flatMap (fun v => [UInt8.ofNat (v / 256), UInt8.ofNat v])

/-- **The text form of the address with the group values `vs`**, without an embedded IPv4
address. -/
inductive Ipv6Text : Bytes → List ℕ → Prop where
  | full {gs : List Bytes} (hgs : ∀ g ∈ gs, IsGroup g) (hlen : gs.length = 8) :
    Ipv6Text (joinGroups gs) (gs.map hexValue)
  | gap {L R : List Bytes} (hL : ∀ g ∈ L, IsGroup g) (hR : ∀ g ∈ R, IsGroup g)
    (hlen : L.length + R.length ≤ 7) :
    Ipv6Text (joinGroups L ++ [58, 58] ++ joinGroups R)
      (L.map hexValue ++ List.replicate (8 - (L.length + R.length)) 0 ++ R.map hexValue)

/-- Eight groups and a double colon in front of the first one or between two of them. -/
def EightWithGap (s : Bytes) : Prop :=
  ∃ L R : List Bytes, (∀ g ∈ L, IsGroup g) ∧ (∀ g ∈ R, IsGroup g) ∧ L.length + R.length = 8 ∧
    R ≠ [] ∧ s = joinGroups L ++ [58, 58] ++ joinGroups R

/-! ## The digits of a group -/

/-- What the loop over the digits has read. -/
theorem hexLoop_sound : ∀ {s : Bytes} {j v j' v' : ℕ} {s' : Bytes},
    hexLoop s j v = some (j', v', s') → j ≤ 4 →
    ∃ g, s = g ++ s' ∧ (∀ c ∈ g, isXdigit c = true) ∧ j' = j + g.length ∧ j' ≤ 4 := by
  intro s
  induction s with
  | nil =>
    intro j v j' v' s' h hj
    obtain ⟨rfl, rfl, rfl⟩ : j = j' ∧ v = v' ∧ [] = s' := by simpa [hexLoop] using h
    exact ⟨[], rfl, by simp, rfl, hj⟩
  | cons c s ih =>
    intro j v j' v' s' h hj
    rw [hexLoop] at h
    split at h
    · rename_i hc
      split at h
      · exact absurd h (by simp)
      · obtain ⟨g, rfl, hg, hlen, hle⟩ := ih h (by omega)
        refine ⟨c :: g, rfl, List.forall_mem_cons.mpr ⟨hc, hg⟩, ?_, hle⟩
        rw [hlen, List.length_cons]
        omega
    · obtain ⟨rfl, rfl, rfl⟩ : j = j' ∧ v = v' ∧ c :: s = s' := by simpa using h
      exact ⟨[], rfl, by simp, rfl, hj⟩

/-- The text does not go on with a hexadecimal digit. -/
def NoXdigit (s : Bytes) : Prop := ∀ c ∈ s.head?, isXdigit c = false

/-- The loop reads at most four digits up to another character. -/
theorem hexLoop_append : ∀ {g : Bytes} {j v : ℕ} {rest : Bytes}, (∀ c ∈ g, isXdigit c = true) →
    j + g.length ≤ 4 → NoXdigit rest →
    hexLoop (g ++ rest) j v
      = some (j + g.length, g.foldl (fun v c => v * 16 + hexDigitValue c) v, rest) := by
  intro g
  induction g with
  | nil =>
    intro j v rest _ _ hrest
    cases rest with
    | nil => rfl
    | cons c rest =>
      rw [List.nil_append, hexLoop, if_neg (by simp [hrest c rfl])]
      rfl
  | cons c g ih =>
    intro j v rest hg hlen hrest
    rw [List.length_cons] at hlen
    rw [List.cons_append, hexLoop, if_pos (hg c List.mem_cons_self), if_neg (by omega),
      ih (fun d hd => hg d (List.mem_cons_of_mem _ hd)) (by omega) hrest, List.length_cons,
      List.foldl_cons, Nat.add_assoc, Nat.add_comm 1]

/-- **A group is read as its value.** -/
theorem hexLoop_group {g rest : Bytes} (hg : IsGroup g) (hrest : NoXdigit rest) :
    hexLoop (g ++ rest) 0 0 = some (g.length, hexValue g, rest) := by
  rw [hexLoop_append hg.2.2 (by simpa using hg.2.1) hrest, Nat.zero_add]
  rfl

/-- No group is read, or one. -/
theorem hexLoop_cases {s s' : Bytes} {j v : ℕ} (h : hexLoop s 0 0 = some (j, v, s')) :
    (j = 0 ∧ s' = s) ∨ (j ≠ 0 ∧ ∃ g, IsGroup g ∧ s = g ++ s') := by
  obtain ⟨g, rfl, hg, hlen, hle⟩ := hexLoop_sound h (by norm_num)
  rw [Nat.zero_add] at hlen
  by_cases hj : j = 0
  · left
    have : g = [] := List.length_eq_zero_iff.mp (by omega)
    exact ⟨hj, by rw [this]; rfl⟩
  · right
    refine ⟨hj, g, ⟨?_, by omega, hg⟩, rfl⟩
    rintro rfl
    exact hj hlen

/-! ## The texts that the loop reads -/

/-- The colons in front of the group `i`, with the gap at `k`. -/
def sepText (k : ℤ) (i : ℕ) : Bytes :=
  if i = 0 then [] else if k = i then [58, 58] else [58]

/-- The groups `gs` from number `i` on, with the gap at `k`. -/
def groupsText (k : ℤ) : ℕ → List Bytes → Bytes
  | _, [] => []
  | i, g :: gs => sepText k i ++ g ++ groupsText k (i + 1) gs

/-- A gap at the end. -/
def tailText (k : ℤ) (i : ℕ) : Bytes := if k = i ∧ 0 < i then [58, 58] else []

/-- **The texts that are read in `n` rounds from the round `i` on**, with the gap `k` so far and
`k'` in the end. -/
structure Reads (n i : ℕ) (k : ℤ) (s : Bytes) (gs : List Bytes) (k' : ℤ) : Prop where
  groups : ∀ g ∈ gs, IsGroup g
  gap : (0 ≤ k ∧ k' = k) ∨ (k = -1 ∧ (k' = -1 ∨ (1 ≤ k' ∧ i ≤ k' ∧ k' ≤ i + gs.length)))
  count : gs.length ≤ n
  all : k' = -1 → gs.length = n
  more : k' = (i + gs.length : ℕ) → gs.length < n
  text : s = groupsText k' i gs ++ tailText k' (i + gs.length)

/-- The gap so far: none, or before the group `i`, or at the start. -/
def GapSoFar (i : ℕ) (k : ℤ) : Prop := k = -1 ∨ (0 ≤ k ∧ k < i) ∨ (k = 0 ∧ i = 0)

/-- What follows a group is the end or a colon. -/
theorem noXdigit_rest (k : ℤ) (i : ℕ) (hi : 0 < i) (gs : List Bytes) :
    NoXdigit (groupsText k i gs ++ tailText k (i + gs.length)) := by
  have hcolon : isXdigit 58 = false := by decide
  intro c hc
  cases gs with
  | nil =>
    rw [groupsText, List.nil_append, tailText] at hc
    split at hc
    · obtain rfl : 58 = c := by simpa using hc
      exact hcolon
    · exact absurd hc (by simp)
  | cons g gs =>
    rw [groupsText, sepText, if_neg (by omega)] at hc
    split at hc
    · obtain rfl : 58 = c := by simpa using hc
      exact hcolon
    · obtain rfl : 58 = c := by simpa using hc
      exact hcolon

/-- The first character of a group is no colon. -/
theorem IsGroup.head {g : Bytes} (h : IsGroup g) : ∃ c t, g = c :: t ∧ c ≠ 58 := by
  obtain ⟨c, t, rfl⟩ := List.exists_cons_of_ne_nil h.1
  refine ⟨c, t, rfl, ?_⟩
  rintro rfl
  exact absurd (h.2.2 58 List.mem_cons_self) (by decide)

/-! ## The loop over the groups -/

/-- One group is stored. -/
theorem ipv6Loop_group {n i : ℕ} {k k₁ : ℤ} {s g rest A B : Bytes} {a b : UInt8}
    (hsep : ipv6Separator i k s = .go k₁ (g ++ rest)) (hg : IsGroup g) (hrest : NoXdigit rest)
    (hA : A.length = 2 * i) :
    ipv6Loop (n + 1) i k (A ++ a :: b :: B) s
      = ipv6Loop n (i + 1) k₁ (A ++ groupBytes [hexValue g] ++ B) rest := by
  have hne : g.length ≠ 0 := fun h => hg.1 (List.length_eq_zero_iff.mp h)
  have hhi : writeAt (A ++ a :: b :: B) (2 * i) [UInt8.ofNat (hexValue g >>> 8)]
      = some (A ++ [UInt8.ofNat (hexValue g >>> 8)] ++ b :: B) := by
    have h := @writeAt_append A [a] (b :: B) [UInt8.ofNat (hexValue g >>> 8)] _ hA rfl
    simpa using h
  have hlo : writeAt (A ++ [UInt8.ofNat (hexValue g >>> 8)] ++ b :: B) (2 * i + 1)
      [UInt8.ofNat (hexValue g &&& 0xff)]
      = some (A ++ [UInt8.ofNat (hexValue g >>> 8)] ++ [UInt8.ofNat (hexValue g &&& 0xff)] ++ B) := by
    have h := @writeAt_append (A ++ [UInt8.ofNat (hexValue g >>> 8)]) [b] B
      [UInt8.ofNat (hexValue g &&& 0xff)] (2 * i + 1) (by simp [hA]) rfl
    simpa using h
  have hbytes : groupBytes [hexValue g]
      = [UInt8.ofNat (hexValue g >>> 8), UInt8.ofNat (hexValue g &&& 0xff)] := by
    have hmask : hexValue g &&& 0xff = hexValue g % 256 := Nat.and_two_pow_sub_one_eq_mod _ 8
    have hmod : UInt8.ofNat (hexValue g % 256) = UInt8.ofNat (hexValue g) := by
      apply UInt8.toNat.inj
      simp
    rw [hmask, hmod, Nat.shiftRight_eq_div_pow]
    rfl
  rw [ipv6Loop, hsep]
  simp only [hexLoop_group hg hrest, if_neg hne, hhi, hlo, some_bind, hbytes]
  congr 1
  simp

/-- The colons of `sepText`, as the code sees them. -/
theorem ipv6Separator_sepText {i : ℕ} {k k' : ℤ} {g rest : Bytes} (hg : IsGroup g)
    (hgap : (0 ≤ k ∧ k' = k ∧ (k < i ∨ i = 0)) ∨ (k = -1 ∧ (k' = -1 ∨ 1 ≤ k'))) :
    ipv6Separator i k (sepText k' i ++ g ++ rest)
      = .go (if 0 < i ∧ k' = i then i else k) (g ++ rest) := by
  unfold ipv6Separator sepText
  by_cases hi : i = 0
  · rw [if_neg (by omega), if_pos hi, if_neg (by omega), List.nil_append]
  · rw [if_pos (by omega), if_neg hi]
    by_cases hk : k' = i
    · have hneg : ¬ 0 ≤ k := by omega
      have hhere : 0 < i ∧ k' = i := ⟨by omega, hk⟩
      rw [if_pos hk, if_pos hhere]
      simp only [List.cons_append, List.nil_append, if_neg hneg]
    · obtain ⟨c, t, rfl, hc⟩ := hg.head
      have hhere : ¬ (0 < i ∧ k' = i) := fun h => hk h.2
      rw [if_neg hk, if_neg hhere]
      simp only [List.cons_append, List.nil_append]
      split
      · rename_i heq
        exact absurd (List.cons.inj (List.cons.inj heq).2).1 hc
      · rename_i heq
        rw [(List.cons.inj heq).2]
      · rename_i hno
        exact absurd rfl (hno _)

/-- Behind a group, the rest is read. -/
theorem Reads.next {g : Bytes} {gs : List Bytes} {n i : ℕ} {k k' : ℤ} {s : Bytes}
    (h : Reads (n + 1) i k s (g :: gs) k') :
    Reads n (i + 1) (if 0 < i ∧ k' = i then i else k)
      (groupsText k' (i + 1) gs ++ tailText k' (i + 1 + gs.length)) gs k' := by
  have hlen := h.count
  rw [List.length_cons] at hlen
  refine ⟨fun x hx => h.groups x (List.mem_cons_of_mem _ hx), ?_, by omega, ?_, ?_, rfl⟩
  · split
    · rename_i hgap
      exact Or.inl ⟨by omega, hgap.2⟩
    · rename_i hno
      rcases h.gap with hgap | ⟨hgap, h1 | ⟨h1, h2, h3⟩⟩
      · exact Or.inl hgap
      · exact Or.inr ⟨hgap, Or.inl h1⟩
      · rw [List.length_cons] at h3
        push_cast at h2 h3 ⊢
        refine Or.inr ⟨hgap, Or.inr ⟨h1, ?_, by omega⟩⟩
        by_contra hlt
        exact hno ⟨by omega, by omega⟩
  · intro hk1
    have := h.all hk1
    rw [List.length_cons] at this
    omega
  · intro hk1
    have := h.more (by rw [hk1, List.length_cons]; omega)
    rw [List.length_cons] at this
    omega

/-- **What is of the form is read**, and its groups are stored. -/
theorem ipv6Loop_complete : ∀ {gs : List Bytes} {n i : ℕ} {k k' : ℤ} {s A B : Bytes},
    Reads n i k s gs k' → GapSoFar i k → A.length = 2 * i → 2 * n ≤ B.length → i + n = 8 →
    ipv6Loop n i k (A ++ B) s = some (A ++ groupBytes (gs.map hexValue) ++ B.drop (2 * gs.length),
      some (i + gs.length, k', [])) := by
  intro gs
  induction gs with
  | nil =>
    intro n i k k' s A B h hk hA hB hn
    have htext := h.text
    rw [groupsText, List.nil_append, List.length_nil, Nat.add_zero] at htext
    have hend : A ++ groupBytes (([] : List Bytes).map hexValue) ++ B.drop (2 * 0) = A ++ B := by
      simp [groupBytes]
    rw [List.length_nil, hend, Nat.add_zero]
    have hmore := h.more
    have hall := h.all
    rw [List.length_nil, Nat.add_zero] at hmore
    rw [List.length_nil] at hall
    cases n with
    | zero =>
      -- all rounds are over
      have hkk : k' = k := by
        rcases h.gap with ⟨-, hgap⟩ | ⟨hgap, hgap' | ⟨-, h2, h3⟩⟩
        · exact hgap
        · rw [hgap', hgap]
        · rw [List.length_nil] at h3
          exact absurd (hmore (by omega)) (by omega)
      have hnot : ¬ (k' = i ∧ 0 < i) := fun hb => absurd (hmore hb.1) (by omega)
      rw [htext, tailText, if_neg hnot, hkk, ipv6Loop]
    | succ n =>
      rcases hk with rfl | ⟨h0, hlt⟩ | ⟨rfl, rfl⟩
      · -- a double colon at the end
        have hgap : k' = i ∧ 0 < i := by
          rcases h.gap with ⟨hneg, -⟩ | ⟨-, h1 | ⟨h1, h2, h3⟩⟩
          · omega
          · exact absurd (hall h1) (by omega)
          · rw [List.length_nil] at h3
            omega
        have hsep : ipv6Separator i (-1) [58, 58] = .go i [] := by
          simp [ipv6Separator, hgap.2]
        rw [htext, tailText, if_pos hgap, ipv6Loop, hsep]
        simp only [hexLoop, if_true, hgap.1]
      · -- the gap is behind us, the text ends
        have hkk : k' = k := by
          rcases h.gap with ⟨-, hgap⟩ | ⟨hgap, -⟩
          · exact hgap
          · omega
        have hi : 0 < i := by omega
        have hsep : ipv6Separator i k [] = .stop := by simp [ipv6Separator, hi, h0]
        rw [htext, tailText, if_neg (by omega), ipv6Loop, hsep, hkk]
      · -- nothing but the double colon at the start
        have hkk : k' = 0 := by
          rcases h.gap with ⟨-, hgap⟩ | ⟨hgap, -⟩
          · exact hgap
          · omega
        have hsep : ipv6Separator 0 0 [] = .go 0 [] := rfl
        rw [htext, tailText, if_neg (by omega), ipv6Loop, hsep, hkk]
        rfl
  | cons g gs ih =>
    intro n i k k' s A B h hk hA hB hn
    have hlen := h.count
    rw [List.length_cons] at hlen
    obtain ⟨n, rfl⟩ : ∃ m, n = m + 1 := ⟨n - 1, by omega⟩
    obtain ⟨a, b, B, rfl⟩ : ∃ a b B', B = a :: b :: B' := by
      match B, hB with
      | [], hB => simp at hB
      | [_], hB => simp at hB; omega
      | a :: b :: B', _ => exact ⟨a, b, B', rfl⟩
    have hg := h.groups g List.mem_cons_self
    have hcase : (0 ≤ k ∧ k' = k ∧ (k < i ∨ i = 0)) ∨ (k = -1 ∧ (k' = -1 ∨ 1 ≤ k')) := by
      rcases h.gap with ⟨h0, hgap⟩ | ⟨hgap, h1 | ⟨h1, -⟩⟩
      · left
        refine ⟨h0, hgap, ?_⟩
        rcases hk with hk | ⟨-, hk⟩ | ⟨-, hk⟩
        · omega
        · exact Or.inl hk
        · exact Or.inr hk
      · exact Or.inr ⟨hgap, Or.inl h1⟩
      · exact Or.inr ⟨hgap, Or.inr h1⟩
    have htext := h.text
    rw [groupsText, List.append_assoc] at htext
    have hsep := @ipv6Separator_sepText i k k' g (groupsText k' (i + 1) gs
      ++ tailText k' (i + (g :: gs).length)) hg hcase
    rw [← htext] at hsep
    have hassoc : i + (g :: gs).length = (i + 1) + gs.length := by
      rw [List.length_cons]
      omega
    rw [hassoc] at hsep
    rw [ipv6Loop_group hsep hg (noXdigit_rest k' (i + 1) (Nat.succ_pos i) gs) hA]
    have hsofar : GapSoFar (i + 1) (if 0 < i ∧ k' = i then i else k) := by
      split
      · exact Or.inr (Or.inl ⟨by omega, by omega⟩)
      · rcases hk with hk | hk | ⟨hk, hi⟩
        · exact Or.inl hk
        · exact Or.inr (Or.inl ⟨hk.1, by omega⟩)
        · exact Or.inr (Or.inl ⟨by omega, by omega⟩)
    have hA' : (A ++ groupBytes [hexValue g]).length = 2 * (i + 1) := by
      rw [List.length_append, hA]
      rfl
    have hB' : 2 * n ≤ B.length := by
      rw [List.length_cons, List.length_cons] at hB
      omega
    rw [ih h.next hsofar hA' hB' (by omega), hassoc]
    congr 2
    rw [List.length_cons, Nat.mul_succ, List.drop_succ_cons, List.drop_succ_cons]
    simp [groupBytes]

/-- **The loop writes inside the array only**, and leaves with a gap that is none of the groups to
come. -/
theorem ipv6Loop_total : ∀ {n i : ℕ} {k : ℤ} {ip s : Bytes}, ip.length = 16 → i + n = 8 →
    ∃ ip' r, ipv6Loop n i k ip s = some (ip', r) ∧ ip'.length = 16 := by
  intro n
  induction n with
  | zero =>
    intro i k ip s hip _
    exact ⟨ip, _, rfl, hip⟩
  | succ n ih =>
    intro i k ip s hip hn
    rw [ipv6Loop]
    split
    · exact ⟨ip, _, rfl, hip⟩
    · exact ⟨ip, _, rfl, hip⟩
    · split
      · exact ⟨ip, _, rfl, hip⟩
      · split
        · exact ⟨ip, _, rfl, hip⟩
        · rename_i v rest _ _
          obtain ⟨ip₁, h₁, hlen₁⟩ := @writeAt_isSome ip [UInt8.ofNat (v >>> 8)] (2 * i)
            (by rw [List.length_singleton]; omega)
          obtain ⟨ip₂, h₂, hlen₂⟩ := @writeAt_isSome ip₁ [UInt8.ofNat (v &&& 0xff)] (2 * i + 1)
            (by rw [List.length_singleton]; omega)
          rw [h₁, Option.bind_eq_bind, Option.bind_some, h₂, Option.bind_some]
          exact ih (by omega) (by omega)

/-- A separator that lets the loop go on is that of `sepText`. -/
theorem ipv6Separator_go {i : ℕ} {k k₁ : ℤ} {s t : Bytes} (hk : GapSoFar i k)
    (h : ipv6Separator i k s = .go k₁ t) :
    (i = 0 ∧ k₁ = k ∧ s = t) ∨ (0 < i ∧ k = -1 ∧ k₁ = i ∧ s = 58 :: 58 :: t) ∨
      (0 < i ∧ k₁ = k ∧ s = 58 :: t) := by
  unfold ipv6Separator at h
  by_cases hi : 0 < i
  · rw [if_pos hi] at h
    split at h
    · split at h
      · exact absurd h (by simp)
      · obtain ⟨rfl, rfl⟩ := Separator.go.inj h
        have hneg : k = -1 := by
          rcases hk with hk | ⟨hk, -⟩ | ⟨hk, -⟩ <;> omega
        exact Or.inr (Or.inl ⟨hi, hneg, rfl, rfl⟩)
    · obtain ⟨rfl, rfl⟩ := Separator.go.inj h
      exact Or.inr (Or.inr ⟨hi, rfl, rfl⟩)
    · split at h <;> exact absurd h (by simp)
  · rw [if_neg hi] at h
    obtain ⟨rfl, rfl⟩ := Separator.go.inj h
    exact Or.inl ⟨by omega, rfl, rfl⟩

/-- Nothing more is read, and the text is at its end. -/
theorem reads_nil {n i : ℕ} {k : ℤ} (hk : GapSoFar i k) (hn : i + n = 8)
    (hneg : k = -1 → n = 0) : Reads n i k [] [] k := by
  have htail : tailText k (i + ([] : List Bytes).length) = [] := by
    rw [tailText, if_neg]
    rintro ⟨hki, hi⟩
    rw [List.length_nil, Nat.add_zero] at hki hi
    rcases hk with hk | ⟨-, hk⟩ | ⟨-, hk⟩ <;> omega
  refine ⟨by simp, ?_, Nat.zero_le _, fun h => (hneg h).symm, ?_, ?_⟩
  · rcases hk with hk | ⟨hk, -⟩ | ⟨hk, -⟩
    · exact Or.inr ⟨hk, Or.inl hk⟩
    · exact Or.inl ⟨hk, rfl⟩
    · exact Or.inl ⟨by omega, rfl⟩
  · intro h
    rw [List.length_nil, Nat.add_zero] at h
    rw [List.length_nil]
    rcases hk with hk | ⟨-, hk⟩ | ⟨-, hk⟩ <;> omega
  · rw [htail]
    rfl

/-- One more group in front. -/
theorem Reads.cons {n i : ℕ} {k k₁ k' : ℤ} {s t rest g : Bytes} {gs : List Bytes}
    (hk : GapSoFar i k) (hsep : ipv6Separator i k s = .go k₁ t) (hg : IsGroup g)
    (ht : t = g ++ rest) (h : Reads n (i + 1) k₁ rest gs k') :
    Reads (n + 1) i k s (g :: gs) k' := by
  have hassoc : i + (g :: gs).length = (i + 1) + gs.length := by
    rw [List.length_cons]
    omega
  have hgap := h.gap
  have hsepText : s = sepText k' i ++ t := by
    unfold sepText
    rcases ipv6Separator_go hk hsep with ⟨hi, -, rfl⟩ | ⟨hi, -, hk₁, rfl⟩ | ⟨hi, hk₁, rfl⟩
    · rw [if_pos hi, List.nil_append]
    · rw [if_neg (by omega), if_pos (by omega)]
      rfl
    · have hne : k' ≠ i := by
        rcases hk with hk | ⟨-, hk⟩ | ⟨-, hk⟩
        · push_cast at hgap
          omega
        · omega
        · omega
      rw [if_neg (by omega), if_neg hne]
      rfl
  refine ⟨List.forall_mem_cons.mpr ⟨hg, h.groups⟩, ?_, ?_, ?_, ?_, ?_⟩
  · have hlen : ((g :: gs).length : ℤ) = gs.length + 1 := by
      rw [List.length_cons]
      push_cast
      rfl
    rw [hlen]
    push_cast at hgap
    rcases ipv6Separator_go hk hsep with ⟨hi, hk₁, -⟩ | ⟨hi, hneg, hk₁, -⟩ | ⟨hi, hk₁, -⟩
    · rw [hk₁] at hgap
      omega
    · right
      refine ⟨hneg, Or.inr ?_⟩
      omega
    · rw [hk₁] at hgap
      omega
  · rw [List.length_cons]
    exact Nat.succ_le_succ h.count
  · intro hk'
    rw [List.length_cons, h.all hk']
  · intro hk'
    rw [List.length_cons]
    exact Nat.succ_lt_succ (h.more (by rw [hk', hassoc]))
  · rw [hsepText, ht, h.text, groupsText, hassoc, List.append_assoc, List.append_assoc]

/-- **What is read to its end is of the form.** -/
theorem ipv6Loop_sound : ∀ {n i : ℕ} {k k' : ℤ} {ip ip' s : Bytes} {i' : ℕ}, GapSoFar i k →
    i + n = 8 → ipv6Loop n i k ip s = some (ip', some (i', k', [])) →
    ∃ gs, Reads n i k s gs k' := by
  intro n
  induction n with
  | zero =>
    intro i k k' ip ip' s i' hk hn h
    obtain ⟨-, -, rfl, rfl⟩ : ip = ip' ∧ i = i' ∧ k = k' ∧ s = [] := by simpa [ipv6Loop] using h
    exact ⟨[], reads_nil hk hn (fun _ => rfl)⟩
  | succ n ih =>
    intro i k k' ip ip' s i' hk hn h
    rw [ipv6Loop] at h
    split at h
    · -- the gap is behind us, and no colon follows
      rename_i hsep
      obtain ⟨-, -, rfl, rfl⟩ : ip = ip' ∧ i = i' ∧ k = k' ∧ s = [] := by simpa using h
      refine ⟨[], reads_nil hk hn (fun hneg => ?_)⟩
      subst hneg
      unfold ipv6Separator at hsep
      split at hsep
      · simp at hsep
      · exact absurd hsep (by simp)
    · exact absurd h (by simp)
    · rename_i k₁ t hsep
      split at h
      · exact absurd h (by simp)
      · rename_i j v rest hhex
        rcases hexLoop_cases hhex with ⟨hj, rfl⟩ | ⟨hj, g, hg, ht⟩
        · -- no group here: the gap must be
          rw [if_pos hj] at h
          split at h
          · rename_i hki
            obtain ⟨-, -, rfl, rfl⟩ : ip = ip' ∧ i = i' ∧ k₁ = k' ∧ rest = [] := by
              simpa using h
            refine ⟨[], ?_⟩
            rcases ipv6Separator_go hk hsep with ⟨hi, rfl, rfl⟩ | ⟨hi, hneg, -, rfl⟩ | ⟨hi, rfl, rfl⟩
            · exact reads_nil hk hn (fun hneg => by omega)
            · refine ⟨by simp, Or.inr ⟨hneg, Or.inr ?_⟩, Nat.zero_le _, ?_, fun _ => Nat.succ_pos _,
                ?_⟩
              · rw [List.length_nil]
                omega
              · intro hk1
                omega
              · rw [tailText, List.length_nil, Nat.add_zero, if_pos ⟨hki, hi⟩]
                rfl
            · rcases hk with hk | ⟨-, hk⟩ | ⟨-, hk⟩ <;> omega
          · exact absurd h (by simp)
        · rw [if_neg hj] at h
          obtain ⟨ip₁, -, h⟩ := Option.bind_eq_some_iff.mp h
          obtain ⟨ip₂, -, h⟩ := Option.bind_eq_some_iff.mp h
          have hk' : GapSoFar (i + 1) k₁ := by
            rcases ipv6Separator_go hk hsep with ⟨hi, rfl, -⟩ | ⟨hi, -, rfl, -⟩ | ⟨hi, rfl, -⟩
            · rcases hk with hk | hk | hk
              · exact Or.inl hk
              · exact Or.inr (Or.inl ⟨hk.1, by omega⟩)
              · exact Or.inr (Or.inl ⟨by omega, by omega⟩)
            · exact Or.inr (Or.inl ⟨by omega, by omega⟩)
            · rcases hk with hk | hk | hk
              · exact Or.inl hk
              · exact Or.inr (Or.inl ⟨hk.1, by omega⟩)
              · omega
          obtain ⟨gs, hgs⟩ := ih hk' (by omega) h
          exact ⟨g :: gs, hgs.cons hk hsep hg ht⟩

/-! ## The texts that are read and the text form -/

theorem joinGroups_cons (g : Bytes) (gs : List Bytes) :
    joinGroups (g :: gs) = g ++ gs.flatMap (fun g => 58 :: g) := by
  induction gs generalizing g with
  | nil => simp [joinGroups]
  | cons g' gs ih =>
    have hstep : joinGroups (g :: g' :: gs) = g ++ 58 :: joinGroups (g' :: gs) := by
      simp [joinGroups, List.intercalate]
    rw [hstep, ih g', List.flatMap_cons, List.cons_append]

theorem groupsText_append (k : ℤ) (i : ℕ) (L R : List Bytes) :
    groupsText k i (L ++ R) = groupsText k i L ++ groupsText k (i + L.length) R := by
  induction L generalizing i with
  | nil => simp [groupsText]
  | cons g L ih =>
    rw [List.cons_append, groupsText, ih, groupsText, List.length_cons, List.append_assoc _ _
      (groupsText k (i + (L.length + 1)) R)]
    congr 3
    omega

/-- Groups behind the first one, without a gap between them. -/
theorem groupsText_noGap {k : ℤ} {i : ℕ} {gs : List Bytes} (hi : 0 < i)
    (hk : ∀ m : ℕ, i ≤ m → m < i + gs.length → k ≠ m) :
    groupsText k i gs = gs.flatMap (fun g => 58 :: g) := by
  induction gs generalizing i with
  | nil => rfl
  | cons g gs ih =>
    rw [List.length_cons] at hk
    rw [groupsText, sepText, if_neg (by omega), if_neg (hk i le_rfl (by omega)),
      ih (Nat.succ_pos i) (fun m h1 h2 => hk m (by omega) (by omega)), List.flatMap_cons]
    rfl

/-- Groups from the first one on, without a gap between them. -/
theorem groupsText_start {k : ℤ} {gs : List Bytes}
    (hk : ∀ m : ℕ, 1 ≤ m → m < gs.length → k ≠ m) : groupsText k 0 gs = joinGroups gs := by
  cases gs with
  | nil => rfl
  | cons g gs =>
    rw [List.length_cons] at hk
    rw [groupsText, sepText, if_pos rfl, List.nil_append, joinGroups_cons,
      groupsText_noGap (by norm_num) (fun m h1 h2 => hk m (by omega) (by omega))]

/-- **A gap behind the groups `L`.** -/
theorem groupsText_gap {L R : List Bytes} (hL : L ≠ []) :
    groupsText L.length 0 (L ++ R) ++ tailText L.length (0 + (L ++ R).length)
      = joinGroups L ++ [58, 58] ++ joinGroups R := by
  have hlen : 0 < L.length := List.length_pos_iff.mpr hL
  have hLtext : groupsText (L.length : ℤ) 0 L = joinGroups L :=
    groupsText_start (fun m _ h2 => by omega)
  rw [groupsText_append, hLtext, Nat.zero_add, Nat.zero_add, tailText]
  cases R with
  | nil =>
    rw [List.append_nil, if_pos ⟨rfl, hlen⟩]
    simp [groupsText, joinGroups]
  | cons g R =>
    have hno : ¬ ((L.length : ℤ) = (L ++ g :: R).length ∧ 0 < (L ++ g :: R).length) := by
      rw [List.length_append, List.length_cons]
      push_cast
      omega
    rw [if_neg hno, List.append_nil, groupsText, sepText, if_neg (by omega), if_pos rfl,
      groupsText_noGap (Nat.succ_pos _) (fun m h1 _ => by omega), joinGroups_cons]
    simp only [List.append_assoc]

/-- The groups `L` and `R` with a gap between them, as the code counts them. -/
structure GapForm (L R : List Bytes) : Prop where
  left : ∀ g ∈ L, IsGroup g
  right : ∀ g ∈ R, IsGroup g
  count : L.length + R.length ≤ 8
  more : R = [] → L.length < 8

/-- A text that does not start with two colons. -/
theorem ipv6Start_of_group {g rest : Bytes} (hg : IsGroup g) :
    ipv6Start (g ++ rest) = (-1, g ++ rest) := by
  obtain ⟨c, t, rfl, hc⟩ := hg.head
  unfold ipv6Start
  split
  · rename_i heq
    exact absurd (List.cons.inj heq).1 hc
  · rfl

/-- Eight groups are read. -/
theorem reads_full {gs : List Bytes} (hgs : ∀ g ∈ gs, IsGroup g) (hlen : gs.length = 8) :
    ipv6Start (joinGroups gs) = (-1, joinGroups gs) ∧ Reads 8 0 (-1) (joinGroups gs) gs (-1) := by
  constructor
  · cases gs with
    | nil => exact absurd hlen (by decide)
    | cons g gs =>
      rw [joinGroups_cons]
      exact ipv6Start_of_group (hgs g List.mem_cons_self)
  · refine ⟨hgs, Or.inr ⟨rfl, Or.inl rfl⟩, hlen.le, fun _ => hlen, fun h => by omega, ?_⟩
    rw [groupsText_start (fun m h1 _ => by omega), tailText, if_neg (by omega), List.append_nil]

/-- Groups with a gap are read. -/
theorem reads_gap {L R : List Bytes} (h : GapForm L R) :
    ∃ k s, ipv6Start (joinGroups L ++ [58, 58] ++ joinGroups R) = (k, s) ∧ GapSoFar 0 k ∧
      Reads 8 0 k s (L ++ R) L.length := by
  cases L with
  | nil =>
    have hmore := h.more
    refine ⟨0, joinGroups R, rfl, Or.inr (Or.inr ⟨rfl, rfl⟩), h.right, Or.inl ⟨le_rfl, rfl⟩, ?_,
      ?_, ?_, ?_⟩
    · simpa using h.count
    · intro hk
      exact absurd hk (by simp)
    · intro hk
      have hR : R = [] := by
        rw [← List.length_eq_zero_iff]
        simp at hk
        omega
      rw [hR]
      norm_num
    · rw [List.length_nil, List.nil_append, Nat.cast_zero,
        groupsText_start (fun m h1 _ => by omega), tailText, if_neg (by omega), List.append_nil]
  | cons g L =>
    refine ⟨-1, joinGroups (g :: L) ++ [58, 58] ++ joinGroups R, ?_, Or.inl rfl, ?_⟩
    · rw [joinGroups_cons, List.append_assoc, List.append_assoc]
      exact ipv6Start_of_group (h.left g List.mem_cons_self)
    · refine ⟨List.forall_mem_append.mpr ⟨h.left, h.right⟩, Or.inr ⟨rfl, Or.inr ?_⟩, ?_, ?_, ?_, ?_⟩
      · rw [List.length_append, List.length_cons]
        push_cast
        omega
      · rw [List.length_append]
        exact h.count
      · intro hk
        rw [List.length_cons] at hk
        omega
      · intro hk
        rw [Nat.zero_add, List.length_append] at hk
        have hR : R = [] := by
          rw [← List.length_eq_zero_iff]
          omega
        rw [hR, List.append_nil]
        exact h.more hR
      · exact (groupsText_gap (List.cons_ne_nil g L)).symm

/-- **What is read is a text form**, or eight groups with a gap. -/
theorem form_of_reads {str s : Bytes} {k k' : ℤ} {gs : List Bytes}
    (hstart : ipv6Start str = (k, s)) (h : Reads 8 0 k s gs k') :
    (str = joinGroups gs ∧ gs.length = 8 ∧ ∀ g ∈ gs, IsGroup g) ∨
      ∃ L R, GapForm L R ∧ str = joinGroups L ++ [58, 58] ++ joinGroups R := by
  have htext := h.text
  have hcount := h.count
  have hmore := h.more
  rw [Nat.zero_add] at hmore htext
  rcases h.gap with ⟨h0, rfl⟩ | ⟨rfl, hk⟩
  · -- the gap is at the start
    have hzero : k' = 0 ∧ str = 58 :: 58 :: s := by
      unfold ipv6Start at hstart
      split at hstart
      · obtain ⟨rfl, rfl⟩ := Prod.mk.inj hstart
        exact ⟨rfl, rfl⟩
      · obtain ⟨rfl, -⟩ := Prod.mk.inj hstart
        omega
    obtain ⟨rfl, rfl⟩ := hzero
    refine Or.inr ⟨[], gs, ⟨by simp, h.groups, by simpa using hcount, fun _ => by norm_num⟩, ?_⟩
    rw [groupsText_start (fun m h1 _ => by omega), tailText, if_neg (by omega),
      List.append_nil] at htext
    rw [htext]
    rfl
  · have hstr : s = str := by
      unfold ipv6Start at hstart
      split at hstart
      · obtain ⟨h1, -⟩ := Prod.mk.inj hstart
        omega
      · exact (Prod.mk.inj hstart).2.symm
    subst hstr
    rcases hk with rfl | ⟨h1, -, hle⟩
    · left
      refine ⟨?_, h.all rfl, h.groups⟩
      rw [htext, groupsText_start (fun m h1 _ => by omega), tailText, if_neg (by omega),
        List.append_nil]
    · right
      obtain ⟨m, rfl⟩ : ∃ m : ℕ, k' = m := ⟨k'.toNat, by omega⟩
      have hm : m ≤ gs.length := by omega
      have hlen : (gs.take m).length = m := by rw [List.length_take, min_eq_left hm]
      have hne : gs.take m ≠ [] := by
        intro hnil
        rw [hnil, List.length_nil] at hlen
        omega
      have hform := @groupsText_gap (gs.take m) (gs.drop m) hne
      rw [hlen, List.take_append_drop, Nat.zero_add] at hform
      refine ⟨gs.take m, gs.drop m, ⟨fun g hg => h.groups g (List.mem_of_mem_take hg),
        fun g hg => h.groups g (List.mem_of_mem_drop hg), ?_, ?_⟩, ?_⟩
      · rw [hlen, List.length_drop]
        omega
      · intro hnil
        rw [hlen]
        have hdrop := congrArg List.length hnil
        rw [List.length_drop, List.length_nil] at hdrop
        have := hmore (by omega)
        omega
      · rw [htext, hform]

/-! ## The parser -/

theorem groupBytes_append (vs ws : List ℕ) :
    groupBytes (vs ++ ws) = groupBytes vs ++ groupBytes ws := List.flatMap_append

theorem length_groupBytes (vs : List ℕ) : (groupBytes vs).length = 2 * vs.length := by
  induction vs with
  | nil => rfl
  | cons v vs ih =>
    rw [show v :: vs = [v] ++ vs from rfl, groupBytes_append, List.length_append, ih,
      List.length_append]
    show 2 + _ = 2 * (1 + _)
    ring

theorem groupBytes_zero (n : ℕ) : groupBytes (List.replicate n 0) = List.replicate (2 * n) 0 := by
  induction n with
  | zero => rfl
  | succ n ih =>
    rw [List.replicate_succ, show (0 :: List.replicate n 0 : List ℕ) = [0] ++ List.replicate n 0
      from rfl, groupBytes_append, ih, Nat.mul_succ, Nat.add_comm (2 * n), List.replicate_add]
    rfl

/-- **Eight groups are parsed.** -/
theorem parseTextIpv6_full {gs : List Bytes} (hgs : ∀ g ∈ gs, IsGroup g) (hlen : gs.length = 8)
    (ip : Ipv6Bytes) :
    parseTextIpv6 ip.val (joinGroups gs)
      = some (((joinGroups gs).length : ℤ), groupBytes (gs.map hexValue)) := by
  obtain ⟨hstart, hreads⟩ := reads_full hgs hlen
  have hloop := @ipv6Loop_complete gs 8 0 (-1) (-1) (joinGroups gs) [] ip.val hreads (Or.inl rfl)
    rfl (by rw [ip.property]) (by norm_num)
  rw [List.nil_append, List.drop_of_length_le (by rw [ip.property, hlen]), List.nil_append,
    List.append_nil, hlen] at hloop
  unfold parseTextIpv6
  simp only [hstart, hloop, some_bind]
  rfl

/-- **Groups with a gap are parsed**: the groups behind the gap move to the end of the address, and
the gap is filled with zeros. -/
theorem parseTextIpv6_gap {L R : List Bytes} (h : GapForm L R) (ip : Ipv6Bytes) :
    parseTextIpv6 ip.val (joinGroups L ++ [58, 58] ++ joinGroups R)
      = some (((joinGroups L ++ [58, 58] ++ joinGroups R).length : ℤ),
          groupBytes (L.map hexValue ++ List.replicate (8 - (L.length + R.length)) 0
            ++ R.map hexValue)) := by
  obtain ⟨k, s, hstart, hk, hreads⟩ := reads_gap h
  have hcount := h.count
  have hloop := @ipv6Loop_complete (L ++ R) 8 0 k L.length s [] ip.val hreads hk rfl
    (by rw [ip.property]) (by norm_num)
  set str := joinGroups L ++ [58, 58] ++ joinGroups R with hstr
  rw [List.nil_append, List.nil_append, List.map_append, groupBytes_append, Nat.zero_add,
    List.length_append] at hloop
  unfold parseTextIpv6
  simp only [hstart, hloop, Option.bind_eq_bind, Option.bind_some, ne_eq, not_true_eq_false,
    if_false]
  by_cases hall : L.length + R.length < 8
  · have hassert : (0 : ℤ) ≤ L.length ∧ (L.length : ℤ) ≤ (L.length + R.length : ℕ) := by
      constructor
      · exact Int.natCast_nonneg _
      · push_cast
        omega
    have hmove := @openGap (groupBytes (L.map hexValue)) (groupBytes (R.map hexValue))
      (ip.val.drop (2 * (L.length + R.length))) (2 * L.length)
      (2 * (8 - (L.length + R.length))) (2 * (L.length + R.length - L.length))
      (by rw [length_groupBytes, List.length_map])
      (by rw [length_groupBytes, List.length_map, Nat.add_sub_cancel_left])
      (by rw [List.length_drop, ip.property]; omega)
    obtain ⟨moved, hmoved, hset⟩ := Option.bind_eq_some_iff.mp hmove
    rw [if_pos hall]
    simp only [guard, if_pos hassert, Option.pure_def, Option.bind_some, Int.toNat_natCast, hmoved,
      hset, groupBytes_append, groupBytes_zero, List.length_nil, Nat.cast_zero, sub_zero]
  · have hfull : 8 - (L.length + R.length) = 0 := by omega
    rw [if_neg hall, hfull, List.drop_of_length_le (by rw [ip.property]; omega)]
    simp only [List.length_nil, Nat.cast_zero, sub_zero, List.replicate_zero, List.append_nil,
      groupBytes_append]

/-- **Everything else is rejected**, and nothing is written outside of the array. -/
theorem parseTextIpv6_reject {str : Bytes} (ip : Ipv6Bytes)
    (hno : ∀ k s gs k', ipv6Start str = (k, s) → ¬ Reads 8 0 k s gs k') :
    ∃ ip', parseTextIpv6 ip.val str = some (-1, ip') ∧ ip'.length = 16 := by
  obtain ⟨k, s, hstart⟩ : ∃ k s, ipv6Start str = (k, s) := ⟨_, _, rfl⟩
  have hk : GapSoFar 0 k := by
    unfold ipv6Start at hstart
    split at hstart
    · obtain ⟨rfl, -⟩ := Prod.mk.inj hstart
      exact Or.inr (Or.inr ⟨rfl, rfl⟩)
    · obtain ⟨rfl, -⟩ := Prod.mk.inj hstart
      exact Or.inl rfl
  obtain ⟨ip', r, hloop, hlen⟩ := @ipv6Loop_total 8 0 k ip.val s ip.property (by norm_num)
  refine ⟨ip', ?_, hlen⟩
  unfold parseTextIpv6
  simp only [hstart, hloop, some_bind]
  cases r with
  | none => rfl
  | some r =>
    obtain ⟨i, k', rest⟩ := r
    have hrest : rest ≠ [] := by
      rintro rfl
      obtain ⟨gs, hgs⟩ := ipv6Loop_sound hk (by norm_num) hloop
      exact hno k s gs k' hstart hgs
    simp only [if_pos hrest]

/-! ## What the parser accepts -/

/-- **The parser does right on a text**: it accepts it exactly when it is a text form, and then it
answers with the length of the text and stores the address; it never writes outside the array. -/
def ParsesIpv6 (ip : Ipv6Bytes) (str : Bytes) : Prop :=
  ∃ r ip', parseTextIpv6 ip.val str = some (r, ip') ∧ ip'.length = 16 ∧
    (r ≠ -1 ↔ ∃ vs, Ipv6Text str vs) ∧
    ∀ vs, Ipv6Text str vs → r = str.length ∧ ip' = groupBytes vs

/-- The text forms are parsed. -/
theorem parseTextIpv6_of_text {str : Bytes} {vs : List ℕ} (h : Ipv6Text str vs)
    (ip : Ipv6Bytes) :
    parseTextIpv6 ip.val str = some ((str.length : ℤ), groupBytes vs) ∧ vs.length = 8 := by
  cases h with
  | full hgs hlen =>
    exact ⟨parseTextIpv6_full hgs hlen ip, by rw [List.length_map, hlen]⟩
  | @gap L R hL hR hlen =>
    refine ⟨parseTextIpv6_gap ⟨hL, hR, by omega, fun _ => by omega⟩ ip, ?_⟩
    simp only [List.length_append, List.length_map, List.length_replicate]
    omega

/-- Eight groups with a gap are no text form. -/
theorem not_ipv6Text_of_eight {str : Bytes} (h : EightWithGap str) : ¬ ∃ vs, Ipv6Text str vs := by
  obtain ⟨L, R, hL, hR, hlen, hne, rfl⟩ := h
  have hform : GapForm L R := ⟨hL, hR, hlen.le, fun h => absurd h hne⟩
  obtain ⟨k, s, hstart, hk, hreads⟩ := reads_gap hform
  -- the loop is a function: the groups and the gap that it counts are these
  have hunique : ∀ {k₂ k' : ℤ} {s₂ : Bytes} {gs : List Bytes},
      ipv6Start (joinGroups L ++ [58, 58] ++ joinGroups R) = (k₂, s₂) → Reads 8 0 k₂ s₂ gs k' →
      gs.length = 8 ∧ k' = L.length := by
    intro k₂ k' s₂ gs hstart₂ hreads₂
    rw [hstart] at hstart₂
    obtain ⟨rfl, rfl⟩ := Prod.mk.inj hstart₂
    have h₁ := @ipv6Loop_complete (L ++ R) 8 0 k L.length s [] (List.replicate 16 0) hreads hk rfl
      (by simp) (by norm_num)
    have h₂ := @ipv6Loop_complete gs 8 0 k k' s [] (List.replicate 16 0) hreads₂ hk rfl
      (by simp) (by norm_num)
    rw [h₁] at h₂
    have heq := Option.some.inj (Prod.mk.inj (Option.some.inj h₂)).2
    obtain ⟨hi, hkk⟩ := Prod.mk.inj heq
    rw [List.length_append] at hi
    exact ⟨by omega, (Prod.mk.inj hkk).1.symm⟩
  rintro ⟨vs, htext⟩
  generalize hstr : joinGroups L ++ [58, 58] ++ joinGroups R = str at htext hunique
  cases htext with
  | full hgs hlen' =>
    obtain ⟨hstart', hreads'⟩ := reads_full hgs hlen'
    have := (hunique hstart' hreads').2
    omega
  | @gap L' R' hL' hR' hlen' =>
    obtain ⟨k', s', hstart', -, hreads'⟩ :=
      reads_gap ⟨hL', hR', by omega, fun _ => by omega⟩
    have := (hunique hstart' hreads').1
    rw [List.length_append] at this
    omega

/-- **Eight groups with a gap are accepted.** -/
theorem not_parsesIpv6_of_eight {str : Bytes} (h : EightWithGap str) (ip : Ipv6Bytes) :
    ¬ ParsesIpv6 ip str := by
  rintro ⟨r, ip', hparse, -, haccept, -⟩
  refine not_ipv6Text_of_eight h (haccept.mp ?_)
  obtain ⟨L, R, hL, hR, hlen, hne, rfl⟩ := h
  rw [parseTextIpv6_gap ⟨hL, hR, hlen.le, fun h => absurd h hne⟩ ip] at hparse
  rw [← (Prod.mk.inj (Option.some.inj hparse)).1]
  omega

/-- **The parser does right on every text but eight groups with a gap** in front of the first one
or between two of them. -/
theorem parsesIpv6_iff (ip : Ipv6Bytes) (str : Bytes) :
    ParsesIpv6 ip str ↔ ¬ EightWithGap str := by
  constructor
  · exact fun h height => not_parsesIpv6_of_eight height ip h
  · intro hno
    by_cases htext : ∃ vs, Ipv6Text str vs
    · obtain ⟨vs, hvs⟩ := htext
      obtain ⟨hparse, hlen⟩ := parseTextIpv6_of_text hvs ip
      refine ⟨_, _, hparse, ?_, ?_, ?_⟩
      · rw [length_groupBytes, hlen]
      · exact ⟨fun _ => ⟨vs, hvs⟩, fun _ => by omega⟩
      · intro ws hws
        obtain ⟨hparse', -⟩ := parseTextIpv6_of_text hws ip
        rw [hparse] at hparse'
        exact ⟨rfl, (Prod.mk.inj (Option.some.inj hparse')).2⟩
    · obtain ⟨ip', hparse, hlen⟩ := @parseTextIpv6_reject str ip (by
        intro k s gs k' hstart hreads
        rcases form_of_reads hstart hreads with ⟨rfl, h8, hgs⟩ | ⟨L, R, hform, rfl⟩
        · exact htext ⟨_, .full hgs h8⟩
        · by_cases h7 : L.length + R.length ≤ 7
          · exact htext ⟨_, .gap hform.left hform.right h7⟩
          · refine hno ⟨L, R, hform.left, hform.right, ?_, ?_, rfl⟩
            · have := hform.count
              omega
            · intro hR
              have := hform.more hR
              rw [hR, List.length_nil] at h7
              omega)
      refine ⟨_, _, hparse, hlen, ?_, fun vs hvs => absurd ⟨vs, hvs⟩ htext⟩
      exact ⟨fun h => absurd rfl h, fun h => absurd h htext⟩

/-- `"::1:2:3:4:5:6:7:8"` is accepted. -/
theorem parsesIpv6_fails :
    ¬ ParsesIpv6 ⟨List.replicate 16 0, rfl⟩ "::1:2:3:4:5:6:7:8".toUTF8.toList := by
  refine not_parsesIpv6_of_eight ⟨[], [[49], [50], [51], [52], [53], [54], [55], [56]], by simp, ?_,
    rfl, by simp, by decide +kernel⟩ _
  unfold IsGroup
  decide +kernel

end MtprotoProxy
