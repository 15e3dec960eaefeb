/-
# Walks along a message that change nothing

`rwm_compare` and `rwm_prepare_iovec` of `net/net-msg.c`: the one walks along two chains of parts at
once, the other makes a list of the places where the bytes of a message are.

* `rwmCompare_lex`: the sign of the comparison is that of the lexicographic order of the bytes, in
  whatever parts they are.
* `rwmPrepareIovec_prefix`: the list has an entry for each part that the bytes are in, and -1 comes
  exactly when there is no room for all of them.

Empty parts may stand anywhere in a chain, and a chain may go on behind the last part of a message.
-/
import MtprotoProxy.MsgSlicing

namespace MtprotoProxy

open CLib

/-- `memcmp` of two ranges of one length. -/
def memcmp : Bytes → Bytes → ℤ
  | a :: as, b :: bs => if a = b then memcmp as bs else a.toNat - b.toNat
  | _, _ => 0

/-- A place in a part, and the number of bytes from there to the end of what a message has in it:
`lp`, `lo` and `ls` of `rwm_compare`. -/
structure MsgCursor where
  part : ℕ
  offset : ℕ
  size : ℕ

/-- `lo += z` and `ls -= z`. -/
def MsgCursor.skip (c : MsgCursor) (z : ℕ) : MsgCursor :=
  { c with offset := c.offset + z, size := c.size - z }

/-- `struct iovec`, with a place in a buffer for `iov_base`. -/
structure Iovec where
  buffer : ℕ
  offset : ℕ
  len : ℕ

namespace MsgHeap

variable (H : MsgHeap)

/-- The cursor at the place `offset` of the part `p`. -/
def cursorAt (raw : RawMessage) (p offset : ℕ) : Option MsgCursor := do
  let mp ← H.parts.cell p
  some ⟨p, offset, (if raw.last = some p then raw.lastOffset else mp.dataEnd) - offset⟩

/-- Where no bytes are left, `lp = lp->next`, and the place and the size there. -/
def cursorNext (raw : RawMessage) (c : MsgCursor) : Option MsgCursor :=
  if c.size ≠ 0 then some c
  else do
    let mp ← H.parts.cell c.part
    let q ← mp.next
    let mq ← H.parts.cell q
    H.cursorAt raw q mq.offset

/-- `memcmp` of the next `z` bytes, where both parts have bytes left. -/
def compareBlocks (lc rc : MsgCursor) (z : ℕ) : Option ℤ :=
  if lc.size = 0 ∨ rc.size = 0 then some 0
  else do
    let ml ← H.parts.cell lc.part
    let X ← H.buffers.cell ml.part
    let mr ← H.parts.cell rc.part
    let Y ← H.buffers.cell mr.part
    some (memcmp (slice X.data lc.offset z) (slice Y.data rc.offset z))

/-- The loop of `rwm_compare`.  The fuel bounds the number of parts. -/
def compareLoop (l r : RawMessage) : ℕ → MsgCursor → MsgCursor → Option ℤ
  | 0, _, _ => none
  | n + 1, lc, rc => do
    let z := min lc.size rc.size
    let x ← H.compareBlocks lc rc z
    if x ≠ 0 then some x
    else do
      let lc := lc.skip z
      let rc := rc.skip z
      if lc.size = 0 ∧ l.last = some lc.part then
        some (if l.totalBytes = r.totalBytes then 0 else -1)
      else do
        let lc ← H.cursorNext l lc
        if rc.size = 0 ∧ r.last = some rc.part then
          some (if l.totalBytes = r.totalBytes then 0 else 1)
        else do
          let rc ← H.cursorNext r rc
          compareLoop l r n lc rc

/-- `rwm_compare`. -/
def rwmCompare (l r : RawMessage) : Option ℤ :=
  if l.totalBytes = 0 ∧ r.totalBytes = 0 then some 0
  else if l.totalBytes = 0 then some (-1)
  else if r.totalBytes = 0 then some 1
  else do
    let lf ← l.first
    let rf ← r.first
    let lc ← H.cursorAt l lf l.firstOffset
    let rc ← H.cursorAt r rf r.firstOffset
    H.compareLoop l r (2 * (H.parts.size + 1)) lc rc

/-- The loop of `rwm_prepare_iovec` with the entries that are written so far; the result is the
entries and what is returned.  The fuel bounds the number of parts. -/
def iovecLoop (raw : RawMessage) (iovLen : ℕ) :
    ℕ → Option ℕ → ℕ → ℕ → ℤ → List Iovec → Option (List Iovec × ℤ)
  | 0, _, _, _, _, _ => none
  | n + 1, mp, firstOffset, bytes, totalBytes, iov =>
    if bytes = 0 then some (iov, iov.length)
    else do
      let p ← mp
      if iov.length = iovLen then some (iov, -1)
      else do
        let mp ← H.parts.cell p
        let sz := (if raw.last = some p then raw.lastOffset else mp.dataEnd) - firstOffset
        if bytes < sz then some (iov ++ [⟨mp.part, firstOffset, bytes⟩], iov.length + 1)
        else
          let iov := iov ++ [⟨mp.part, firstOffset, sz⟩]
          match mp.next with
          | none =>
            if raw.last = some p ∧ bytes - sz = 0 ∧ totalBytes - sz = 0 then some (iov, iov.length)
            else none
          | some q => do
            let mq ← H.parts.cell q
            iovecLoop raw iovLen n (some q) mq.offset (bytes - sz) (totalBytes - sz) iov

/-- `rwm_prepare_iovec`. -/
def rwmPrepareIovec (raw : RawMessage) (iovLen bytes : ℕ) : Option (List Iovec × ℤ) :=
  let bytes := min bytes raw.totalBytes
  H.iovecLoop raw iovLen (H.parts.size + 2) raw.first raw.firstOffset bytes raw.totalBytes []

/-- The bytes of an entry, when it is within its buffer. -/
def iovBytes (v : Iovec) : Option Bytes := do
  let X ← H.buffers.cell v.buffer
  guard (v.offset + v.len ≤ X.data.length)
  some (slice X.data v.offset v.len)

/-- What `writev` makes of the entries. -/
def gather (iov : List Iovec) : Option Bytes := (iov.mapM H.iovBytes).map List.flatten

end MsgHeap

/-! ## The order of strings -/

/-- The sign of `x` says how the strings compare. -/
structure Compares (x : ℤ) (bs cs : Bytes) : Prop where
  lt : x < 0 → bs < cs
  eq : x = 0 → bs = cs
  gt : 0 < x → cs < bs

theorem Compares.refl (bs : Bytes) : Compares 0 bs bs :=
  ⟨fun h => absurd h (lt_irrefl 0), fun _ => rfl, fun h => absurd h (lt_irrefl 0)⟩

theorem Compares.of_lt {bs cs : Bytes} (h : bs < cs) : Compares (-1) bs cs :=
  ⟨fun _ => h, fun hx => absurd hx (by decide), fun hx => absurd hx (by decide)⟩

theorem Compares.of_gt {bs cs : Bytes} (h : cs < bs) : Compares 1 bs cs :=
  ⟨fun hx => absurd hx (by decide), fun hx => absurd hx (by decide), fun _ => h⟩

theorem Compares.append_left {x : ℤ} {bs cs : Bytes} (h : Compares x bs cs) (as : Bytes) :
    Compares x (as ++ bs) (as ++ cs) :=
  ⟨fun hx => List.append_left_lt (h.lt hx), fun hx => congrArg _ (h.eq hx),
    fun hx => List.append_left_lt (h.gt hx)⟩

/-- **The sign is that of the order.** -/
theorem Compares.sign {x : ℤ} {bs cs : Bytes} (h : Compares x bs cs) :
    (x < 0 ↔ bs < cs) ∧ (x = 0 ↔ bs = cs) ∧ (0 < x ↔ cs < bs) := by
  have hirrefl : ¬ bs < bs := List.lt_irrefl bs
  have hasymm : bs < cs → ¬ cs < bs := fun h₁ h₂ => List.lt_asymm h₁ h₂
  rcases lt_trichotomy x 0 with hx | hx | hx
  · have hlt := h.lt hx
    refine ⟨⟨fun _ => hlt, fun _ => hx⟩, ⟨fun h₀ => absurd h₀ hx.ne, ?_⟩,
      ⟨fun h₀ => absurd h₀ hx.asymm, fun h₀ => absurd h₀ (hasymm hlt)⟩⟩
    rintro rfl
    exact absurd hlt hirrefl
  · obtain rfl := h.eq hx
    exact ⟨⟨fun h₀ => absurd hx h₀.ne, fun h₀ => absurd h₀ hirrefl⟩, ⟨fun _ => rfl, fun _ => hx⟩,
      ⟨fun h₀ => absurd hx h₀.ne', fun h₀ => absurd h₀ hirrefl⟩⟩
  · have hgt := h.gt hx
    refine ⟨⟨fun h₀ => absurd h₀ hx.asymm, fun h₀ => absurd hgt (hasymm h₀)⟩,
      ⟨fun h₀ => absurd h₀ hx.ne', ?_⟩, ⟨fun _ => hgt, fun _ => hx⟩⟩
    rintro rfl
    exact absurd hgt hirrefl

theorem memcmp_eq_zero {as bs : Bytes} (hlen : as.length = bs.length) (h : memcmp as bs = 0) :
    as = bs := by
  induction as generalizing bs with
  | nil => exact (List.length_eq_zero_iff.mp hlen.symm).symm
  | cons a as ih =>
    cases bs with
    | nil => exact absurd hlen (Nat.succ_ne_zero _)
    | cons b bs =>
      unfold memcmp at h
      split_ifs at h with hab
      · rw [hab, ih (Nat.succ.inj hlen) h]
      · exact absurd (UInt8.toNat_inj.mp (by omega)) hab

/-- A difference decides, whatever follows. -/
theorem memcmp_compares {as bs : Bytes} (h : memcmp as bs ≠ 0) (s t : Bytes) :
    Compares (memcmp as bs) (as ++ s) (bs ++ t) := by
  induction as generalizing bs with
  | nil => exact absurd (by cases bs <;> rfl) h
  | cons a as ih =>
    cases bs with
    | nil => exact absurd rfl h
    | cons b bs =>
      unfold memcmp at h ⊢
      split_ifs at h ⊢ with hab
      · subst hab
        exact (ih h).append_left [a]
      · refine ⟨fun hx => List.Lex.rel ?_, fun hx => absurd hx h, fun hx => List.Lex.rel ?_⟩
        · exact UInt8.lt_iff_toNat_lt.mpr (by omega)
        · exact UInt8.lt_iff_toNat_lt.mpr (by omega)

namespace MsgHeap

variable {H : MsgHeap} {r : ℕ → ℕ} {raw : RawMessage}

/-! ## Cursors -/

/-- The message has the bytes `bs` from the cursor on, in `n` parts behind that of the cursor. -/
structure CursorOf (H : MsgHeap) (raw : RawMessage) (l n : ℕ) (c : MsgCursor) (bs : Bytes) :
    Prop where
  last : raw.last = some l
  span : Span H n c.part c.offset l raw.lastOffset bs
  size : ∀ mp, H.parts.cell c.part = some mp → c.size = partEnd raw c.part mp - c.offset

namespace CursorOf

variable {l n z : ℕ} {c : MsgCursor} {bs : Bytes}

theorem exists_cursorAt {p s : ℕ} (hl : raw.last = some l)
    (h : Span H n p s l raw.lastOffset bs) :
    ∃ c, H.cursorAt raw p s = some c ∧ c.part = p ∧ c.offset = s ∧ CursorOf H raw l n c bs := by
  obtain ⟨mp, X, hp, -⟩ := h.cell_first
  refine ⟨⟨p, s, partEnd raw p mp - s⟩, ?_, rfl, rfl, hl, h, ?_⟩
  · unfold cursorAt partEnd
    rw [hp]
    rfl
  · intro mp' hp'
    rw [hp] at hp'
    rw [Option.some.inj hp']

/-- The next bytes are in the part of the cursor. -/
theorem block (h : CursorOf H raw l n c bs) (hinv : Inv H r) (hz : z ≤ c.size) :
    z ≤ bs.length ∧ ∃ mp X, H.parts.cell c.part = some mp ∧ H.buffers.cell mp.part = some X ∧
      c.offset + z ≤ X.data.length ∧ slice X.data c.offset z = bs.take z := by
  obtain ⟨mp, X, hp, hX, -, -⟩ := h.span.cell_first
  have hsize := h.size mp hp
  obtain ⟨htake, -⟩ := h.span.cut_first raw hinv hp h.last rfl (by omega : z ≤ _)
  obtain ⟨Y, hY, -, hle⟩ := hinv.buffer _ mp hp
  obtain rfl := Option.mem_unique hX hY
  generalize hblock : bs.take z = block at htake
  cases htake with
  | last hp₀ hX₀ hs hle₀ he =>
    obtain rfl := Option.mem_unique hp hp₀
    obtain rfl := Option.mem_unique hX hX₀
    rw [Nat.add_sub_cancel_left] at hblock ⊢
    have hlen := congrArg List.length hblock
    rw [length_slice _ _ _ (by omega), List.length_take] at hlen
    exact ⟨by omega, mp, X, hp, hX, by omega, rfl⟩

theorem skip (h : CursorOf H raw l n c bs) (hinv : Inv H r) (hz : z ≤ c.size) :
    CursorOf H raw l n (c.skip z) (bs.drop z) := by
  obtain ⟨mp, X, hp, -⟩ := h.span.cell_first
  have hsize := h.size mp hp
  obtain ⟨-, hdrop⟩ := h.span.cut_first raw hinv hp h.last rfl (by omega : z ≤ _)
  refine ⟨h.last, hdrop, ?_⟩
  intro mp' hp'
  have hsize' := h.size mp' hp'
  unfold MsgCursor.skip
  dsimp only
  omega

/-- At the end of the last part nothing is left. -/
theorem done (h : CursorOf H raw l n c bs) (hinv : Inv H r) (hsize : c.size = 0)
    (hlast : raw.last = some c.part) : bs = [] := by
  obtain ⟨hl, hspan, hc⟩ := h
  obtain rfl := Option.mem_unique hl hlast
  generalize hpart : c.part = p at *
  generalize c.offset = s at *
  cases n with
  | succ n => exact absurd rfl (hspan.first_ne_last hinv)
  | zero =>
    cases hspan with
    | last hp hX hs hle he =>
      have hend := hc _ hp
      unfold partEnd at hend
      rw [if_pos hl] at hend
      rw [show raw.lastOffset - s = 0 by omega]
      exact List.take_zero

/-- In another part than the last one the bytes go on behind it. -/
theorem step {mp : MsgPart} (h : CursorOf H raw l n c bs) (hinv : Inv H r)
    (hp : H.parts.cell c.part = some mp) (hlast : raw.last ≠ some c.part) :
    ∃ m q mq c', mp.next = some q ∧ H.parts.cell q = some mq ∧
      H.cursorAt raw q mq.offset = some c' ∧ c'.part = q ∧ c'.offset = mq.offset ∧
      CursorOf H raw l m c' (bs.drop c.size) ∧ m < n := by
  obtain ⟨hl, hspan, hc⟩ := h
  have hend := hc mp hp
  unfold partEnd at hend
  rw [if_neg hlast] at hend
  generalize c.part = p at *
  generalize c.offset = s at *
  cases hspan with
  | last => exact absurd hl hlast
  | @step m _ _ q _ _ mp₀ mq X bs hp₀ hX hs hle hnext hq hrest =>
    obtain rfl := Option.mem_unique hp hp₀
    obtain ⟨Y, hY, -, hfits⟩ := hinv.buffer p mp hp
    obtain rfl := Option.mem_unique hX hY
    obtain ⟨c', hc', hpart, hoff, hcursor⟩ := exists_cursorAt hl hrest
    refine ⟨m, q, mq, c', hnext, hq, hc', hpart, hoff, ?_, Nat.lt_succ_self m⟩
    have hlen := length_slice X.data s (mp.dataEnd - s) (by omega)
    rwa [hend, List.drop_left' hlen]

/-- `cursorNext` goes on where no bytes are left. -/
theorem next (h : CursorOf H raw l n c bs) (hinv : Inv H r)
    (hmore : ¬ (c.size = 0 ∧ raw.last = some c.part)) :
    ∃ m c', H.cursorNext raw c = some c' ∧ CursorOf H raw l m c' bs ∧ m ≤ n ∧
      (c.size = 0 → m < n) := by
  by_cases hsize : c.size = 0
  · obtain ⟨mp, X, hp, -⟩ := h.span.cell_first
    obtain ⟨m, q, mq, c', hnext, hq, hc', -, -, hcursor, hlt⟩ :=
      h.step hinv hp (fun hlast => hmore ⟨hsize, hlast⟩)
    rw [hsize, List.drop_zero] at hcursor
    refine ⟨m, c', ?_, hcursor, hlt.le, fun _ => hlt⟩
    unfold cursorNext
    rw [if_neg (not_not.mpr hsize)]
    simp only [hp, hnext, hq, some_bind]
    exact hc'
  · exact ⟨n, c, if_pos hsize, h, le_rfl, fun h₀ => absurd h₀ hsize⟩

end CursorOf

/-! ## The comparison -/

theorem compareBlocks_eq {R : ℕ → ℕ} {l r : RawMessage} {ll lr nl nr z : ℕ} {lc rc : MsgCursor}
    {bs cs : Bytes} (hinv : Inv H R) (hl : CursorOf H l ll nl lc bs)
    (hr : CursorOf H r lr nr rc cs) (hz : z = min lc.size rc.size) :
    H.compareBlocks lc rc z = some (memcmp (bs.take z) (cs.take z)) := by
  unfold compareBlocks
  split_ifs with hempty
  · rw [show z = 0 by omega]
    rfl
  · obtain ⟨-, ml, X, hml, hX, -, hblockl⟩ := hl.block hinv (by omega : z ≤ lc.size)
    obtain ⟨-, mr, Y, hmr, hY, -, hblockr⟩ := hr.block hinv (by omega : z ≤ rc.size)
    simp only [hml, hX, hmr, hY, hblockl, hblockr, some_bind]

/-- **The rounds of `rwm_compare`**: each takes the bytes that both parts have left, and goes on to
the next part of one of the messages at least. -/
theorem compareLoop_spec {R : ℕ → ℕ} {l r : RawMessage} {ll lr nl nr : ℕ} {lc rc : MsgCursor}
    {bs cs : Bytes} (fuel : ℕ) (hinv : Inv H R) (hl : CursorOf H l ll nl lc bs)
    (hr : CursorOf H r lr nr rc cs) (htotal : l.totalBytes + cs.length = r.totalBytes + bs.length)
    (hfuel : nl + nr < fuel) :
    ∃ x, H.compareLoop l r fuel lc rc = some x ∧ Compares x bs cs := by
  induction fuel generalizing nl nr lc rc bs cs with
  | zero => exact absurd hfuel (Nat.not_lt_zero _)
  | succ fuel ih =>
    unfold compareLoop
    dsimp only
    rw [compareBlocks_eq hinv hl hr rfl, Option.bind_eq_bind, Option.bind_some]
    obtain ⟨hbs, -⟩ := hl.block hinv (Nat.min_le_left lc.size rc.size)
    obtain ⟨hcs, -⟩ := hr.block hinv (Nat.min_le_right lc.size rc.size)
    have hl' := hl.skip hinv (Nat.min_le_left lc.size rc.size)
    have hr' := hr.skip hinv (Nat.min_le_right lc.size rc.size)
    have hempty : (lc.skip (min lc.size rc.size)).size = 0 ∨
        (rc.skip (min lc.size rc.size)).size = 0 := by
      change lc.size - _ = 0 ∨ rc.size - _ = 0
      omega
    generalize min lc.size rc.size = z at *
    by_cases hdiff : memcmp (bs.take z) (cs.take z) = 0
    · have hsame := memcmp_eq_zero (by rw [List.length_take, List.length_take]; omega) hdiff
      have htotal' : l.totalBytes + (cs.drop z).length = r.totalBytes + (bs.drop z).length := by
        rw [List.length_drop, List.length_drop]
        omega
      rw [if_neg (not_not.mpr hdiff)]
      -- what is left decides, since the bytes so far are the same
      suffices hrest : ∃ x, _ = some x ∧ Compares x (bs.drop z) (cs.drop z) by
        obtain ⟨x, hx, hcmp⟩ := hrest
        have hall := hcmp.append_left (bs.take z)
        rw [List.take_append_drop, hsame, List.take_append_drop] at hall
        exact ⟨x, hx, hall⟩
      generalize bs.drop z = bs' at *
      generalize cs.drop z = cs' at *
      generalize lc.skip z = lc' at *
      generalize rc.skip z = rc' at *
      by_cases hlend : lc'.size = 0 ∧ l.last = some lc'.part
      · rw [if_pos hlend]
        obtain rfl := hl'.done hinv hlend.1 hlend.2
        rw [List.length_nil, Nat.add_zero] at htotal'
        refine ⟨_, rfl, ?_⟩
        split_ifs with hsum
        · obtain rfl : cs' = [] := List.eq_nil_of_length_eq_zero (by omega)
          exact Compares.refl []
        · cases cs' with
          | nil => exact absurd htotal' hsum
          | cons c cs' => exact Compares.of_lt (List.nil_lt_cons c cs')
      · obtain ⟨nl', lc'', hlc, hl'', hnl, hnl'⟩ := hl'.next hinv hlend
        rw [if_neg hlend, hlc, Option.bind_eq_bind, Option.bind_some]
        by_cases hrend : rc'.size = 0 ∧ r.last = some rc'.part
        · rw [if_pos hrend]
          obtain rfl := hr'.done hinv hrend.1 hrend.2
          rw [List.length_nil, Nat.add_zero] at htotal'
          refine ⟨_, rfl, ?_⟩
          split_ifs with hsum
          · obtain rfl : bs' = [] := List.eq_nil_of_length_eq_zero (by omega)
            exact Compares.refl []
          · cases bs' with
            | nil => exact absurd htotal' hsum
            | cons b bs' => exact Compares.of_gt (List.nil_lt_cons b bs')
        · obtain ⟨nr', rc'', hrc, hr'', hnr, hnr'⟩ := hr'.next hinv hrend
          rw [if_neg hrend, hrc, Option.bind_some]
          apply ih hl'' hr'' htotal'
          rcases hempty with hempty | hempty
          · have := hnl' hempty
            omega
          · have := hnr' hempty
            omega
    · rw [if_pos hdiff]
      refine ⟨_, rfl, ?_⟩
      have hcmp := memcmp_compares hdiff (bs.drop z) (cs.drop z)
      rwa [List.take_append_drop, List.take_append_drop] at hcmp

theorem Holds.cursor {R : ℕ → ℕ} {bs : Bytes} (h : Holds H raw bs) (hinv : Inv H R)
    (hne : raw.totalBytes ≠ 0) :
    ∃ f l n c, raw.first = some f ∧ H.cursorAt raw f raw.firstOffset = some c ∧ c.part = f ∧
      c.offset = raw.firstOffset ∧ CursorOf H raw l n c bs ∧ n < H.parts.size := by
  cases h with
  | clean => exact absurd rfl hne
  | @chain n f l s e bs hspan =>
    have hlast : (⟨some f, some l, bs.length, s, e⟩ : RawMessage).last = some l := rfl
    obtain ⟨c, hc, hpart, hoff, hcursor⟩ := CursorOf.exists_cursorAt hlast hspan
    exact ⟨f, l, n, c, rfl, hc, hpart, hoff, hcursor, hspan.lt_size hinv⟩

/-- **`rwm_compare` compares in the lexicographic order**, whatever parts the bytes are in. -/
theorem rwmCompare_lex {R : ℕ → ℕ} {l r : RawMessage} {bs cs : Bytes} (hinv : Inv H R)
    (hl : Holds H l bs) (hr : Holds H r cs) :
    ∃ x, H.rwmCompare l r = some x ∧ (x < 0 ↔ bs < cs) ∧ (x = 0 ↔ bs = cs) ∧
      (0 < x ↔ cs < bs) := by
  suffices hcmp : ∃ x, H.rwmCompare l r = some x ∧ Compares x bs cs by
    obtain ⟨x, hx, hsign⟩ := hcmp
    exact ⟨x, hx, hsign.sign⟩
  have hlen := hl.totalBytes
  have hlen' := hr.totalBytes
  unfold rwmCompare
  split_ifs with hboth hleft hright
  · obtain rfl := List.eq_nil_of_length_eq_zero (hlen.symm.trans hboth.1)
    obtain rfl := List.eq_nil_of_length_eq_zero (hlen'.symm.trans hboth.2)
    exact ⟨0, rfl, Compares.refl []⟩
  · obtain rfl := List.eq_nil_of_length_eq_zero (hlen.symm.trans hleft)
    cases cs with
    | nil => exact absurd ⟨hleft, hlen'⟩ hboth
    | cons c cs => exact ⟨-1, rfl, Compares.of_lt (List.nil_lt_cons c cs)⟩
  · obtain rfl := List.eq_nil_of_length_eq_zero (hlen'.symm.trans hright)
    cases bs with
    | nil => exact absurd hlen hleft
    | cons b bs => exact ⟨1, rfl, Compares.of_gt (List.nil_lt_cons b bs)⟩
  · obtain ⟨lf, ll, nl, lc, hlf, hlc, -, -, hlcursor, hnl⟩ := hl.cursor hinv hleft
    obtain ⟨rf, lr, nr, rc, hrf, hrc, -, -, hrcursor, hnr⟩ := hr.cursor hinv hright
    simp only [hlf, hrf, hlc, hrc, some_bind]
    exact compareLoop_spec _ hinv hlcursor hrcursor (by omega) (by omega)

/-- Three bytes in two parts, and the last of them as a message of its own. -/
theorem rwmCompare_lex_twoParts :
    ∃ x, twoParts.rwmCompare twoPartsMessage ⟨some 0, some 0, 1, 0, 1⟩ = some x ∧
      (x < 0 ↔ ([1, 2, 3] : Bytes) < [3]) ∧ (x = 0 ↔ ([1, 2, 3] : Bytes) = [3]) ∧
      (0 < x ↔ ([3] : Bytes) < [1, 2, 3]) := by
  have hcell : twoParts.parts.cell 0 = some ⟨1, none, 0, 0, 1⟩ := rfl
  have hspan : Span twoParts 0 0 0 0 1 [3] :=
    Span.last hcell rfl le_rfl (Nat.zero_le 1) le_rfl
  exact rwmCompare_lex twoParts_owns.inv twoParts_owns.holds (Holds.chain hspan)

/-! ## The list of places -/

/-- The entry for `k` bytes of a part. -/
theorem iovBytes_part {l n k : ℕ} {c : MsgCursor} {bs : Bytes} {mp : MsgPart}
    (hinv : Inv H r) (h : CursorOf H raw l n c bs) (hp : H.parts.cell c.part = some mp)
    (hk : k ≤ c.size) : H.iovBytes ⟨mp.part, c.offset, k⟩ = some (bs.take k) := by
  obtain ⟨-, mp', X, hp', hX, hfits, hblock⟩ := h.block hinv hk
  obtain rfl := Option.mem_unique hp hp'
  unfold iovBytes
  simp only [hX, hfits, hblock, guard_true, Option.pure_def, some_bind]

/-- The entries for `bytes` bytes from the place `offset` of a part on: the rest of what the message
has in one part after the other, and of the last part no more than is asked for. -/
inductive IovecOf (H : MsgHeap) (raw : RawMessage) : Option ℕ → ℕ → ℕ → List Iovec → Prop
  | nil (p : Option ℕ) (offset : ℕ) : IovecOf H raw p offset 0 []
  | last {p offset bytes : ℕ} {mp : MsgPart} (hp : H.parts.cell p = some mp) (hpos : 0 < bytes)
      (hle : bytes ≤ partEnd raw p mp - offset) :
      IovecOf H raw (some p) offset bytes [⟨mp.part, offset, bytes⟩]
  | part {p offset bytes size q : ℕ} {mp mq : MsgPart} {iov : List Iovec}
      (hp : H.parts.cell p = some mp) (hpos : 0 < bytes) (hsize : size = partEnd raw p mp - offset)
      (hle : size ≤ bytes) (hnext : mp.next = some q) (hq : H.parts.cell q = some mq)
      (h : IovecOf H raw (some q) mq.offset (bytes - size) iov) :
      IovecOf H raw (some p) offset bytes (⟨mp.part, offset, size⟩ :: iov)

/-- The entries have the first `bytes` bytes, and where some are left out, so are some bytes. -/
structure Gathers (H : MsgHeap) (bs : Bytes) (bytes : ℕ) (iov : List Iovec) : Prop where
  all : H.gather iov = some (bs.take bytes)
  fore : ∀ j < iov.length, ∃ k < bytes, H.gather (iov.take j) = some (bs.take k)

theorem gather_cons {iov : List Iovec} {v : Iovec} {bs cs : Bytes} (hv : H.iovBytes v = some bs)
    (h : H.gather iov = some cs) : H.gather (v :: iov) = some (bs ++ cs) := by
  unfold gather at *
  obtain ⟨blocks, hblocks, rfl⟩ := Option.map_eq_some_iff.mp h
  rw [List.mapM_cons, hv, hblocks]
  rfl

theorem Gathers.single {v : Iovec} {bs : Bytes} {bytes : ℕ} (hpos : 0 < bytes)
    (hv : H.iovBytes v = some (bs.take bytes)) : Gathers H bs bytes [v] where
  all := by
    rw [gather_cons hv (show H.gather [] = some [] from rfl), List.append_nil]
  fore := by
    intro j hj
    obtain rfl : j = 0 := Nat.lt_one_iff.mp hj
    exact ⟨0, hpos, rfl⟩

/-- A part in front. -/
theorem Gathers.cons {iov : List Iovec} {v : Iovec} {bs : Bytes} {bytes size : ℕ} (hpos : 0 < bytes)
    (hle : size ≤ bytes) (hv : H.iovBytes v = some (bs.take size))
    (h : Gathers H (bs.drop size) (bytes - size) iov) : Gathers H bs bytes (v :: iov) where
  all := by
    rw [gather_cons hv h.all, ← List.take_add, Nat.add_sub_cancel' hle]
  fore := by
    intro j hj
    cases j with
    | zero => exact ⟨0, hpos, rfl⟩
    | succ j =>
      obtain ⟨k, hk, hgather⟩ := h.fore j (Nat.lt_of_succ_lt_succ hj)
      refine ⟨size + k, by omega, ?_⟩
      rw [List.take_succ_cons, gather_cons hv hgather, ← List.take_add]

/-- What `rwm_prepare_iovec` gives back where the entries `iov` are needed. -/
def iovecAnswer (iovLen : ℕ) (iov : List Iovec) : List Iovec × ℤ :=
  if iov.length ≤ iovLen then (iov, iov.length) else (iov.take iovLen, -1)

theorem iovecAnswer_full {iovLen : ℕ} {iov more : List Iovec} (hfull : iov.length = iovLen)
    (hmore : more ≠ []) : iovecAnswer iovLen (iov ++ more) = (iov, -1) := by
  have hpos := List.length_pos_iff.mpr hmore
  unfold iovecAnswer
  rw [if_neg (by rw [List.length_append]; omega), ← hfull, List.take_left]

theorem iovecAnswer_room {iovLen : ℕ} {iov : List Iovec} (h : iov.length ≤ iovLen) :
    iovecAnswer iovLen iov = (iov, (iov.length : ℤ)) := if_pos h

section Rounds

variable {iovLen fuel p offset bytes : ℕ} {total : ℤ} {iov : List Iovec} {mp : MsgPart}

theorem iovecLoop_full (hpos : 0 < bytes) (hfull : iov.length = iovLen) :
    H.iovecLoop raw iovLen (fuel + 1) (some p) offset bytes total iov = some (iov, -1) := by
  unfold iovecLoop
  rw [if_neg hpos.ne']
  exact if_pos hfull

/-- What is asked for ends inside the part. -/
theorem iovecLoop_inside (hroom : iov.length < iovLen) (hp : H.parts.cell p = some mp)
    (hpos : 0 < bytes) (hin : bytes < partEnd raw p mp - offset) :
    H.iovecLoop raw iovLen (fuel + 1) (some p) offset bytes total iov
      = some (iov ++ [⟨mp.part, offset, bytes⟩], (iov.length : ℤ) + 1) := by
  unfold iovecLoop
  rw [if_neg hpos.ne']
  simp only [some_bind, hp, if_neg hroom.ne]
  exact if_pos hin

/-- The rest of the part is taken. -/
theorem iovecLoop_part {size : ℕ} (hroom : iov.length < iovLen) (hp : H.parts.cell p = some mp)
    (hpos : 0 < bytes) (hsize : size = partEnd raw p mp - offset) (hle : size ≤ bytes) :
    H.iovecLoop raw iovLen (fuel + 1) (some p) offset bytes total iov
      = match mp.next with
        | none =>
          if raw.last = some p ∧ bytes - size = 0 ∧ total - size = 0 then
            some (iov ++ [⟨mp.part, offset, size⟩],
              ((iov ++ [(⟨mp.part, offset, size⟩ : Iovec)]).length : ℤ))
          else none
        | some q => (H.parts.cell q).bind (fun mq =>
          H.iovecLoop raw iovLen fuel (some q) mq.offset (bytes - size) (total - size)
            (iov ++ [⟨mp.part, offset, size⟩])) := by
  subst hsize
  conv_lhs => unfold iovecLoop
  rw [if_neg hpos.ne']
  simp only [some_bind, hp, if_neg hroom.ne]
  exact if_neg (not_lt.mpr hle)

end Rounds

/-- **The rounds of `rwm_prepare_iovec`** behind the entries so far. -/
theorem iovecLoop_spec {l n : ℕ} {c : MsgCursor} {bs : Bytes} (fuel : ℕ) (hinv : Inv H r)
    (h : CursorOf H raw l n c bs) {bytes : ℕ} (hbytes : bytes ≤ bs.length) (hfuel : n + 1 < fuel) :
    ∃ full, IovecOf H raw (some c.part) c.offset bytes full ∧ Gathers H bs bytes full ∧
      ∀ (iovLen : ℕ) (iov : List Iovec), iov.length ≤ iovLen →
        H.iovecLoop raw iovLen fuel (some c.part) c.offset bytes bs.length iov
          = some (iovecAnswer iovLen (iov ++ full)) := by
  induction fuel generalizing n c bs bytes with
  | zero => exact absurd hfuel (Nat.not_lt_zero _)
  | succ fuel ih =>
    obtain ⟨mp, X, hp, -⟩ := h.span.cell_first
    have hsize := h.size mp hp
    rcases Nat.eq_zero_or_pos bytes with rfl | hpos
    · refine ⟨[], .nil _ _, ⟨rfl, fun j hj => absurd hj (Nat.not_lt_zero j)⟩, ?_⟩
      intro iovLen iov hiov
      rw [List.append_nil, iovecAnswer_room hiov]
      rfl
    have hone (k : ℕ) (iovLen : ℕ) (iov : List Iovec) (hroom : iov.length < iovLen) :
        iovecAnswer iovLen (iov ++ [⟨mp.part, c.offset, k⟩])
          = (iov ++ [⟨mp.part, c.offset, k⟩],
            ((iov ++ [(⟨mp.part, c.offset, k⟩ : Iovec)]).length : ℤ)) := by
      apply iovecAnswer_room
      rwa [List.length_append]
    by_cases hin : bytes < c.size
    · refine ⟨_, .last hp hpos (by omega),
        .single hpos (iovBytes_part hinv h hp hin.le), ?_⟩
      intro iovLen iov hiov
      rcases hiov.eq_or_lt with hfull | hroom
      · rw [iovecLoop_full hpos hfull, iovecAnswer_full hfull (List.cons_ne_nil _ _)]
      · rw [iovecLoop_inside hroom hp hpos (by omega), hone bytes iovLen iov hroom,
          List.length_append]
        rfl
    have hle : c.size ≤ bytes := not_lt.mp hin
    obtain ⟨hfits, -⟩ := h.block hinv (le_refl c.size)
    by_cases hlast : raw.last = some c.part
    · -- the last part has all bytes that are left
      have hnil := (h.skip hinv le_rfl).done hinv (Nat.sub_self c.size) hlast
      have hall : bs.length ≤ c.size := List.drop_eq_nil_iff.mp hnil
      obtain rfl : bytes = c.size := by omega
      refine ⟨_, .last hp hpos hsize.le, .single hpos (iovBytes_part hinv h hp le_rfl), ?_⟩
      intro iovLen iov hiov
      rcases hiov.eq_or_lt with hfull | hroom
      · rw [iovecLoop_full hpos hfull, iovecAnswer_full hfull (List.cons_ne_nil _ _)]
      · rw [iovecLoop_part hroom hp hpos hsize le_rfl, hone c.size iovLen iov hroom]
        cases hnext : mp.next with
        | none => exact if_pos ⟨hlast, Nat.sub_self _, by omega⟩
        | some q =>
          obtain ⟨mq, hq⟩ := hinv.next c.part q ⟨mp, hp, hnext⟩
          obtain ⟨fuel, rfl⟩ : ∃ k, fuel = k + 1 := ⟨fuel - 1, by omega⟩
          dsimp only
          rw [hq, Option.bind_some, Nat.sub_self]
          rfl
    · obtain ⟨m, q, mq, c', hnext, hq, -, rfl, hoff, hcursor, hlt⟩ := h.step hinv hp hlast
      have hrest : bytes - c.size ≤ (bs.drop c.size).length := by
        rw [List.length_drop]
        omega
      obtain ⟨full, hof, hgathers, hloop⟩ := ih hcursor hrest (by omega)
      rw [hoff] at hof hloop
      refine ⟨_, .part hp hpos hsize hle hnext hq hof,
        hgathers.cons hpos hle (iovBytes_part hinv h hp le_rfl), ?_⟩
      intro iovLen iov hiov
      rcases hiov.eq_or_lt with hfull | hroom
      · rw [iovecLoop_full hpos hfull, iovecAnswer_full hfull (List.cons_ne_nil _ _)]
      · have hrest := hloop iovLen (iov ++ [⟨mp.part, c.offset, c.size⟩]) (by
          rwa [List.length_append])
        rw [List.length_drop, Nat.cast_sub hfits] at hrest
        rw [iovecLoop_part hroom hp hpos hsize hle, hnext]
        dsimp only
        rw [hq, Option.bind_some, hrest, ← List.append_cons]

/-- **`rwm_prepare_iovec`**: there is a list of entries, one for each part that the bytes are in,
that has the bytes that were asked for.  With room for it that list is the result; otherwise all
entries are filled with the start of it, which has fewer bytes, and -1 is returned. -/
theorem rwmPrepareIovec_prefix {bs : Bytes} (hinv : Inv H r) (h : Holds H raw bs) (bytes : ℕ) :
    ∃ full, IovecOf H raw raw.first raw.firstOffset (min bytes raw.totalBytes) full ∧
      H.gather full = some (bs.take (min bytes raw.totalBytes)) ∧
      ∀ iovLen,
        (full.length ≤ iovLen →
          H.rwmPrepareIovec raw iovLen bytes = some (full, (full.length : ℤ))) ∧
        (iovLen < full.length →
          H.rwmPrepareIovec raw iovLen bytes = some (full.take iovLen, -1) ∧
          ∃ k < min bytes raw.totalBytes, H.gather (full.take iovLen) = some (bs.take k)) := by
  have htotal := h.totalBytes
  unfold rwmPrepareIovec
  by_cases hempty : raw.totalBytes = 0
  · rw [hempty, Nat.min_zero]
    exact ⟨[], .nil _ _, rfl,
      fun iovLen => ⟨fun _ => rfl, fun hlt => absurd hlt (Nat.not_lt_zero _)⟩⟩
  · obtain ⟨f, l, n, c, hf, -, hpart, hoff, hcursor, hn⟩ := h.cursor hinv hempty
    obtain ⟨full, hof, hgathers, hloop⟩ := iovecLoop_spec (H.parts.size + 2) hinv hcursor
      (show min bytes raw.totalBytes ≤ bs.length by omega) (by omega)
    rw [hpart, hoff, ← hf] at hof hloop
    refine ⟨full, hof, hgathers.all, fun iovLen => ?_⟩
    have hrun := hloop iovLen [] (Nat.zero_le iovLen)
    rw [← htotal, List.nil_append, iovecAnswer] at hrun
    refine ⟨fun hroom => ?_, fun hless => ⟨?_, hgathers.fore iovLen hless⟩⟩
    · rw [hrun, if_pos hroom]
    · rw [hrun, if_neg (not_le.mpr hless)]

/-- Three bytes in two parts need two entries, of two bytes and of one. -/
theorem rwmPrepareIovec_prefix_twoParts :
    IovecOf twoParts twoPartsMessage (some 1) 0 3 [⟨1, 0, 2⟩, ⟨0, 0, 1⟩] ∧
      twoParts.gather [⟨1, 0, 2⟩, ⟨0, 0, 1⟩] = some [1, 2, 3] ∧
      twoParts.rwmPrepareIovec twoPartsMessage 2 3 = some ([⟨1, 0, 2⟩, ⟨0, 0, 1⟩], 2) ∧
      twoParts.rwmPrepareIovec twoPartsMessage 1 3 = some ([⟨1, 0, 2⟩], -1) := by
  obtain ⟨full, hof, hgather, hall⟩ :=
    rwmPrepareIovec_prefix twoParts_owns.inv twoParts_owns.holds 3
  have hrun : twoParts.rwmPrepareIovec twoPartsMessage 2 3
      = some ([⟨1, 0, 2⟩, ⟨0, 0, 1⟩], 2) := rfl
  obtain ⟨htwo, hmore⟩ := hall 2
  rcases Nat.lt_or_ge 2 full.length with hlong | hroom
  · -- two entries are enough
    rw [(hmore hlong).1] at hrun
    simp at hrun
  · rw [htwo hroom, Option.some.injEq, Prod.mk.injEq] at hrun
    obtain ⟨rfl, -⟩ := hrun
    exact ⟨hof, hgather, htwo hroom, ((hall 1).2 (by decide)).1⟩

end MsgHeap

end MtprotoProxy
