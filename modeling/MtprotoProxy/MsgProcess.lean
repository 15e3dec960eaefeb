/-
# Fewer bytes

The operations that give up a message, take a second reference to it, cut it in two, or take
bytes from its front or its end.  The loops walk along the parts of the message; `Span.cut_first`
says where they stop, and `Span.pass_first` how they go on.

A part may be changed for good, and not only for the message that is cut, when the loop has found
all parts up to it with one reference.
-/
import MtprotoProxy.MsgAppend

namespace MtprotoProxy

open CLib

namespace MsgHeap

variable {H H' : MsgHeap} {r : ℕ → ℕ}

/-! ## Whole messages -/

variable {raw : RawMessage} {bs : Bytes}

/-- **`rwm_free`** gives up a message. -/
theorem rwmFree_spec (h : Owns H r raw bs) :
    ∃ H', H.rwmFree none raw = some H' ∧ Inv H' r ∧ Frame False r H H' :=
  msgPartDecref_spec none h.inv (by simp)

/-- **`rwm_clear`** makes a message empty. -/
theorem rwmClear_spec (h : Owns H r raw bs) :
    ∃ H', H.rwmClear raw = some (H', rwmClean) ∧ Owns H' r rwmClean [] ∧ Frame False r H H' := by
  obtain ⟨H', hdec, hinv, hfr⟩ := msgPartDecref_spec none h.inv (by simp)
  refine ⟨H', ?_, ⟨hinv.congr (fun q => (Nat.zero_add _).symm), Holds.clean⟩, hfr⟩
  unfold rwmClear
  rw [hdec]
  rfl

/-- One more reference to a part changes nothing else. -/
theorem msgPartIncref_frame {p : ℕ} {mp : MsgPart} {R : ℕ → ℕ} (hp : H.parts.cell p = some mp) :
    Frame False R H (H.setPart p { mp with refcnt := mp.refcnt + 1 }) := by
  have hcount : KeepsPart False mp { mp with refcnt := mp.refcnt + 1 } :=
    ⟨rfl, rfl, Or.inl ⟨rfl, rfl⟩⟩
  exact Frame.setPart_keep hp hcount

/-- **`rwm_clone`** makes a second message of the same bytes. -/
theorem rwmClone_spec (h : Owns H r raw bs) :
    ∃ H', H.rwmClone raw = some (H', raw) ∧
      Inv H' (fun q => ref raw.first q + (ref raw.first q + r q)) ∧ Holds H' raw bs ∧
      ∀ R, Frame False R H H' := by
  obtain ⟨hinv, hholds⟩ := h
  unfold rwmClone
  cases hholds with
  | clean => exact ⟨H, rfl, hinv.congr (fun q => (Nat.zero_add _).symm), Holds.clean,
      fun R => Frame.refl _ _ _⟩
  | @chain n f l s e bs hspan =>
    obtain ⟨mf, X, hf, -⟩ := hspan.cell_first
    obtain ⟨H', hinc, rfl, hinv'⟩ := msgPartIncref_inv hinv hf
    have hfr : Frame False (fun q => ref (some f) q + r q) H
        (H.setPart f { mf with refcnt := mf.refcnt + 1 }) := msgPartIncref_frame hf
    refine ⟨_, ?_, hinv', Holds.chain (hspan.frame hfr (ref_add_pos f)),
      fun R => msgPartIncref_frame hf⟩
    simp only [hinc, Option.map_some]

/-! ## Walking along a message -/

section Walk

variable {raw : RawMessage} {n f p l s e k : ℕ} {bs : Bytes} {mp : MsgPart}

/-- Only the first part starts elsewhere than it says. -/
theorem partStart_next {q : ℕ} {mq : MsgPart} (hinv : Inv H r) (hf : raw.first = some f)
    (hpath : H.Path f p) (hpq : H.Next p q) : partStart raw q mq = mq.offset := by
  refine if_neg (fun hq => ?_)
  rw [hf] at hq
  rw [Option.some.inj hq] at hpath
  exact hinv.not_cycle hpq hpath

theorem Span.partEnd_eq (h : Span H n p s l e bs) (hinv : Inv H r) (hl : raw.last = some l)
    (he : raw.lastOffset = e) :
    partEnd raw p mp = if n = 0 then e else mp.dataEnd := by
  unfold partEnd
  cases n with
  | zero =>
    cases h with
    | last => rw [if_pos hl, he, if_pos rfl]
  | succ n =>
    have hne := h.first_ne_last hinv
    rw [hl, if_neg (fun hb => hne (Option.some.inj hb).symm), if_neg (Nat.succ_ne_zero n)]

variable (raw) in
/-- **A span can be cut in its first part.** -/
theorem Span.cut_first (h : Span H n p s l e bs) (hinv : Inv H r) (hp : H.parts.cell p = some mp)
    (hl : raw.last = some l) (he : raw.lastOffset = e) (hk : k ≤ partEnd raw p mp - s) :
    Span H 0 p s p (s + k) (bs.take k) ∧ Span H n p (s + k) l e (bs.drop k) := by
  rw [h.partEnd_eq hinv hl he] at hk
  cases h with
  | last hp₀ hX hs hle he' =>
    rw [if_pos rfl] at hk
    obtain rfl := Option.mem_unique hp hp₀
    have htake : Span H 0 p s p (s + k) (slice _ s (s + k - s)) :=
      Span.last hp hX hs (Nat.le_add_right _ _) (by omega)
    have hdrop : Span H 0 p (s + k) p e (slice _ (s + k) (e - (s + k))) :=
      Span.last hp hX (by omega) (by omega) he'
    rw [take_slice _ _ hk, drop_slice]
    rw [Nat.add_sub_cancel_left] at htake
    rw [Nat.sub_add_eq] at hdrop
    exact ⟨htake, hdrop⟩
  | @step n _ _ q _ _ mp₀ mq X bs hp₀ hX hs hle hnext hq hrest =>
    rw [if_neg (Nat.succ_ne_zero n)] at hk
    obtain rfl := Option.mem_unique hp hp₀
    obtain ⟨Y, hY, -, hend⟩ := hinv.buffer p mp hp
    obtain rfl := Option.mem_unique hX hY
    have hlen := length_slice X.data s (mp.dataEnd - s) (by omega)
    have htake : Span H 0 p s p (s + k) (slice X.data s (s + k - s)) :=
      Span.last hp hX hs (Nat.le_add_right _ _) (by omega)
    have hdrop := Span.step hp hX (by omega : mp.offset ≤ s + k) (by omega) hnext hq hrest
    rw [List.take_append_of_le_length (by omega), List.drop_append_of_le_length (by omega),
      take_slice _ _ hk, drop_slice]
    rw [Nat.add_sub_cancel_left] at htake
    rw [Nat.sub_add_eq] at hdrop
    exact ⟨htake, hdrop⟩

/-- **A walk goes on** when what it looks for is not in the first part. -/
theorem Span.pass_first (h : Span H n p s l e bs) (hinv : Inv H r) (hp : H.parts.cell p = some mp)
    (hl : raw.last = some l) (he : raw.lastOffset = e) (hk : ¬ k ≤ partEnd raw p mp - s)
    (hlen : k ≤ bs.length) :
    ∃ n' q mq X bs', n = n' + 1 ∧ mp.next = some q ∧ H.parts.cell q = some mq ∧
      H.buffers.cell mp.part = some X ∧ mp.offset ≤ s ∧ s ≤ mp.dataEnd ∧
      Span H n' q mq.offset l e bs' ∧ partEnd raw p mp = mp.dataEnd ∧
      bs = slice X.data s (mp.dataEnd - s) ++ bs' ∧
      (slice X.data s (mp.dataEnd - s)).length = mp.dataEnd - s := by
  have hend : partEnd raw p mp = if n = 0 then e else mp.dataEnd := h.partEnd_eq hinv hl he
  cases h with
  | last hp₀ hX hs hle he' =>
    rw [if_pos rfl] at hend
    obtain rfl := Option.mem_unique hp hp₀
    obtain ⟨Y, hY, -, hend'⟩ := hinv.buffer p mp hp
    obtain rfl := Option.mem_unique hX hY
    rw [length_slice _ _ _ (by omega)] at hlen
    omega
  | @step n _ _ q _ _ mp₀ mq X bs hp₀ hX hs hle hnext hq hrest =>
    rw [if_neg (Nat.succ_ne_zero n)] at hend
    obtain rfl := Option.mem_unique hp hp₀
    obtain ⟨Y, hY, -, hend'⟩ := hinv.buffer p mp hp
    obtain rfl := Option.mem_unique hX hY
    exact ⟨n, q, mq, X, bs, rfl, hnext, hq, hX, hs, hle, hrest, hend, rfl,
      length_slice X.data s (mp.dataEnd - s) (by omega)⟩

/-- The flag of `rwm_process_ex` at the part `p`, before it has looked at it: the parts in front
have one reference. -/
def Clear (H : MsgHeap) (f : ℕ) (ok : Bool) (p : ℕ) : Prop :=
  ok = true → p = f ∨ ∃ m, Sole H f m ∧ H.Next m p

/-- The flag after the part. -/
theorem Clear.sole {ok : Bool} (h : Clear H f ok p) (hp : H.parts.cell p = some mp)
    (hok : (ok && mp.refcnt == 1) = true) : Sole H f p := by
  rw [Bool.and_eq_true, beq_iff_eq] at hok
  rcases h hok.1 with rfl | ⟨m, hm, hmp⟩
  · exact Sole.first hp hok.2
  · exact hm.next hmp hp hok.2

variable (raw) in
/-- The search of `rwm_process_ex`. -/
theorem processFind_spec (fuel : ℕ) {ok : Bool} (hinv : Inv H r) (hf : raw.first = some f)
    (hl : raw.last = some l) (he : raw.lastOffset = e) (hpath : H.Path f p)
    (hp : H.parts.cell p = some mp) (hs : partStart raw p mp = s) (h : Span H n p s l e bs)
    (hk : k ≤ bs.length) (hfuel : n < fuel) (hok : Clear H f ok p) :
    ∃ q c mq ok' n₁ n₂, H.processFind raw fuel p k ok
        = some (q, c, partEnd raw q mq - c, ok') ∧ H.parts.cell q = some mq ∧
      Span H n₁ p s q c (bs.take k) ∧ Span H n₂ q c l e (bs.drop k) ∧
      (ok' = true → Sole H f q) := by
  induction fuel generalizing n p s mp bs k ok with
  | zero => exact absurd hfuel (Nat.not_lt_zero _)
  | succ fuel ih =>
    unfold processFind
    simp only [hp, hs, Option.bind_eq_bind, Option.bind_some]
    by_cases hhere : k ≤ partEnd raw p mp - s
    · obtain ⟨htake, hdrop⟩ := h.cut_first raw hinv hp hl he hhere
      refine ⟨p, s + k, mp, ok && mp.refcnt == 1, 0, n, ?_, hp, htake, hdrop, hok.sole hp⟩
      rw [if_pos hhere, Nat.sub_add_eq]
    · obtain ⟨n', q, mq, X, bs', rfl, hnext, hq, hX, hoff, hle, hrest, hend, rfl, hlen⟩ :=
        h.pass_first hinv hp hl he hhere hk
      rw [List.length_append, hlen] at hk
      have hpq : H.Next p q := ⟨mp, hp, hnext⟩
      have hok' : Clear H f (ok && mp.refcnt == 1) q :=
        fun ht => Or.inr ⟨p, hok.sole hp ht, hpq⟩
      obtain ⟨q', c, mq', ok', n₁, n₂, hloop, hq', htake, hdrop, hsole⟩ :=
        ih (k := k - (mp.dataEnd - s)) (hpath.tail hpq) hq (partStart_next hinv hf hpath hpq)
          hrest (by omega) (by omega) hok'
      have hk' : k = (slice X.data s (mp.dataEnd - s)).length + (k - (mp.dataEnd - s)) := by omega
      refine ⟨q', c, mq', ok', n₁ + 1, n₂, ?_, hq', ?_, ?_, hsole⟩
      · rw [if_neg hhere, hnext, hend, Option.bind_some]
        exact hloop
      · rw [hk', List.take_length_add_append]
        exact Span.step hp hX hoff hle hnext hq htake
      · rw [hk', List.drop_length_add_append]
        exact hdrop

variable (raw) in
/-- `rwm_split` and `rwm_process_ex` look for the same place. -/
theorem splitLoop_eq (fuel p k : ℕ) (ok : Bool) :
    H.splitLoop raw fuel p k = (H.processFind raw fuel p k ok).map (fun x => (x.1, x.2.1)) := by
  induction fuel generalizing p k ok with
  | zero => rfl
  | succ fuel ih =>
    unfold splitLoop processFind
    simp only [Option.bind_eq_bind, Option.map_bind]
    refine Option.bind_congr (fun mp _ => ?_)
    rw [Function.comp_apply]
    split_ifs with hpast hhere hhere
    · omega
    · rw [Option.map_bind]
      exact Option.bind_congr (fun q _ => ih q _ _)
    · rfl
    · omega

variable (raw) in
/-- The loop of `rwm_split`. -/
theorem splitLoop_spec (fuel : ℕ) (hinv : Inv H r) (hl : raw.last = some l)
    (he : raw.lastOffset = e) (hp : H.parts.cell p = some mp) (hf : raw.first = some p)
    (hs : raw.firstOffset = s) (h : Span H n p s l e bs) (hk : k ≤ bs.length) (hfuel : n < fuel) :
    ∃ q c n₁ n₂, H.splitLoop raw fuel p k = some (q, c) ∧ Span H n₁ p s q c (bs.take k) ∧
      Span H n₂ q c l e (bs.drop k) := by
  obtain ⟨q, c, mq, ok, n₁, n₂, hfind, -, htake, hdrop, -⟩ :=
    processFind_spec raw fuel hinv hf hl he
    Relation.ReflTransGen.refl hp (by rw [partStart, if_pos hf, hs]) h hk hfuel
    (fun _ => Or.inl rfl : Clear H p true p)
  exact ⟨q, c, n₁, n₂, by rw [splitLoop_eq raw fuel p k true, hfind, Option.map_some], htake, hdrop⟩

variable (raw) in
/-- The loop of `rwm_process_ex` that hands the bytes on. -/
theorem processBlocks_spec (fuel : ℕ) {ok : Bool} {o : List Bytes} (hinv : Inv H r)
    (hf : raw.first = some f) (hl : raw.last = some l) (he : raw.lastOffset = e)
    (hpath : H.Path f p) (hp : H.parts.cell p = some mp) (h : Span H n p s l e bs)
    (hk : k ≤ bs.length) (hfuel : n < fuel) (hok : ok = true → Sole H f p) :
    ∃ q c ok' o' n₂, H.processBlocks raw fuel p s (partEnd raw p mp - s) k ok o
        = some (q, c, ok', o') ∧ o'.flatten = o.flatten ++ bs.take k ∧
      Span H n₂ q c l e (bs.drop k) ∧ H.Path f q ∧ (ok' = true → Sole H f q) := by
  induction fuel generalizing n p s mp bs k ok o with
  | zero => exact absurd hfuel (Nat.not_lt_zero _)
  | succ fuel ih =>
    unfold processBlocks
    by_cases hhere : k ≤ partEnd raw p mp - s
    · obtain ⟨htake, hdrop⟩ := h.cut_first raw hinv hp hl he hhere
      generalize hbs : bs.take k = bs₁ at htake
      cases htake with
      | @last _ _ _ mp₀ X hp₀ hX hs hle he' =>
        obtain rfl := Option.mem_unique hp hp₀
        rw [Nat.add_sub_cancel_left]
        simp only [hp, hX, some_bind]
        exact ⟨p, s + k, ok, _, n, if_pos hhere, List.flatten_concat, hdrop, hpath, hok⟩
    · obtain ⟨n', q, mq, X, bs', rfl, hnext, hq, hX, hoff, hle, hrest, hend, rfl, hlen⟩ :=
        h.pass_first hinv hp hl he hhere hk
      rw [List.length_append, hlen] at hk
      have hpq : H.Next p q := ⟨mp, hp, hnext⟩
      have hclear : Clear H f ok q := fun ht => Or.inr ⟨p, hok ht, hpq⟩
      -- an empty part is passed over without a call
      have hflatten : (if mp.dataEnd - s = 0 then o
          else o ++ [slice X.data s (mp.dataEnd - s)]).flatten
            = o.flatten ++ slice X.data s (mp.dataEnd - s) := by
        split_ifs with hzero
        · rw [hzero, slice, List.take_zero, List.append_nil]
        · exact List.flatten_concat
      obtain ⟨q', c, ok', o', n₂, hloop, ho', hdrop, hpath', hsole⟩ :=
        ih (k := k - (mp.dataEnd - s)) (o := if mp.dataEnd - s = 0 then o
          else o ++ [slice X.data s (mp.dataEnd - s)])
          (hpath.tail hpq) hq hrest (by omega) (by omega) (hclear.sole hq)
      have hk' : k = (slice X.data s (mp.dataEnd - s)).length + (k - (mp.dataEnd - s)) := by omega
      refine ⟨q', c, ok', o', n₂, ?_, ?_, ?_, hpath', hsole⟩
      · simp only [hp, hX, hnext, hq, some_bind]
        rw [if_neg hhere, partStart_next hinv hf hpath hpq, hend, ← hloop]
      · rw [ho', hflatten, List.append_assoc, hk', List.take_length_add_append, hlen,
          Nat.add_sub_cancel_left]
      · rw [hk', List.drop_length_add_append]
        exact hdrop

end Walk

/-! ## Two messages of one -/

/-- All bytes of a message are in its last part: the condition of `rwm_split` for a cut in the
last part, at a cut in front of the first byte. -/
def AllInLast (H : MsgHeap) (raw : RawMessage) : Prop :=
  ∀ l ml, raw.last = some l → H.parts.cell l = some ml → raw.totalBytes ≤ raw.lastOffset - ml.offset

/-- **`rwm_split`** after the first bytes: the bytes before the cut, and the others. -/
theorem rwmSplit_spec {k : ℕ} (tail₀ : RawMessage)
    (h : Owns H r raw bs) (hcut : 0 < k ∨ AllInLast H raw) :
    ∃ H' head tail, H.rwmSplit raw tail₀ k = some (H', head, tail) ∧
      Inv H' (fun q => ref head.first q + (ref tail.first q + r q)) ∧ Holds H' head (bs.take k) ∧
      Holds H' tail (bs.drop k) ∧ Frame False r H H' := by
  obtain ⟨hinv, hholds⟩ := h
  -- all bytes stay in front of a cut at the end
  rcases Nat.lt_or_ge k bs.length with hk | hk
  swap
  · have htotal := hholds.totalBytes
    refine ⟨H, raw, rwmClean, if_pos (by omega), ?_, ?_, ?_, Frame.refl _ _ _⟩
    · exact hinv.congr (fun q => congrArg _ (Nat.zero_add (r q)).symm)
    · rwa [List.take_of_length_le hk]
    · rw [List.drop_of_length_le hk]
      exact Holds.clean
  cases hholds with
  | clean => exact absurd hk (Nat.not_lt_zero _)
  | @chain n f l s e bs hspan =>
    obtain ⟨mf, -, hf, -, -⟩ := hspan.cell_first
    obtain ⟨ml, -, hl, -, -, -⟩ := hspan.cell_last
    unfold rwmSplit
    rw [if_neg (by dsimp only; omega)]
    simp only [hl, Option.bind_eq_bind, Option.bind_some]
    -- with one more reference to the part at the cut, both halves are messages
    have hhalves : ∀ {p c n₁ n₂ : ℕ}, Span H n₁ f s p c (bs.take k) →
        Span H n₂ p c l e (bs.drop k) → ∃ mp, H.parts.cell p = some mp ∧
        H.msgPartIncref p = some (H.setPart p { mp with refcnt := mp.refcnt + 1 }) ∧
        Inv (H.setPart p { mp with refcnt := mp.refcnt + 1 })
          (fun q => ref (some f) q + (ref (some p) q + r q)) ∧
        Holds (H.setPart p { mp with refcnt := mp.refcnt + 1 }) ⟨some f, some p, k, s, c⟩
          (bs.take k) ∧
        Holds (H.setPart p { mp with refcnt := mp.refcnt + 1 })
          ⟨some p, some l, bs.length - k, c, e⟩ (bs.drop k) ∧
        Frame False r H (H.setPart p { mp with refcnt := mp.refcnt + 1 }) := by
      intro p c n₁ n₂ hhead htail
      obtain ⟨mp, -, hp, -⟩ := htail.cell_first
      obtain ⟨H', hinc, rfl, hinv'⟩ := msgPartIncref_inv hinv hp
      have hfr : ∀ R, Frame False R H (H.setPart p { mp with refcnt := mp.refcnt + 1 }) :=
        fun R => msgPartIncref_frame hp
      refine ⟨mp, hp, hinc, hinv'.congr (fun q => Nat.add_left_comm _ _ _), ?_, ?_, hfr r⟩
      · have hhead' := Holds.chain (hhead.frame (hfr (fun q => ref (some f) q + r q))
          (ref_add_pos f))
        rwa [List.length_take, Nat.min_eq_left hk.le] at hhead'
      · have htail' := Holds.chain (htail.frame (hfr (fun q => ref (some p) q + r q))
          (ref_add_pos p))
        rwa [List.length_drop] at htail'
    by_cases hlast : bs.length - k ≤ e - ml.offset
    · obtain ⟨hhead, htail⟩ := hspan.cut_last hinv hl hlast (by omega)
      rw [Nat.sub_sub_self hk.le] at hhead htail
      obtain ⟨mp, hp, hinc, hinv', hhead', htail', hfr⟩ := hhalves hhead htail
      exact ⟨_, _, _, by rw [if_pos hlast, hinc, Option.bind_some], hinv', hhead', htail', hfr⟩
    · obtain ⟨p, c, n₁, n₂, hloop, hhead, htail⟩ := splitLoop_spec
        ⟨some f, some l, bs.length, s, e⟩ (H.parts.size + 1) hinv rfl rfl hf rfl rfl hspan hk.le
        (Nat.lt_succ_of_lt (hspan.lt_size hinv))
      obtain ⟨mp, hp, hinc, hinv', hhead', htail', hfr⟩ := hhalves hhead htail
      have hpos : k ≠ 0 := by
        rintro rfl
        rcases hcut with hzero | hall
        · exact absurd hzero (lt_irrefl 0)
        · exact hlast (hall l ml rfl hl)
      refine ⟨_, _, _, ?_, hinv', hhead', htail', hfr⟩
      rw [if_neg hlast, if_neg hpos, hloop]
      simp only [hinc, Option.bind_some]

/-! ## Bytes taken from a message -/

/-- A reference that moves from the first part to a later one. -/
theorem advance_ref {f p : ℕ} {mp : MsgPart} (hinv : Inv H (fun q => ref (some f) q + r q))
    (hp : H.parts.cell p = some mp) :
    ∃ H', (do
      let H ← H.msgPartIncref p
      H.msgPartDecref none (some f)) = some H' ∧ Inv H' (fun q => ref (some p) q + r q) ∧
      Frame False (fun q => ref (some p) q + r q) H H' := by
  obtain ⟨H₁, hinc, rfl, hinv₁⟩ := msgPartIncref_inv hinv hp
  obtain ⟨H₂, hdec, hinv₂, hfr₂⟩ := msgPartDecref_spec none
    (hinv₁.congr (fun q => Nat.add_left_comm _ _ _)) (by simp)
  refine ⟨H₂, ?_, hinv₂, (msgPartIncref_frame hp).trans hfr₂⟩
  simp only [hinc, hdec, some_bind]

/-- `RMPF_ADVANCE`: the message starts at the place `c` of the part `p` now. -/
theorem processAdvance_spec {n f p l s e c k : ℕ} {bs : Bytes} {ok : Bool}
    (h : Owns H r ⟨some f, some l, bs.length, s, e⟩ bs) (hrest : Span H n p c l e (bs.drop k))
    (hok : ok = true → Sole H f p) :
    ∃ H' raw', H.processAdvance ⟨some f, some l, bs.length, s, e⟩ p c k ok = some (H', raw') ∧
      Owns H' r raw' (bs.drop k) ∧ Frame False r H H' := by
  unfold processAdvance
  by_cases hall : k = bs.length
  · obtain ⟨H', hclear, howns, hfr⟩ := rwmClear_spec h
    refine ⟨H', rwmClean, ?_, ?_, hfr⟩
    · rw [if_pos hall, hclear]
    · rwa [hall, List.drop_length]
  · rw [if_neg hall]
    obtain ⟨mp, X, hp, hX, hoff, hle⟩ := hrest.cell_first
    -- the message has its reference to the part `p`
    obtain ⟨H₁, hmove, hinv₁, hfr₁⟩ : ∃ H₁, H.moveFirst ⟨some f, some l, bs.length, s, e⟩ p
        = some H₁ ∧ Inv H₁ (fun q => ref (some p) q + r q) ∧
        Frame False (fun q => ref (some p) q + r q) H H₁ := by
      unfold moveFirst
      by_cases hfp : f = p
      · subst hfp
        exact ⟨H, if_pos rfl, h.inv, Frame.refl _ _ _⟩
      · rw [if_neg (fun hb => hfp (Option.some.inj hb))]
        exact advance_ref h.inv hp
    have hle₀ : ∀ q, r q ≤ ref (some p) q + r q := fun q => Nat.le_add_left _ _
    have hfr : Frame False r H H₁ := hfr₁.mono hle₀
    have hrest₁ := hrest.frame hfr₁ (ref_add_pos p)
    obtain ⟨mp₁, X₁, hp₁, hX₁, hoff₁, hle₁⟩ := hrest₁.cell_first
    obtain ⟨Y, hY, -, hend⟩ := hinv₁.buffer p mp₁ hp₁
    have htotal : bs.length - k = (bs.drop k).length := List.length_drop.symm
    cases hokb : ok with
    | false =>
      refine ⟨H₁, ⟨some p, some l, bs.length - k, c, e⟩, ?_, ⟨hinv₁, ?_⟩, hfr⟩
      · simp only [hmove, hp₁, some_bind]
        rfl
      · rw [htotal]
        exact Holds.chain hrest₁
    | true =>
      -- no other message reaches the part
      have haway : ¬ Reach r H₁ p := hfr.not_reach h.inv ((hok hokb).not_reach h.inv)
      refine ⟨H₁.setPart p { mp₁ with offset := c }, ⟨some p, some l, bs.length - k, c, e⟩, ?_,
        ⟨?_, ?_⟩, hfr.trans (Frame.setPart _ haway)⟩
      · simp only [hmove, hp₁, some_bind]
        rfl
      · refine hinv₁.setRange hp₁ hle₁ (fun Z hZ => ?_)
        rw [← Option.mem_unique hY hZ]
        exact hend
      · rw [htotal]
        exact Holds.chain (hrest₁.setFirst hinv₁ hp₁ rfl rfl le_rfl rfl)

/-- `RMPF_TRUNCATE`: the message ends at the place `c` of the part `p` now. -/
theorem processTruncate_spec {n f p l s e c k : ℕ} {bs : Bytes} {ok : Bool}
    (h : Owns H r ⟨some f, some l, bs.length, s, e⟩ bs) (hfront : Span H n f s p c (bs.take k))
    (hok : ok = true → Sole H f p) (hk : k ≤ bs.length) :
    ∃ H' raw', H.processTruncate ⟨some f, some l, bs.length, s, e⟩ p c k ok = some (H', raw') ∧
      Owns H' r raw' (bs.take k) ∧ Frame False r H H' := by
  unfold processTruncate
  by_cases hzero : k = 0
  · obtain ⟨H', hclear, howns, hfr⟩ := rwmClear_spec h
    refine ⟨H', rwmClean, ?_, ?_, hfr⟩
    · rw [if_pos hzero, hclear]
    · rwa [hzero, List.take_zero]
  · rw [if_neg hzero]
    have htotal : k = (bs.take k).length := by
      rw [List.length_take, Nat.min_eq_left hk]
    cases hokb : ok with
    | false =>
      refine ⟨H, ⟨some f, some p, k, s, c⟩, rfl, ⟨h.inv, ?_⟩, Frame.refl _ _ _⟩
      have hholds := Holds.chain hfront
      rwa [← htotal] at hholds
    | true =>
      obtain ⟨mp, X, hp, hX, hoff, hle⟩ := hfront.cell_last
      obtain ⟨Y, hY, -, hend⟩ := h.inv.buffer p mp hp
      have haway : ¬ Reach r H p := (hok hokb).not_reach h.inv
      have hinv₁ : Inv (H.setPart p { mp with dataEnd := c, next := none })
          (fun q => ref mp.next q + (ref (some f) q + r q)) :=
        h.inv.cut hp hoff (fun Z hZ => by
          rw [← Option.mem_unique hY hZ]
          omega)
      have hfront₁ : Span (H.setPart p { mp with dataEnd := c, next := none }) n f s p c
          (bs.take k) := hfront.setLast h.inv hp rfl rfl le_rfl
      obtain ⟨H₂, hdec, hinv₂, hfr₂⟩ := msgPartDecref_spec none hinv₁ (by simp)
      refine ⟨H₂, ⟨some f, some p, k, s, c⟩, ?_, ⟨hinv₂, ?_⟩,
        (Frame.setPart _ haway).trans (hfr₂.mono (fun q => Nat.le_add_left _ _))⟩
      · simp only [hp, hdec, some_bind]
        rfl
      · have hholds := Holds.chain (hfront₁.frame hfr₂ (ref_add_pos f))
        rwa [← htotal] at hholds

/-- What a call of `rwm_process_ex` for `k > 0` bytes from the place `offset` on leaves of a
message. -/
def leftOf (bs : Bytes) (k offset : ℕ) : ProcessFlag → Bytes
  | .keep => bs
  | .advance => bs.drop (offset + k)
  | .truncate => bs.take offset

/-- The bytes of a span of one part are in its buffer. -/
theorem Span.slice_eq {p s e k : ℕ} {bs : Bytes} {mp : MsgPart} {X : MsgBuffer}
    (h : Span H 0 p s p e bs) (hp : H.parts.cell p = some mp)
    (hX : H.buffers.cell mp.part = some X) (hk : k ≤ bs.length) :
    slice X.data s k = bs.take k := by
  cases h with
  | last hp₀ hX₀ _ _ _ =>
    obtain rfl := Option.mem_unique hp hp₀
    obtain rfl := Option.mem_unique hX hX₀
    unfold slice at hk ⊢
    rw [List.length_take] at hk
    rw [List.take_take, Nat.min_eq_left (by omega)]

/-- `rwm_process_ex` when all that it looks at is in the last part. -/
theorem processLast_spec {n f l s e k offset : ℕ} {bs : Bytes} {ml : MsgPart} {X : MsgBuffer}
    (flag : ProcessFlag) (h : Owns H r ⟨some f, some l, bs.length, s, e⟩ bs)
    (hspan : Span H n f s l e bs) (hl : H.parts.cell l = some ml)
    (hX : H.buffers.cell ml.part = some X) (hx : bs.length - offset ≤ e - ml.offset)
    (hk : offset + k ≤ bs.length) :
    ∃ H' raw', H.processLast ⟨some f, some l, bs.length, s, e⟩ l (bs.length - offset) k offset flag
        (slice X.data (e - (bs.length - offset)) k) = some (H', raw', slice bs offset k) ∧
      Owns H' r raw' (leftOf bs k offset flag) ∧ Frame False r H H' := by
  obtain ⟨htake, hdrop⟩ := hspan.cut_last h.inv hl hx (Nat.sub_le _ _)
  rw [Nat.sub_sub_self (by omega)] at htake hdrop
  -- the bytes that are looked at
  have hbytes : slice X.data (e - (bs.length - offset)) k = slice bs offset k :=
    hdrop.slice_eq hl hX (by rw [List.length_drop]; omega)
  rw [hbytes]
  unfold processLast
  cases flag with
  | keep => exact ⟨H, _, rfl, h, Frame.refl _ _ _⟩
  | advance =>
    obtain ⟨H₁, hmove, hinv₁, hfr₁⟩ := advance_ref h.inv hl
    have hend : partEnd ⟨some f, some l, bs.length, s, e⟩ l ml = e := if_pos rfl
    obtain ⟨-, hrest⟩ := hdrop.cut_first ⟨some f, some l, bs.length, s, e⟩ (k := k) h.inv hl rfl rfl
      (by rw [hend]; omega)
    rw [List.drop_drop] at hrest
    refine ⟨H₁, ⟨some l, some l, bs.length - (offset + k), e - (bs.length - offset) + k, e⟩, ?_,
      ⟨hinv₁, ?_⟩, hfr₁.mono (fun q => Nat.le_add_left _ _)⟩
    · obtain ⟨H₂, hinc, hdec⟩ := Option.bind_eq_some_iff.mp hmove
      simp only [hinc, hdec, some_bind]
    · have hholds := Holds.chain (hrest.frame hfr₁ (ref_add_pos l))
      rwa [List.length_drop] at hholds
  | truncate =>
    refine ⟨H, _, rfl, ⟨h.inv, ?_⟩, Frame.refl _ _ _⟩
    have hholds := Holds.chain htake
    rw [List.length_take, Nat.min_eq_left (by omega)] at hholds
    dsimp only
    rwa [Nat.sub_sub_self (by omega)]

theorem clearEmpty_spec (h : Owns H r raw bs) :
    ∃ H' raw', H.clearEmpty raw = some (H', raw') ∧ Owns H' r raw' bs ∧ Frame False r H H' := by
  unfold clearEmpty
  by_cases hzero : raw.totalBytes = 0
  · obtain ⟨H', hclear, howns, hfr⟩ := rwmClear_spec h
    have hnil : bs = [] := by
      rw [h.holds.totalBytes] at hzero
      exact List.length_eq_zero_iff.mp hzero
    subst hnil
    exact ⟨H', rwmClean, (if_pos hzero).trans hclear, howns, hfr⟩
  · exact ⟨H, raw, if_neg hzero, h, Frame.refl _ _ _⟩

/-- `rwm_process_ex` when it has to walk. -/
theorem processParts_spec {n f l s e k offset : ℕ} {bs : Bytes} {mf : MsgPart} (flag : ProcessFlag)
    (h : Owns H r ⟨some f, some l, bs.length, s, e⟩ bs) (hspan : Span H n f s l e bs)
    (hf : H.parts.cell f = some mf) (hk : offset + k ≤ bs.length) :
    ∃ H' raw' blocks, H.processParts ⟨some f, some l, bs.length, s, e⟩ f k offset flag
        = some (H', raw', blocks) ∧ blocks.flatten = slice bs offset k ∧
      Owns H' r raw' (leftOf bs k offset flag) ∧ Frame False r H H' := by
  have hstart : Clear H f true f := fun _ => Or.inl rfl
  obtain ⟨p, c, mp, ok, n₁, n₂, hfind, hp, hfront, hrest, hok⟩ := processFind_spec
    ⟨some f, some l, bs.length, s, e⟩ (H.parts.size + 1) h.inv rfl rfl rfl
    Relation.ReflTransGen.refl hf (if_pos rfl) hspan (by omega : offset ≤ bs.length)
    (Nat.lt_succ_of_lt (hspan.lt_size h.inv)) hstart
  obtain ⟨q, c', ok₂, blocks, n₃, hblocks, hflatten, hrest', -, hok₂⟩ := processBlocks_spec
    ⟨some f, some l, bs.length, s, e⟩ (k := k) (o := []) (H.parts.size + 1) h.inv rfl rfl rfl
    hfront.path hp hrest (by rw [List.length_drop]; omega)
    (Nat.lt_succ_of_lt (hrest.lt_size h.inv)) hok
  rw [List.drop_drop] at hrest'
  -- what the flags do
  obtain ⟨H₁, raw₁, hflags, howns₁, hfr₁⟩ : ∃ H' raw', H.processFlags
      ⟨some f, some l, bs.length, s, e⟩ flag p c q c' offset k ok ok₂ = some (H', raw') ∧
      Owns H' r raw' (leftOf bs k offset flag) ∧ Frame False r H H' := by
    cases flag with
    | keep => exact ⟨H, _, rfl, h, Frame.refl _ _ _⟩
    | advance => exact processAdvance_spec h hrest' hok₂
    | truncate => exact processTruncate_spec h hfront hok (by omega)
  obtain ⟨H₂, raw₂, hclear, howns₂, hfr₂⟩ := clearEmpty_spec howns₁
  refine ⟨H₂, raw₂, blocks, ?_, hflatten, howns₂, hfr₁.trans hfr₂⟩
  unfold processParts
  simp only [hfind, hblocks, hflags, hclear, some_bind]

/-- **`rwm_process_ex`** hands on the bytes that it is asked for in blocks, and leaves of the
message what the flags say. -/
theorem processAll_spec {k offset : ℕ} (flag : ProcessFlag)
    (h : Owns H r raw bs) (hk : k ≤ bs.length - offset) :
    ∃ H' raw' blocks, H.processAll raw k offset flag = some (H', raw', blocks) ∧
      blocks.flatten = slice bs offset k ∧
      Owns H' r raw' (if k = 0 then bs else leftOf bs k offset flag) ∧ Frame False r H H' := by
  unfold processAll
  by_cases hzero : k = 0
  · subst hzero
    refine ⟨H, raw, [], if_pos rfl, rfl, ?_, Frame.refl _ _ _⟩
    rwa [if_pos rfl]
  · rw [if_neg hzero]
    have hle : offset + k ≤ bs.length := by omega
    obtain ⟨hinv, hholds⟩ := h
    cases hholds with
    | clean => exact absurd hle (by simp; omega)
    | @chain n f l s e bs hspan =>
      obtain ⟨mf, -, hf, -, -⟩ := hspan.cell_first
      obtain ⟨ml, X, hl, hX, -, -⟩ := hspan.cell_last
      have howns : Owns H r ⟨some f, some l, bs.length, s, e⟩ bs := ⟨hinv, Holds.chain hspan⟩
      dsimp only
      rw [if_neg hzero]
      simp only [hl, hX, Option.bind_eq_bind, Option.bind_some]
      by_cases hlast : bs.length - offset ≤ e - ml.offset
      · obtain ⟨H', raw', hrun, howns', hfr⟩ := processLast_spec flag howns hspan hl hX hlast hle
        refine ⟨H', raw', [slice bs offset k], ?_, by simp, howns', hfr⟩
        rw [if_pos hlast, hrun, Option.bind_some]
      · rw [if_neg hlast]
        exact processParts_spec flag howns hspan hf hle

/-- The bytes are those that there are. -/
theorem rwmProcessEx_spec (bytes offset : ℕ) (flag : ProcessFlag)
    (h : Owns H r raw bs) :
    ∃ H' raw', H.rwmProcessEx raw bytes offset flag
        = some (H', raw', slice bs offset (min bytes (bs.length - offset))) ∧
      Owns H' r raw' (if min bytes (bs.length - offset) = 0 then bs
        else leftOf bs (min bytes (bs.length - offset)) offset flag) ∧ Frame False r H H' := by
  have hbytes : (if raw.totalBytes < bytes + offset then raw.totalBytes - offset else bytes)
      = min bytes (bs.length - offset) := by
    rw [h.holds.totalBytes]
    split_ifs <;> omega
  obtain ⟨H', raw', blocks, hrun, hflatten, howns, hfr⟩ :=
    processAll_spec flag h (min_le_right bytes (bs.length - offset))
  refine ⟨H', raw', ?_, howns, hfr⟩
  unfold rwmProcessEx
  simp only [hbytes, hrun, Option.map_some, hflatten]

/-- **`rwm_fetch_data`** takes the bytes from the front. -/
theorem rwmFetchData_spec (bytes : ℕ) (h : Owns H r raw bs) :
    ∃ H' raw', H.rwmFetchData raw bytes = some (H', raw', bs.take bytes) ∧
      Owns H' r raw' (bs.drop bytes) ∧ Frame False r H H' := by
  obtain ⟨H', raw', hrun, howns, hfr⟩ := rwmProcessEx_spec bytes 0 .advance h
  have hout : slice bs 0 (min bytes (bs.length - 0)) = bs.take bytes := by
    unfold slice
    rw [List.drop_zero, Nat.sub_zero, List.take_eq_take_iff]
    omega
  have hleft : (if min bytes (bs.length - 0) = 0 then bs
      else leftOf bs (min bytes (bs.length - 0)) 0 .advance) = bs.drop bytes := by
    rw [Nat.sub_zero]
    split_ifs with hzero
    · rcases Nat.eq_zero_or_pos bytes with rfl | hpos
      · rfl
      · have hnil : bs = [] := List.length_eq_zero_iff.mp (by omega)
        rw [hnil, List.drop_nil]
    · unfold leftOf
      rw [Nat.zero_add, List.drop_eq_drop_iff]
      omega
  rw [hout] at hrun
  rw [hleft] at howns
  exact ⟨H', raw', hrun, howns, hfr⟩

/-- **`rwm_skip_data`** does the same without the bytes. -/
theorem rwmSkipData_spec (bytes : ℕ) (h : Owns H r raw bs) :
    ∃ H' raw', H.rwmSkipData raw bytes = some (H', raw', min bytes bs.length) ∧
      Owns H' r raw' (bs.drop bytes) ∧ Frame False r H H' := by
  obtain ⟨H', raw', hrun, howns, hfr⟩ := rwmFetchData_spec bytes h
  refine ⟨H', raw', ?_, howns, hfr⟩
  unfold rwmFetchData at hrun
  unfold rwmSkipData
  rw [hrun, Option.map_some, List.length_take]

/-- **`rwm_fetch_lookup`** reads the bytes at the front. -/
theorem rwmFetchLookup_spec (bytes : ℕ) (h : Owns H r raw bs) :
    H.rwmFetchLookup raw bytes = some (bs.take bytes) := by
  obtain ⟨H', raw', hrun, -, -⟩ := rwmProcessEx_spec bytes 0 .keep h
  unfold rwmFetchLookup
  rw [hrun, Option.map_some]
  congr 1
  unfold slice
  rw [List.drop_zero, Nat.sub_zero, List.take_eq_take_iff]
  omega

/-- **`rwm_trunc`** leaves the bytes at the front. -/
theorem rwmTrunc_spec (len : ℕ) (h : Owns H r raw bs) :
    ∃ H' raw', H.rwmTrunc raw len = some (H', raw') ∧ Owns H' r raw' (bs.take len) ∧
      Frame False r H H' := by
  have htotal := h.holds.totalBytes
  unfold rwmTrunc
  by_cases hall : raw.totalBytes ≤ len
  · refine ⟨H, raw, if_pos hall, ?_, Frame.refl _ _ _⟩
    rwa [List.take_of_length_le (by omega)]
  · rw [if_neg hall]
    unfold rwmFetchDataBack
    rw [Nat.min_eq_left (Nat.sub_le _ _), if_neg (by omega), Nat.sub_sub_self (by omega)]
    obtain ⟨H', raw', hrun, howns, hfr⟩ :=
      rwmProcessEx_spec (raw.totalBytes - len) len .truncate h
    refine ⟨H', raw', ?_, ?_, hfr⟩
    · rw [hrun]
      rfl
    · rwa [if_neg (by omega)] at howns

end MsgHeap

end MtprotoProxy
