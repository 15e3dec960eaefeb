/-
# The cache of client randoms in memory

The structures behind `ReplayCache`, as `net/net-tcp-rpc-ext-server.c` keeps them: entries with a
link `next_by_time` and a link `next_by_hash`, the pointers `first_client_random` and
`last_client_random`, and an array of `2^14` bucket pointers.

`Holds H l` says that the memory `H` holds the entries `l`: the links by time run through `l`, and
the chain of a bucket runs through the entries of the bucket, the newest first.  So the entry that
`delete_old_client_randoms` frees is the last of its chain, and to cut it off with a null pointer
loses nothing.

A failed assertion, a null pointer that is followed, or an entry that was freed is `none`.
-/
import MtprotoProxy.StoreChains
import MtprotoProxy.ReplayCache

namespace MtprotoProxy

open CLib Runs

/-! ## The code -/

/-- `struct client_random`, in memory. -/
structure RandomCell where
  random : Bytes
  nextByTime : Option ℕ
  nextByHash : Option ℕ
  time : ℤ

/-- The entries, the array `client_randoms`, `first_client_random`, `last_client_random`. -/
structure RandomHeap where
  cells : Store RandomCell
  buckets : ℕ → Option ℕ
  first : Option ℕ
  last : Option ℕ

/-- A pointer to a pointer: to an element of the array, or to the link by hash of an entry. -/
inductive HashLink where
  | bucket (b : ℕ)
  | entry (m : ℕ)

namespace RandomHeap

/-- The memory at process start. -/
def empty : RandomHeap := ⟨Store.empty, fun _ => none, none, none⟩

/-- The bucket of a random, after the assertion on its number. -/
def bucketOf (random : Bytes) : Option ℕ := do
  guard (getClientRandomBucket random < 2 ^ randomHashBits)
  some (getClientRandomBucket random)

/-- The walk of `have_client_random` from the entry `cur`. -/
def haveWalk (H : RandomHeap) (random : Bytes) : ℕ → Option ℕ → Option Bool
  | 0, _ => none
  | _ + 1, none => some false
  | fuel + 1, some cur => do
    let e ← H.cells.cell cur
    if e.random = random then some true else haveWalk H random fuel e.nextByHash

/-- `have_client_random`. -/
def haveClientRandom (H : RandomHeap) (random : Bytes) : Option Bool := do
  let b ← bucketOf random
  H.haveWalk random (H.cells.size + 1) (H.buckets b)

/-- The entry is the last one by time. -/
def appendByTime (H : RandomHeap) (entry : ℕ) : Option RandomHeap :=
  match H.last with
  | none => do
    guard (H.first = none)
    some { H with first := some entry, last := some entry }
  | some l => do
    let e ← H.cells.cell l
    some { H with
      cells := H.cells.put l (some { e with nextByTime := some entry }), last := some entry }

/-- `add_client_random`. -/
def addClientRandom (now : NowT) (random : Bytes) (H : RandomHeap) : Option RandomHeap := do
  let entry := H.cells.size
  let cell : RandomCell := ⟨random, none, none, now.val⟩
  let H ← appendByTime { H with cells := H.cells.alloc cell } entry
  let b ← bucketOf random
  some { H with
    cells := H.cells.put entry (some { cell with nextByHash := H.buckets b })
    buckets := Function.update H.buckets b (some entry) }

/-- `*cur`. -/
def deref (H : RandomHeap) : HashLink → Option (Option ℕ)
  | .bucket b => some (H.buckets b)
  | .entry m => (H.cells.cell m).map (·.nextByHash)

/-- `*cur = NULL`. -/
def clear (H : RandomHeap) : HashLink → Option RandomHeap
  | .bucket b => some { H with buckets := Function.update H.buckets b none }
  | .entry m => do
    let e ← H.cells.cell m
    some { H with cells := H.cells.put m (some { e with nextByHash := none }) }

/-- The search for the pointer to `entry`, which is then cleared. -/
def cut (H : RandomHeap) (entry : ℕ) : ℕ → HashLink → Option RandomHeap
  | 0, _ => none
  | fuel + 1, cur => do
    let p ← H.deref cur
    if p = some entry then H.clear cur
    else cut H entry fuel (.entry (← p))

/-- `delete_old_client_randoms`. -/
def deleteOld (now : NowT) : ℕ → RandomHeap → Option RandomHeap
  | 0, _ => none
  | fuel + 1, H => do
    if H.first = H.last then some H
    else
      let entry ← H.first
      let e ← H.cells.cell entry
      if wrap32 (now.val - maxClientRandomCacheTime) < e.time then some H
      else
        guard (e.nextByHash = none)
        let H := { H with first := e.nextByTime }
        let b ← bucketOf e.random
        let H ← H.cut entry (H.cells.size + 1) (.bucket b)
        deleteOld now fuel { H with cells := H.cells.put entry none }

/-- `delete_old_client_randoms`; every round frees an entry. -/
def deleteOldClientRandoms (now : NowT) (H : RandomHeap) : Option RandomHeap :=
  deleteOld now (H.cells.size + 1) H

end RandomHeap

/-- The assertion of `get_client_random_bucket`: fourteen bits of the first two bytes. -/
theorem getClientRandomBucket_lt (random : Bytes) :
    getClientRandomBucket random < 2 ^ randomHashBits := by
  have heq : getClientRandomBucket random
      = (((0 <<< 8) ||| ((byteAt random 0).toNat &&& (2 ^ 8 - 1))) <<< 6)
        ||| ((byteAt random 1).toNat &&& (2 ^ 6 - 1)) := rfl
  rw [heq, Nat.zero_shiftLeft, Nat.zero_or]
  have hhigh : (byteAt random 0).toNat &&& (2 ^ 8 - 1) < 2 ^ 8 :=
    Nat.and_lt_two_pow _ (by norm_num)
  have hlow : (byteAt random 1).toNat &&& (2 ^ 6 - 1) < 2 ^ 14 :=
    (Nat.and_lt_two_pow _ (by norm_num : 2 ^ 6 - 1 < 2 ^ 6)).trans (by norm_num)
  refine Nat.or_lt_two_pow ?_ hlow
  rw [Nat.shiftLeft_eq]
  unfold randomHashBits
  omega

theorem RandomHeap.bucketOf_eq (random : Bytes) :
    RandomHeap.bucketOf random = some (getClientRandomBucket random) := by
  unfold RandomHeap.bucketOf
  simp only [guard, if_pos (getClientRandomBucket_lt random)]
  rfl

/-! ## The memory holds a list -/

/-- The entries of a bucket, the newest first. -/
def bucketChain (l : List ClientRandom) (b : ℕ) : List ClientRandom :=
  (l.filter (fun e => getClientRandomBucket e.random = b)).reverse

namespace RandomHeap

variable {H : RandomHeap} {l : List ClientRandom} {now : NowT} {random : Bytes}

/-- **The memory holds the entries `l`**, oldest first. -/
structure Holds (H : RandomHeap) (l : List ClientRandom) : Prop where
  time : Store.Thread RandomCell.nextByTime H.cells H.first (l.map (·.addr)) none
  last : H.last = (l.map (·.addr)).getLast?
  bucket : ∀ b, Store.Thread RandomCell.nextByHash H.cells (H.buckets b)
    ((bucketChain l b).map (·.addr)) none
  cells : ∀ e ∈ l, ∃ X, H.cells.cell e.addr = some X ∧ X.random = e.random ∧ X.time = e.time

theorem holds_empty : empty.Holds [] where
  time := rfl
  last := rfl
  bucket := fun _ => rfl
  cells := by simp

theorem mem_bucketChain {e : ClientRandom} {b : ℕ} :
    e ∈ bucketChain l b ↔ e ∈ l ∧ getClientRandomBucket e.random = b := by
  rw [bucketChain, List.mem_reverse, List.mem_filter, decide_eq_true_eq]

/-- Two entries at one address are one entry. -/
theorem Holds.addr_inj (h : H.Holds l) {e f : ClientRandom} (he : e ∈ l) (hf : f ∈ l)
    (hef : e.addr = f.addr) : e = f := by
  obtain ⟨X, hX, hr, ht⟩ := h.cells e he
  obtain ⟨Y, hY, hr', ht'⟩ := h.cells f hf
  rw [hef, hY] at hX
  obtain rfl := Option.some.inj hX
  obtain ⟨a, r, t⟩ := e
  obtain ⟨a', r', t'⟩ := f
  simp only at hef hr ht hr' ht'
  rw [hef, ← hr, ← ht, hr', ht']

/-! ### The lookup -/

/-- The walk along a chain finds the randoms in it. -/
theorem haveWalk_spec : ∀ {es : List ClientRandom} {p : Option ℕ} {fuel : ℕ},
    Store.Thread RandomCell.nextByHash H.cells p (es.map (·.addr)) none →
    (∀ e ∈ es, ∃ X, H.cells.cell e.addr = some X ∧ X.random = e.random ∧ X.time = e.time) →
    es.length < fuel →
    H.haveWalk random fuel p = some (es.any (fun e => e.random = random)) := by
  intro es
  induction es with
  | nil =>
    intro p fuel hp _ hfuel
    obtain rfl : p = none := hp
    obtain ⟨fuel, rfl⟩ : ∃ k, fuel = k + 1 := ⟨fuel - 1, by simp at hfuel; omega⟩
    rfl
  | cons e es ih =>
    intro p fuel hp hcells hfuel
    obtain ⟨rfl, X, hX, hrest⟩ := hp
    obtain ⟨fuel, rfl⟩ : ∃ k, fuel = k + 1 := ⟨fuel - 1, by simp at hfuel; omega⟩
    obtain ⟨Y, hY, hr, -⟩ := hcells e List.mem_cons_self
    obtain rfl : X = Y := Option.some.inj (hX.symm.trans hY)
    rw [haveWalk, hX, some_bind, List.any_cons, hr]
    by_cases heq : e.random = random
    · rw [if_pos heq, decide_eq_true heq, Bool.true_or]
    · rw [if_neg heq, decide_eq_false heq, Bool.false_or]
      exact ih hrest (fun f hf => hcells f (List.mem_cons_of_mem _ hf)) (by simpa using hfuel)

/-- **A lookup finds exactly the randoms of the list.** -/
theorem Holds.lookup (h : H.Holds l) (random : Bytes) :
    H.haveClientRandom random = some (decide (∃ e ∈ l, e.random = random)) := by
  unfold haveClientRandom
  rw [bucketOf_eq, some_bind]
  have hlen := (h.bucket (getClientRandomBucket random)).length_le
  rw [List.length_map] at hlen
  rw [haveWalk_spec (h.bucket _) (fun e he => h.cells e ((mem_bucketChain).mp he).1)
    (Nat.lt_succ_of_le hlen)]
  congr 1
  rw [Bool.eq_iff_iff, List.any_eq_true, decide_eq_true_eq]
  constructor
  · rintro ⟨e, he, heq⟩
    exact ⟨e, ((mem_bucketChain).mp he).1, of_decide_eq_true heq⟩
  · rintro ⟨e, he, rfl⟩
    exact ⟨e, (mem_bucketChain).mpr ⟨he, rfl⟩, decide_eq_true rfl⟩

/-! ### Adding -/

/-- **The entry becomes the last one by time**, and nothing else changes. -/
theorem appendByTime_spec {entry : ℕ} {as : List ℕ} {E : RandomCell}
    (htime : Store.Thread RandomCell.nextByTime H.cells H.first as none)
    (hlast : H.last = as.getLast?) (hE : H.cells.cell entry = some E)
    (hnext : E.nextByTime = none) (hnew : entry ∉ as) :
    ∃ H', H.appendByTime entry = some H' ∧
      Store.Thread RandomCell.nextByTime H'.cells H'.first (as ++ [entry]) none ∧
      H'.last = some entry ∧ H'.buckets = H.buckets ∧ H'.cells.size = H.cells.size ∧
      H'.cells.cell entry = some E ∧
      ∀ x X, H.cells.cell x = some X → ∃ X', H'.cells.cell x = some X' ∧
        X'.random = X.random ∧ X'.time = X.time ∧ X'.nextByHash = X.nextByHash := by
  rcases List.eq_nil_or_concat' as with rfl | ⟨as, a, rfl⟩
  · refine ⟨{ H with first := some entry, last := some entry }, ?_, ⟨rfl, E, hE, hnext⟩, rfl, rfl,
      rfl, hE, fun x X hX => ⟨X, hX, rfl, rfl, rfl⟩⟩
    have hfirst : H.first = none := htime
    have hl : H.last = none := hlast
    unfold appendByTime
    simp only [hl, guard, if_pos hfirst]
    rfl
  · rw [List.getLast?_concat] at hlast
    obtain ⟨-, A, hA, -⟩ := Store.thread_concat.mp htime
    have hnodup := htime.nodup
    rw [List.nodup_append_comm, List.singleton_append, List.nodup_cons] at hnodup
    have hne : entry ≠ a := fun heq => hnew (by simp [heq])
    have hE' : (H.cells.put a (some { A with nextByTime := some entry })).cell entry = some E := by
      rw [Store.cell_put_ne hne, hE]
    refine ⟨{ H with
      cells := H.cells.put a (some { A with nextByTime := some entry }), last := some entry }, ?_,
      ?_, rfl, rfl, rfl, hE', ?_⟩
    · unfold appendByTime
      simp only [hlast, hA, some_bind]
    · refine Store.thread_append.mpr ⟨some entry, htime.relink hnodup.1 rfl, rfl, E, hE', hnext⟩
    · intro x X hX
      by_cases hx : x = a
      · subst hx
        rw [hA] at hX
        cases hX
        exact ⟨_, Store.cell_put_self hA _, rfl, rfl, rfl⟩
      · exact ⟨X, by rw [Store.cell_put_ne hx, hX], rfl, rfl, rfl⟩

/-- The chains after a new entry. -/
theorem bucketChain_concat (l : List ClientRandom) (e : ClientRandom) (b : ℕ) :
    bucketChain (l ++ [e]) b
      = if getClientRandomBucket e.random = b then e :: bucketChain l b else bucketChain l b := by
  unfold bucketChain
  rw [List.filter_append, List.reverse_append]
  split
  · rename_i hb
    rw [List.filter_cons_of_pos (by simpa using hb)]
    rfl
  · rename_i hb
    rw [List.filter_cons_of_neg (by simpa using hb)]
    rfl

/-- **`add_client_random` fails no assertion** and adds the entry at the end. -/
theorem Holds.add (h : H.Holds l) (now : NowT) (random : Bytes) :
    ∃ H', H.addClientRandom now random = some H' ∧
      H'.Holds (l ++ [⟨H.cells.size, random, now.val⟩]) ∧
      H'.cells.size = H.cells.size + 1 := by
  set cell : RandomCell := ⟨random, none, none, now.val⟩ with hcell
  set H₁ : RandomHeap := { H with cells := H.cells.alloc cell } with hH₁
  have hfresh : ∀ xs p next, Store.Thread next H.cells p xs none → H.cells.size ∉ xs := by
    intro xs p next hthread hmem
    obtain ⟨X, hX⟩ := hthread.full hmem
    exact lt_irrefl _ (Store.lt_size hX)
  obtain ⟨H₂, happ, htime, hlast, hbuckets, hsize, hE, hkeep⟩ :=
    appendByTime_spec (H := H₁) (h.time.alloc cell) h.last (Store.cell_alloc_self cell) rfl
      (hfresh _ _ _ h.time)
  set b := getClientRandomBucket random with hb
  set E : RandomCell := { cell with nextByHash := H.buckets b } with hEdef
  refine ⟨{ H₂ with
    cells := H₂.cells.put H.cells.size (some E)
    buckets := Function.update H₂.buckets b (some H.cells.size) }, ?_, ⟨?_, ?_, ?_, ?_⟩, ?_⟩
  · unfold addClientRandom
    simp only [← hcell, ← hH₁, happ, bucketOf_eq, ← hb, some_bind, hbuckets]
    rfl
  · rw [List.map_append]
    exact htime.put_same hE rfl
  · show H₂.last = _
    rw [hlast, List.map_append, List.map_singleton, List.getLast?_concat]
  · intro b'
    have hold : Store.Thread RandomCell.nextByHash (H₂.cells.put H.cells.size (some E))
        (H.buckets b') ((bucketChain l b').map (·.addr)) none := by
      have hnot := hfresh _ _ _ (h.bucket b')
      refine Store.Thread.put ?_ hnot _
      refine ((h.bucket b').alloc cell).congr (fun x _ X hX => ?_)
      obtain ⟨X', hX', -, -, hhash⟩ := hkeep x X hX
      exact ⟨X', hX', hhash⟩
    show Store.Thread _ _ (Function.update H₂.buckets b (some H.cells.size) b') _ _
    rw [bucketChain_concat, hbuckets]
    by_cases hbb : b = b'
    · subst hbb
      rw [if_pos rfl, Function.update_self]
      exact ⟨rfl, E, Store.cell_put_self hE _, hold⟩
    · rw [if_neg hbb, Function.update_of_ne (Ne.symm hbb)]
      exact hold
  · refine List.forall_mem_append.mpr ⟨?_, List.forall_mem_singleton.mpr ?_⟩
    · intro e he
      obtain ⟨X, hX, hr, ht⟩ := h.cells e he
      obtain ⟨X', hX', hr', ht', -⟩ := hkeep e.addr X (Store.cell_alloc_of_some hX)
      have hne : e.addr ≠ H.cells.size := (Store.lt_size hX).ne
      exact ⟨X', by rw [Store.cell_put_ne hne, hX'], hr'.trans hr, ht'.trans ht⟩
    · exact ⟨E, Store.cell_put_self hE _, rfl, rfl⟩
  · exact hsize

/-! ### Deleting -/

/-- The pointer to the end of the chain `ys` that starts at `cur`. -/
def linkAfter (cur : HashLink) (ys : List ℕ) : HashLink :=
  match ys.getLast? with
  | none => cur
  | some y => .entry y

theorem linkAfter_cons (cur : HashLink) (y : ℕ) (ys : List ℕ) :
    linkAfter cur (y :: ys) = linkAfter (.entry y) ys := by
  unfold linkAfter
  rw [List.getLast?_cons]
  cases ys.getLast? <;> rfl

/-- The search finds the pointer to the last entry of the chain. -/
theorem cut_eq {entry : ℕ} : ∀ {ys : List ℕ} {p : Option ℕ} {cur : HashLink} {fuel : ℕ},
    H.deref cur = some p →
    Store.Thread RandomCell.nextByHash H.cells p (ys ++ [entry]) none → entry ∉ ys →
    ys.length < fuel → H.cut entry fuel cur = H.clear (linkAfter cur ys) := by
  intro ys
  induction ys with
  | nil =>
    intro p cur fuel hcur hp _ hfuel
    obtain ⟨fuel, rfl⟩ : ∃ k, fuel = k + 1 := ⟨fuel - 1, by simp at hfuel; omega⟩
    obtain rfl : p = some entry := hp.1
    rw [cut, hcur, some_bind, if_pos rfl]
    rfl
  | cons y ys ih =>
    intro p cur fuel hcur hp hnot hfuel
    obtain ⟨fuel, rfl⟩ : ∃ k, fuel = k + 1 := ⟨fuel - 1, by simp at hfuel; omega⟩
    obtain ⟨rfl, Y, hY, hrest⟩ := hp
    have hy : ¬ some y = some entry := fun heq => hnot (by simp [Option.some.inj heq])
    rw [cut, hcur, some_bind, if_neg hy, linkAfter_cons]
    exact ih (by rw [deref, hY]; rfl) hrest (fun hmem => hnot (List.mem_cons_of_mem _ hmem))
      (by simpa using hfuel)

/-- **Cutting the oldest entry off its chain** touches no other chain and no link by time. -/
theorem cut_spec {entry b fuel : ℕ} {ys : List ℕ}
    (hchain : Store.Thread RandomCell.nextByHash H.cells (H.buckets b) (ys ++ [entry]) none)
    (hfuel : ys.length < fuel) :
    ∃ H', H.cut entry fuel (.bucket b) = some H' ∧ H'.first = H.first ∧ H'.last = H.last ∧
      H'.cells.size = H.cells.size ∧
      Store.Thread RandomCell.nextByHash H'.cells (H'.buckets b) ys none ∧
      (∀ b', b' ≠ b → H'.buckets b' = H.buckets b') ∧
      ∀ x X, H.cells.cell x = some X → ∃ X', H'.cells.cell x = some X' ∧
        X'.random = X.random ∧ X'.time = X.time ∧ X'.nextByTime = X.nextByTime ∧
        (x ∉ ys → X'.nextByHash = X.nextByHash) := by
  have hnodup := hchain.nodup
  rw [List.nodup_append_comm, List.singleton_append, List.nodup_cons] at hnodup
  rw [cut_eq rfl hchain hnodup.1 hfuel]
  rcases List.eq_nil_or_concat' ys with rfl | ⟨ys, y, rfl⟩
  · refine ⟨{ H with buckets := Function.update H.buckets b none }, rfl, rfl, rfl, rfl, ?_, ?_,
      fun x X hX => ⟨X, hX, rfl, rfl, rfl, fun _ => rfl⟩⟩
    · exact Function.update_self ..
    · intro b' hb'
      exact Function.update_of_ne hb' ..
  · obtain ⟨hys, Z, -, -⟩ := Store.thread_concat.mp hchain
    obtain ⟨-, Y, hY, -⟩ := Store.thread_concat.mp hys
    have hy : y ∉ ys := by
      have := hnodup.2
      rw [List.nodup_append_comm, List.singleton_append, List.nodup_cons] at this
      exact this.1
    refine ⟨{ H with cells := H.cells.put y (some { Y with nextByHash := none }) }, ?_, rfl, rfl,
      rfl, hys.relink hy rfl, fun _ _ => rfl, ?_⟩
    · rw [linkAfter, List.getLast?_concat, clear, hY]
      rfl
    · intro x X hX
      by_cases hx : x = y
      · subst hx
        rw [hY] at hX
        cases hX
        exact ⟨_, Store.cell_put_self hY _, rfl, rfl, rfl, fun hnot => absurd (by simp) hnot⟩
      · exact ⟨X, by rw [Store.cell_put_ne hx, hX], rfl, rfl, rfl, fun _ => rfl⟩

/-- The entries that `delete_old_client_randoms` leaves. -/
def dropOld (now : NowT) : List ClientRandom → List ClientRandom
  | e :: e' :: l =>
    if wrap32 (now.val - maxClientRandomCacheTime) < e.time then e :: e' :: l
    else dropOld now (e' :: l)
  | l => l

/-- What is dropped is a front part of the list. -/
theorem dropOld_suffix (now : NowT) : ∀ l, dropOld now l <:+ l
  | [] => List.suffix_refl _
  | [_] => List.suffix_refl _
  | e :: e' :: l => by
    rw [dropOld]
    split
    · exact List.suffix_refl _
    · exact (dropOld_suffix now (e' :: l)).trans (List.suffix_cons e _)

/-- The entries are gone from the memory one by one: after the first entry is cut off its chain
and freed, the memory holds the others. -/
theorem Holds.tail {e e' : ClientRandom} (h : H.Holds (e :: e' :: l)) :
    ∃ E, H.cells.cell e.addr = some E ∧ E.time = e.time ∧ E.nextByHash = none ∧
      ∃ H', RandomHeap.cut { H with first := E.nextByTime } e.addr (H.cells.size + 1)
          (.bucket (getClientRandomBucket E.random)) = some H' ∧
        H'.cells.size = H.cells.size ∧
        RandomHeap.Holds { H' with cells := H'.cells.put e.addr none } (e' :: l) := by
  obtain ⟨-, E, hE, htime⟩ := h.time
  obtain ⟨E', hE', hr, ht⟩ := h.cells e List.mem_cons_self
  obtain rfl : E = E' := Option.some.inj (hE.symm.trans hE')
  have hnodup := h.time.nodup
  rw [List.map_cons, List.nodup_cons] at hnodup
  set b := getClientRandomBucket e.random with hb
  -- the oldest entry ends its chain
  have hchain := h.bucket b
  have hsplit : bucketChain (e :: e' :: l) b = bucketChain (e' :: l) b ++ [e] := by
    unfold bucketChain
    rw [List.filter_cons_of_pos (by simp [hb]), List.reverse_cons]
  rw [hsplit, List.map_append, List.map_singleton] at hchain
  have hlast : E.nextByHash = none := by
    obtain ⟨-, F, hF, hnone⟩ := Store.thread_concat.mp hchain
    rw [hE] at hF
    cases hF
    exact hnone
  have hlen : ((bucketChain (e' :: l) b).map (·.addr)).length < H.cells.size + 1 := by
    have := hchain.length_le
    rw [List.length_append, List.length_singleton] at this
    omega
  obtain ⟨H', hcut, hfirst', hlast', hsize', hys, hbuckets, hkeep⟩ :=
    cut_spec (H := { H with first := E.nextByTime }) hchain hlen
  refine ⟨E, hE, ht, hlast, H', by rw [hr]; exact hcut, hsize', ?_⟩
  have hgone : ∀ x ∈ (e' :: l).map (·.addr), x ≠ e.addr :=
    fun x hx heq => hnodup.1 (heq ▸ hx)
  have hchain_mem : ∀ b, ∀ x ∈ (bucketChain (e' :: l) b).map (·.addr),
      x ∈ (e' :: l).map (·.addr) := by
    intro b x hx
    obtain ⟨f, hf, rfl⟩ := List.mem_map.mp hx
    exact List.mem_map_of_mem ((mem_bucketChain).mp hf).1
  constructor
  · show Store.Thread RandomCell.nextByTime (H'.cells.put e.addr none) H'.first _ none
    rw [hfirst']
    refine Store.Thread.put ?_ hnodup.1 _
    refine htime.congr (fun x _ X hX => ?_)
    obtain ⟨X', hX', -, -, hnext, -⟩ := hkeep x X hX
    exact ⟨X', hX', hnext⟩
  · show H'.last = _
    rw [hlast', h.last, List.map_cons, List.map_cons, List.getLast?_cons_cons]
  · intro b'
    have hnot : e.addr ∉ (bucketChain (e' :: l) b').map (·.addr) :=
      fun hmem => hgone _ (hchain_mem b' _ hmem) rfl
    show Store.Thread RandomCell.nextByHash (H'.cells.put e.addr none) (H'.buckets b') _ none
    refine Store.Thread.put ?_ hnot _
    by_cases hbb : b' = b
    · subst hbb
      exact hys
    · have hother : bucketChain (e :: e' :: l) b' = bucketChain (e' :: l) b' := by
        unfold bucketChain
        rw [List.filter_cons_of_neg (by simpa [hb] using Ne.symm hbb)]
      have hold := h.bucket b'
      rw [hother] at hold
      rw [hbuckets b' hbb]
      refine hold.congr (fun x hx X hX => ?_)
      obtain ⟨X', hX', -, -, -, hhash⟩ := hkeep x X hX
      refine ⟨X', hX', hhash (fun hmem => ?_)⟩
      -- an entry is in one bucket only
      obtain ⟨f, hf, rfl⟩ := List.mem_map.mp hx
      obtain ⟨g, hg, hgf⟩ := List.mem_map.mp hmem
      obtain ⟨hf, hfb⟩ := (mem_bucketChain).mp hf
      obtain ⟨hg, hgb⟩ := (mem_bucketChain).mp hg
      obtain rfl := h.addr_inj (List.mem_cons_of_mem _ hg) (List.mem_cons_of_mem _ hf) hgf
      exact hbb (hfb.symm.trans hgb)
  · intro f hf
    obtain ⟨X, hX, hr', ht'⟩ := h.cells f (List.mem_cons_of_mem _ hf)
    obtain ⟨X', hX', hr'', ht'', -⟩ := hkeep f.addr X hX
    refine ⟨X', ?_, hr''.trans hr', ht''.trans ht'⟩
    rw [Store.cell_put_ne (hgone f.addr (List.mem_map_of_mem hf)), hX']

/-- The loop of `delete_old_client_randoms`. -/
theorem deleteOld_spec (now : NowT) : ∀ {l : List ClientRandom} {H : RandomHeap} {fuel : ℕ},
    H.Holds l → l.length < fuel →
    ∃ H', deleteOld now fuel H = some H' ∧ H'.Holds (dropOld now l) ∧
      H'.cells.size = H.cells.size
  | l, H, 0, _, hfuel => absurd hfuel (Nat.not_lt_zero _)
  | [], H, fuel + 1, h, _ => by
    have heq : H.first = H.last := by rw [h.time.start, h.last]; rfl
    exact ⟨H, by rw [deleteOld, if_pos heq], h, rfl⟩
  | [e], H, fuel + 1, h, _ => by
    have heq : H.first = H.last := by rw [h.time.start, h.last]; rfl
    exact ⟨H, by rw [deleteOld, if_pos heq], h, rfl⟩
  | e :: e' :: l, H, fuel + 1, h, hfuel => by
    obtain ⟨E, hE, ht, hlast, H₁, hcut, hsize, hheld⟩ := h.tail
    have hfirst : H.first = some e.addr := h.time.start
    have hne : ¬ H.first = H.last := by
      rw [hfirst, h.last, List.map_cons, List.map_cons, List.getLast?_cons_cons]
      intro heq
      have hnodup := h.time.nodup
      rw [List.map_cons, List.nodup_cons] at hnodup
      exact hnodup.1 (List.mem_of_getLast? heq.symm)
    rw [deleteOld, if_neg hne, dropOld]
    simp only [hfirst, hE, ht, Option.bind_eq_bind, Option.bind_some]
    by_cases hyoung : wrap32 (now.val - maxClientRandomCacheTime) < e.time
    · rw [if_pos hyoung, if_pos hyoung]
      exact ⟨H, rfl, h, rfl⟩
    · obtain ⟨H₂, hrun, hheld₂, hsize₂⟩ := deleteOld_spec now hheld (Nat.lt_of_succ_lt_succ hfuel)
      rw [if_neg hyoung, if_neg hyoung]
      refine ⟨H₂, ?_, hheld₂, hsize₂.trans hsize⟩
      simp only [guard, if_pos hlast, Option.pure_def, Option.bind_some, bucketOf_eq, hcut]
      exact hrun

/-- **`delete_old_client_randoms` fails no assertion**, its search ends, and it drops a front
part of the list. -/
theorem Holds.delete (h : H.Holds l) (now : NowT) :
    ∃ H', H.deleteOldClientRandoms now = some H' ∧ H'.Holds (dropOld now l) ∧
      H'.cells.size = H.cells.size := by
  have hlen := h.time.length_le
  rw [List.length_map] at hlen
  exact deleteOld_spec now h (Nat.lt_succ_of_le hlen)

theorem dropOld_ne_nil (now : NowT) : ∀ l, l ≠ [] → dropOld now l ≠ []
  | [], h => h
  | [_], h => h
  | e :: e' :: l, _ => by
    rw [dropOld]
    split
    · exact List.cons_ne_nil _ _
    · exact dropOld_ne_nil now (e' :: l) (List.cons_ne_nil _ _)

/-! ## The memory and the lists of the replay cache -/

/-- The cache of `ReplayCache` is what the memory holds. -/
structure Represents (H : RandomHeap) (c : RandomCache) : Prop where
  holds : H.Holds c.byTime
  fresh : H.cells.size = c.fresh

/-- The entries that the loop over the lists leaves. -/
theorem deleteOldLoop_dropOld (now : NowT) : ∀ {l : List ClientRandom}
    {buckets : ℕ → List ClientRandom} {r : List ClientRandom × (ℕ → List ClientRandom)},
    deleteOldLoop now l buckets = some r → r.1 = dropOld now l
  | [], _, r, hrun => by rw [← Option.some.inj hrun]; rfl
  | [_], _, r, hrun => by rw [← Option.some.inj hrun]; rfl
  | e :: e' :: l, buckets, r, hrun => by
    rw [deleteOldLoop] at hrun
    rw [dropOld]
    split at hrun
    · rename_i hyoung
      rw [if_pos hyoung, ← Option.some.inj hrun]
    · rename_i hold
      rw [if_neg hold]
      dsimp only at hrun
      split at hrun
      · exact absurd hrun (by simp)
      · exact deleteOldLoop_dropOld now hrun

/-- **Lookups in the memory are lookups in the lists.** -/
theorem Represents.lookup {c : RandomCache} {t : ℤ} (h : H.Represents c) (hc : CacheInv c t)
    (random : Bytes) :
    H.haveClientRandom random = some (MtprotoProxy.haveClientRandom c random) := by
  rw [h.holds.lookup]
  congr 1
  rw [Bool.eq_iff_iff, decide_eq_true_eq, haveClientRandom_iff hc]

/-- **Adding in memory is adding to the lists.** -/
theorem Represents.add {c : RandomCache} (h : H.Represents c) (now : NowT) (random : Bytes) :
    ∃ H', H.addClientRandom now random = some H' ∧
      H'.Represents (MtprotoProxy.addClientRandom now random c) := by
  obtain ⟨H', hrun, hheld, hsize⟩ := h.holds.add now random
  rw [h.fresh] at hheld hsize
  exact ⟨H', hrun, hheld, hsize⟩

/-- **Deleting in memory is deleting from the lists.** -/
theorem Represents.delete {c : RandomCache} {t : ℤ} (h : H.Represents c) (hc : CacheInv c t)
    (now : NowT) :
    ∃ H' c', H.deleteOldClientRandoms now = some H' ∧
      MtprotoProxy.deleteOldClientRandoms now c = some c' ∧ H'.Represents c' ∧ CacheInv c' t := by
  obtain ⟨H', hrun, hheld, hsize⟩ := h.holds.delete now
  obtain ⟨c', gone, hrun', hc', -⟩ := deleteOldClientRandoms_spec hc now
  obtain ⟨r, hloop, hr⟩ := Option.map_eq_some_iff.mp hrun'
  refine ⟨H', c', hrun, hrun', ⟨?_, ?_⟩, hc'⟩
  · rw [← hr]
    show H'.Holds r.1
    rw [deleteOldLoop_dropOld now hloop]
    exact hheld
  · rw [← hr]
    exact hsize.trans h.fresh

end RandomHeap

/-! ## Runs -/

/-- The argument of the functions, `unsigned char random[16]`. -/
abbrev Random16 : Type := { r : Bytes // r.length = 16 }

/-- A call of `add_client_random` or of `delete_old_client_randoms`, at the time `now`. -/
inductive RandomEvent where
  | add (now : NowT) (random : Random16)
  | delete (now : NowT)

/-- The time of a call. -/
def RandomEvent.time : RandomEvent → ℤ
  | .add now _ => now.val
  | .delete now => now.val

/-- The random that a call adds, with its time. -/
def RandomEvent.added : RandomEvent → Option (Bytes × ℤ)
  | .add now random => some (random.val, now.val)
  | .delete _ => none

/-- What a call does to the memory; `none` is a failed assertion or a search that fails. -/
def RandomHeap.step (H : RandomHeap) : RandomEvent → Option RandomHeap
  | .add now random => H.addClientRandom now random.val
  | .delete now => H.deleteOldClientRandoms now

/-- What is known of the entries at time `t` when `past` was added so far: they are the last of
`past`, by non-decreasing times, the newest among them. -/
structure Recent (past : List (Bytes × ℤ)) (t : ℤ) (l : List ClientRandom) : Prop where
  sorted : l.Pairwise (fun a b => a.time ≤ b.time)
  le : ∀ e ∈ l, e.time ≤ t
  suffix : l.map (fun e => (e.random, e.time)) <:+ past
  newest : past ≠ [] → l ≠ []

theorem Recent.add {past : List (Bytes × ℤ)} {t : ℤ} {l : List ClientRandom}
    (h : Recent past t l) {now : NowT} (ht : t ≤ now.val) (addr : ℕ) (random : Bytes) :
    Recent (past ++ [(random, now.val)]) now.val (l ++ [⟨addr, random, now.val⟩]) where
  sorted := by
    refine List.pairwise_append.mpr ⟨h.sorted, List.pairwise_singleton _ _, ?_⟩
    intro a ha b hb
    rw [List.mem_singleton.mp hb]
    exact (h.le a ha).trans ht
  le := List.forall_mem_append.mpr ⟨fun e he => (h.le e he).trans ht, by simp⟩
  suffix := by
    rw [List.map_append]
    obtain ⟨gone, hgone⟩ := h.suffix
    exact ⟨gone, by rw [← List.append_assoc, hgone]; rfl⟩
  newest := fun _ => by simp

theorem Recent.delete {past : List (Bytes × ℤ)} {t : ℤ} {l : List ClientRandom}
    (h : Recent past t l) {now : NowT} (ht : t ≤ now.val) :
    Recent past now.val (RandomHeap.dropOld now l) where
  sorted := h.sorted.sublist (RandomHeap.dropOld_suffix now l).sublist
  le := fun e he => (h.le e ((RandomHeap.dropOld_suffix now l).subset he)).trans ht
  suffix := ((RandomHeap.dropOld_suffix now l).map _).trans h.suffix
  newest := fun hpast => RandomHeap.dropOld_ne_nil now l (h.newest hpast)

/-- **One call** fails no assertion, and the memory holds the recent entries again. -/
theorem RandomHeap.Holds.step {H : RandomHeap} {l : List ClientRandom} {past : List (Bytes × ℤ)}
    {t : ℤ} {e : RandomEvent} (h : H.Holds l) (hl : Recent past t l) (ht : t ≤ e.time) :
    ∃ H' l', H.step e = some H' ∧ H'.Holds l' ∧
      Recent (past ++ e.added.toList) e.time l' := by
  cases e with
  | add now random =>
    obtain ⟨H', hrun, hheld, -⟩ := h.add now random.val
    exact ⟨H', _, hrun, hheld, hl.add ht _ _⟩
  | delete now =>
    obtain ⟨H', hrun, hheld, -⟩ := h.delete now
    refine ⟨H', _, hrun, hheld, ?_⟩
    rw [show (RandomEvent.delete now).added.toList = [] from rfl, List.append_nil]
    exact hl.delete ht

/-- A run from any good memory. -/
theorem RandomHeap.Holds.run : ∀ {es : List RandomEvent} {H : RandomHeap} {l : List ClientRandom}
    {past : List (Bytes × ℤ)} {t : ℤ}, H.Holds l → Recent past t l →
    (t :: es.map RandomEvent.time).Pairwise (· ≤ ·) →
    ∃ H' l' t', Runs.run RandomHeap.step H es = some H' ∧ H'.Holds l' ∧
      Recent (past ++ es.filterMap RandomEvent.added) t' l' := by
  intro es
  induction es with
  | nil =>
    intro H l past t h hl _
    exact ⟨H, l, t, rfl, h, by simpa using hl⟩
  | cons e es ih =>
    intro H l past t h hl htimes
    rw [List.map_cons, List.pairwise_cons] at htimes
    obtain ⟨H₁, l₁, hstep, hheld, hl₁⟩ := h.step hl (htimes.1 e.time List.mem_cons_self)
    obtain ⟨H', l', t', hrun, hheld', hl'⟩ := ih hheld hl₁ htimes.2
    refine ⟨H', l', t', run_cons.mpr ⟨H₁, hstep, hrun⟩, hheld', ?_⟩
    rw [List.filterMap_cons]
    cases hadd : e.added with
    | none => simpa [hadd] using hl'
    | some r => simpa [hadd] using hl'

/-- **The cache over every run.**  Calls at non-decreasing times, whatever the randoms, fail no
assertion and no search.  The list by time holds the newest of the added randoms in the order in
which they were added, at non-decreasing times; it is empty only when nothing was added, and
`last_client_random` is its last entry.  The chain of a bucket is exactly the entries of the
bucket, the newest first.  A lookup answers whether the random is in the list. -/
theorem client_randoms_run {es : List RandomEvent}
    (htimes : (es.map RandomEvent.time).Pairwise (· ≤ ·)) :
    ∃ (H : RandomHeap) (l : List ClientRandom),
      Runs.run RandomHeap.step RandomHeap.empty es = some H ∧
      Store.Thread RandomCell.nextByTime H.cells H.first (l.map (·.addr)) none ∧
      H.last = (l.map (·.addr)).getLast? ∧
      (∀ e ∈ l, ∃ X, H.cells.cell e.addr = some X ∧ X.random = e.random ∧ X.time = e.time) ∧
      l.map (fun e => (e.random, e.time)) <:+ es.filterMap RandomEvent.added ∧
      (es.filterMap RandomEvent.added ≠ [] → l ≠ []) ∧
      l.Pairwise (fun a b => a.time ≤ b.time) ∧
      (∀ b, Store.Thread RandomCell.nextByHash H.cells (H.buckets b)
        ((l.filter (fun e => getClientRandomBucket e.random = b)).reverse.map (·.addr)) none) ∧
      ∀ random : Random16,
        H.haveClientRandom random.val = some (decide (∃ e ∈ l, e.random = random.val)) := by
  have hstart : Recent [] 0 [] :=
    ⟨List.Pairwise.nil, by simp, List.suffix_refl _, fun h => absurd rfl h⟩
  have htimes' : ((0 : ℤ) :: es.map RandomEvent.time).Pairwise (· ≤ ·) := by
    refine List.pairwise_cons.mpr ⟨?_, htimes⟩
    intro t ht
    obtain ⟨e, -, rfl⟩ := List.mem_map.mp ht
    cases e with
    | add now random => exact now.property.1
    | delete now => exact now.property.1
  obtain ⟨H, l, t, hrun, hheld, hl⟩ := RandomHeap.holds_empty.run hstart htimes'
  exact ⟨H, l, hrun, hheld.time, hheld.last, hheld.cells, hl.suffix, hl.newest, hl.sorted,
    hheld.bucket, fun random => hheld.lookup random.val⟩

/-- A random of sixteen zeros is added twice, and two days later the first entry is deleted. -/
theorem client_randoms_run_twice :
    ∃ H, Runs.run RandomHeap.step RandomHeap.empty
        [.add ⟨0, by decide⟩ ⟨List.replicate 16 0, rfl⟩,
          .add ⟨1, by decide⟩ ⟨List.replicate 16 0, rfl⟩, .delete ⟨172800, by decide⟩] = some H ∧
      H.haveClientRandom (List.replicate 16 0) = some true := by
  obtain ⟨H, l, hrun, -, -, -, hsuffix, hnewest, -, -, hhave⟩ := @client_randoms_run
    [.add ⟨0, by decide⟩ ⟨List.replicate 16 0, rfl⟩,
      .add ⟨1, by decide⟩ ⟨List.replicate 16 0, rfl⟩, .delete ⟨172800, by decide⟩]
    (by simp [RandomEvent.time])
  refine ⟨H, hrun, ?_⟩
  obtain ⟨e, he⟩ := List.exists_mem_of_ne_nil l (hnewest (by simp [RandomEvent.added]))
  have hmem := hsuffix.subset (List.mem_map_of_mem (f := fun e => (e.random, e.time)) he)
  have hrandom : e.random = List.replicate 16 0 := by
    simp only [List.filterMap_cons, RandomEvent.added, List.filterMap_nil, List.mem_cons,
      Prod.mk.injEq, List.not_mem_nil, or_false] at hmem
    rcases hmem with hmem | hmem <;> exact hmem.1
  rw [hhave ⟨List.replicate 16 0, rfl⟩, decide_eq_true ⟨e, he, hrandom⟩]

end MtprotoProxy
