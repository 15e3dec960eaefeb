/-
# The cache of client randoms

Replay protection of the fake-TLS handshake in `net/net-tcp-rpc-ext-server.c`:
`have_client_random`, `add_client_random`, `delete_old_client_randoms`,
`is_allowed_timestamp`, and the checks of the ClientHello branch that use them
(`checkClientHello`).

The cache is one list ordered by time and `2^14` hash chains over the same entries.  An
entry carries the number of its allocation, which stands for its address.  A failed
assertion, or a walk off the end of a chain, is `none`.

`CacheInv` says that every chain holds the entries of its bucket, newest first, so that
the oldest entry is always the last of its chain.  What the cache forgets is bounded by
`Remembered`: an accepted random is in the cache, or the head of the time list is at
least as young and two days have gone by.
-/
import MtprotoProxy.Runs
import MtprotoProxy.SecretStore

namespace MtprotoProxy

open CLib

/-! ## The data structure -/

/-- The variable `now`, an `int` that `time` fills. -/
abbrev NowT : Type := { t : ℤ // 0 ≤ t ∧ t < 2 ^ 31 }

/-- `struct client_random`. -/
structure ClientRandom where
  addr : ℕ
  random : Bytes
  time : ℤ
  deriving DecidableEq

/-- The list from `first_client_random` to `last_client_random`, the array
`client_randoms`, and the number of the next allocation. -/
structure RandomCache where
  byTime : List ClientRandom
  buckets : ℕ → List ClientRandom
  fresh : ℕ

/-- The cache at process start. -/
def RandomCache.empty : RandomCache := ⟨[], fun _ => [], 0⟩

/-- `first_client_random`. -/
def RandomCache.first (c : RandomCache) : Option ClientRandom := c.byTime.head?

/-- `RANDOM_HASH_BITS`. -/
def randomHashBits : ℕ := 14

/-- The loop of `get_client_random_bucket`; a round takes at least one bit off `i`. -/
def bucketLoop (random : Bytes) : ℕ → ℕ → ℕ → ℕ → ℕ
  | 0, _, _, id => id
  | fuel + 1, i, pos, id =>
    if 0 < i then
      let bits := if i < 8 then i else 8
      bucketLoop random fuel (i - bits) (pos + 1)
        ((id <<< bits) ||| ((byteAt random pos).toNat &&& (2 ^ bits - 1)))
    else id

/-- `get_client_random_bucket`. -/
def getClientRandomBucket (random : Bytes) : ℕ :=
  bucketLoop random randomHashBits randomHashBits 0 0

/-- `have_client_random`. -/
def haveClientRandom (c : RandomCache) (random : Bytes) : Bool :=
  (c.buckets (getClientRandomBucket random)).any (fun e => e.random = random)

/-- `add_client_random`. -/
def addClientRandom (now : NowT) (random : Bytes) (c : RandomCache) : RandomCache :=
  let entry : ClientRandom := ⟨c.fresh, random, now.val⟩
  let b := getClientRandomBucket random
  { byTime := c.byTime ++ [entry]
    buckets := Function.update c.buckets b (entry :: c.buckets b)
    fresh := c.fresh + 1 }

/-- `MAX_CLIENT_RANDOM_CACHE_TIME`. -/
def maxClientRandomCacheTime : ℤ := 2 * 86400

/-- The walk that cuts an entry off its chain, after the assertion that nothing follows
it there. -/
def unlinkEntry (entry : ClientRandom) : List ClientRandom → Option (List ClientRandom)
  | [] => none
  | e :: chain =>
    if e = entry then if chain = [] then some [] else none
    else (unlinkEntry entry chain).map (e :: ·)

/-- The loop of `delete_old_client_randoms`: it never removes the last entry. -/
def deleteOldLoop (now : NowT) :
    List ClientRandom → (ℕ → List ClientRandom) →
      Option (List ClientRandom × (ℕ → List ClientRandom))
  | [], buckets => some ([], buckets)
  | [e], buckets => some ([e], buckets)
  | e :: e' :: l, buckets =>
    if wrap32 (now.val - maxClientRandomCacheTime) < e.time then some (e :: e' :: l, buckets)
    else
      let b := getClientRandomBucket e.random
      match unlinkEntry e (buckets b) with
      | none => none
      | some chain => deleteOldLoop now (e' :: l) (Function.update buckets b chain)

/-- `delete_old_client_randoms`. -/
def deleteOldClientRandoms (now : NowT) (c : RandomCache) : Option RandomCache :=
  (deleteOldLoop now c.byTime c.buckets).map
    (fun r => { c with byTime := r.1, buckets := r.2 })

/-- `MAX_ALLOWED_TIMESTAMP_ERROR`. -/
def maxAllowedTimestampError : ℤ := 10 * 60

/-- `is_allowed_timestamp`. -/
def isAllowedTimestamp (now : NowT) (first : Option ClientRandom) (timestamp : ℤ) : Bool :=
  if wrap32 (now.val + 3) < timestamp then false
  else if first.any (fun e => wrap32 (e.time + 3) < timestamp) then true
  else if wrap32 (now.val - maxAllowedTimestampError) < timestamp then true
  else false

/-! ## The ClientHello branch -/

/-- `memcpy (client_random, client_hello + 11, 32)`. -/
def clientRandomOf (hello : Bytes) : Bytes := slice hello 11 32

/-- `memset (client_hello + 11, 0, 32)`. -/
def zeroedHello (hello : Bytes) : Bytes := memcpyAt hello 11 (List.replicate 32 0)

/-- `sha256_hmac (secret, 16, client_hello, len, expected_random)`. -/
def expectedRandom (hmac : Bytes → Bytes → Bytes) (secret : Secret) (hello : Bytes) : Bytes :=
  hmac secret.val (zeroedHello hello)

/-- The loop over the snapshot: the first secret whose HMAC agrees in 28 bytes. -/
def matchSecret (hmac : Bytes → Bytes → Bytes) (hello : Bytes)
    (active : List ExtActiveSecret) : Option ExtActiveSecret :=
  active.find? (fun a => (expectedRandom hmac a.secret hello).take 28
    = (clientRandomOf hello).take 28)

/-- The timestamp that a secret authenticates. -/
def helloTimestamp (hmac : Bytes → Bytes → Bytes) (secret : Secret) (hello : Bytes) : ℤ :=
  asInt32 (le32 ((expectedRandom hmac secret hello).drop 28)
    ^^^ le32 ((clientRandomOf hello).drop 28))

/-- The checks on a ClientHello that involve the cache: the secret it is accepted under,
and the cache afterwards.  The lookups use the first 16 bytes of the client random;
`snapshot` is what `ext_snapshot_active_secrets` gave. -/
def checkClientHello (hmac : Bytes → Bytes → Bytes) (now : NowT)
    (snapshot : Option (List ExtActiveSecret)) (hello : Bytes) (c : RandomCache) :
    Option (Option ExtActiveSecret × RandomCache) :=
  let random := (clientRandomOf hello).take 16
  if haveClientRandom c random then some (none, c)
  else
    match deleteOldClientRandoms now (addClientRandom now random c) with
    | none => none
    | some c' =>
      match matchSecret hmac hello (snapshot.getD []) with
      | none => some (none, c')
      | some a =>
        if isAllowedTimestamp now c'.first (helloTimestamp hmac a.secret hello) then
          some (some a, c')
        else some (none, c')

/-! ## The invariant of the cache -/

/-- What holds of the cache at time `t`. -/
structure CacheInv (c : RandomCache) (t : ℤ) : Prop where
  sorted : c.byTime.Pairwise (fun a b => a.time ≤ b.time)
  times : ∀ e ∈ c.byTime, 0 ≤ e.time ∧ e.time ≤ t
  addr_nodup : (c.byTime.map (·.addr)).Nodup
  addr_fresh : ∀ e ∈ c.byTime, e.addr < c.fresh
  buckets_eq : ∀ b, c.buckets b =
    (c.byTime.filter (fun e => getClientRandomBucket e.random = b)).reverse

theorem cacheInv_empty (t : ℤ) : CacheInv RandomCache.empty t where
  sorted := List.Pairwise.nil
  times := by simp [RandomCache.empty]
  addr_nodup := List.nodup_nil
  addr_fresh := by simp [RandomCache.empty]
  buckets_eq := fun _ => rfl

theorem CacheInv.mono {c : RandomCache} {t t' : ℤ} (h : CacheInv c t) (ht : t ≤ t') :
    CacheInv c t' :=
  { h with times := fun e he => ⟨(h.times e he).1, (h.times e he).2.trans ht⟩ }

/-- **A lookup finds exactly the cached randoms.** -/
theorem haveClientRandom_iff {c : RandomCache} {t : ℤ} (h : CacheInv c t) (random : Bytes) :
    haveClientRandom c random = true ↔ ∃ e ∈ c.byTime, e.random = random := by
  unfold haveClientRandom
  rw [h.buckets_eq, List.any_eq_true]
  constructor
  · rintro ⟨e, he, heq⟩
    rw [List.mem_reverse, List.mem_filter] at he
    exact ⟨e, he.1, of_decide_eq_true heq⟩
  · rintro ⟨e, he, rfl⟩
    refine ⟨e, ?_, decide_eq_true rfl⟩
    rw [List.mem_reverse, List.mem_filter]
    exact ⟨he, decide_eq_true rfl⟩

theorem CacheInv.add {c : RandomCache} {t : ℤ} {now : NowT} (h : CacheInv c t)
    (ht : t ≤ now.val) (random : Bytes) : CacheInv (addClientRandom now random c) now.val := by
  have hmono := h.mono ht
  set entry : ClientRandom := ⟨c.fresh, random, now.val⟩ with hentry
  refine ⟨?_, ?_, ?_, ?_, ?_⟩
  · show (c.byTime ++ [entry]).Pairwise _
    rw [List.pairwise_append]
    refine ⟨h.sorted, List.pairwise_singleton _ _, fun a ha b hb => ?_⟩
    rw [List.mem_singleton.mp hb]
    exact (hmono.times a ha).2
  · refine List.forall_mem_append.mpr ⟨hmono.times, List.forall_mem_singleton.mpr ?_⟩
    exact ⟨now.property.1, le_refl now.val⟩
  · show ((c.byTime ++ [entry]).map (·.addr)).Nodup
    rw [List.map_append, List.map_singleton, List.nodup_append_comm, List.singleton_append,
      List.nodup_cons]
    refine ⟨?_, h.addr_nodup⟩
    intro hmem
    obtain ⟨e, he, heq⟩ := List.mem_map.mp hmem
    have := h.addr_fresh e he
    rw [heq] at this
    exact lt_irrefl _ this
  · show ∀ e ∈ c.byTime ++ [entry], e.addr < c.fresh + 1
    refine List.forall_mem_append.mpr ⟨fun e he => ?_, List.forall_mem_singleton.mpr ?_⟩
    · exact Nat.lt_succ_of_lt (h.addr_fresh e he)
    · exact Nat.lt_succ_self _
  · intro b
    show Function.update c.buckets (getClientRandomBucket random)
      (entry :: c.buckets (getClientRandomBucket random)) b
        = ((c.byTime ++ [entry]).filter _).reverse
    rw [List.filter_append, List.reverse_append, Function.update_apply]
    by_cases hb : b = getClientRandomBucket random
    · subst hb
      rw [if_pos rfl, h.buckets_eq]
      have hone : [entry].filter
          (fun e => getClientRandomBucket e.random = getClientRandomBucket random)
          = [entry] := by
        simp [hentry]
      rw [hone]
      rfl
    · rw [if_neg hb, h.buckets_eq]
      have hnone : [entry].filter (fun e => getClientRandomBucket e.random = b) = [] := by
        simp [hentry, Ne.symm hb]
      rw [hnone]
      rfl

/-- The oldest entry is the last of its chain, and unlinking it leaves the others. -/
theorem unlinkEntry_concat {e : ClientRandom} {chain : List ClientRandom} (h : e ∉ chain) :
    unlinkEntry e (chain ++ [e]) = some chain := by
  induction chain with
  | nil =>
    show (if e = e then if [] = [] then some [] else none else _) = _
    rw [if_pos rfl, if_pos rfl]
  | cons a chain ih =>
    have hne : a ≠ e := fun heq => h (heq ▸ List.mem_cons_self)
    rw [List.cons_append, unlinkEntry, if_neg hne, ih (fun hmem => h (List.mem_cons_of_mem _ hmem))]
    rfl

/-- **`delete_old_client_randoms` fails no assertion**, drops a front part of the list
whose entries are two days old, and keeps the last entry. -/
theorem deleteOldLoop_spec (now : NowT) :
    ∀ (l : List ClientRandom) (buckets : ℕ → List ClientRandom), l.Nodup →
      (∀ b, buckets b = (l.filter (fun e => getClientRandomBucket e.random = b)).reverse) →
      ∃ l' buckets' gone, deleteOldLoop now l buckets = some (l', buckets') ∧ l = gone ++ l' ∧
        (l ≠ [] → l' ≠ []) ∧
        (∀ e ∈ gone, e.time ≤ wrap32 (now.val - maxClientRandomCacheTime)) ∧
        ∀ b, buckets' b = (l'.filter (fun e => getClientRandomBucket e.random = b)).reverse
  | [], buckets, _, hb => ⟨[], buckets, [], rfl, rfl, id, by simp, hb⟩
  | [e], buckets, _, hb => ⟨[e], buckets, [], rfl, rfl, id, by simp, hb⟩
  | e :: e' :: l, buckets, hnd, hb => by
    rw [deleteOldLoop]
    by_cases hyoung : wrap32 (now.val - maxClientRandomCacheTime) < e.time
    · rw [if_pos hyoung]
      exact ⟨e :: e' :: l, buckets, [], rfl, rfl, id, by simp, hb⟩
    · rw [if_neg hyoung]
      obtain ⟨hnot, hnd'⟩ := List.nodup_cons.mp hnd
      have hchain : buckets (getClientRandomBucket e.random)
          = ((e' :: l).filter (fun x =>
              getClientRandomBucket x.random = getClientRandomBucket e.random)).reverse
            ++ [e] := by
        rw [hb, List.filter_cons_of_pos (by simp), List.reverse_cons]
      have hfree : e ∉ ((e' :: l).filter (fun x =>
          getClientRandomBucket x.random = getClientRandomBucket e.random)).reverse := by
        rw [List.mem_reverse, List.mem_filter]
        exact fun h => hnot h.1
      dsimp only
      rw [hchain, unlinkEntry_concat hfree]
      dsimp only
      have hupd : ∀ b, Function.update buckets (getClientRandomBucket e.random)
          ((e' :: l).filter (fun x =>
            getClientRandomBucket x.random = getClientRandomBucket e.random)).reverse b
          = ((e' :: l).filter (fun x => getClientRandomBucket x.random = b)).reverse := by
        intro b
        rw [Function.update_apply]
        by_cases hbe : b = getClientRandomBucket e.random
        · subst hbe
          rw [if_pos rfl]
        · rw [if_neg hbe, hb, List.filter_cons_of_neg]
          simpa using Ne.symm hbe
      obtain ⟨l', buckets', gone, hrun, hsplit, hne, hold, hb'⟩ :=
        deleteOldLoop_spec now (e' :: l) _ hnd' hupd
      refine ⟨l', buckets', e :: gone, hrun, by rw [hsplit]; rfl,
        fun _ => hne (List.cons_ne_nil _ _), ?_, hb'⟩
      exact List.forall_mem_cons.mpr ⟨not_lt.mp hyoung, hold⟩

/-- The spec of `delete_old_client_randoms` on a good cache. -/
theorem deleteOldClientRandoms_spec {c : RandomCache} {t : ℤ} (h : CacheInv c t) (now : NowT) :
    ∃ c' gone, deleteOldClientRandoms now c = some c' ∧ CacheInv c' t ∧
      c.byTime = gone ++ c'.byTime ∧ (c.byTime ≠ [] → c'.byTime ≠ []) ∧
      ∀ e ∈ gone, e.time ≤ wrap32 (now.val - maxClientRandomCacheTime) := by
  obtain ⟨l', buckets', gone, hrun, hsplit, hne, hold, hb⟩ :=
    deleteOldLoop_spec now c.byTime c.buckets (List.Nodup.of_map _ h.addr_nodup) h.buckets_eq
  have hsub : l'.Sublist c.byTime := by
    rw [hsplit]
    exact List.sublist_append_right gone l'
  refine ⟨{ c with byTime := l', buckets := buckets' }, gone, ?_, ?_, hsplit, hne, hold⟩
  · unfold deleteOldClientRandoms
    rw [hrun]
    rfl
  · exact ⟨h.sorted.sublist hsub, fun e he => h.times e (hsub.subset he),
      h.addr_nodup.sublist (hsub.map _), fun e he => h.addr_fresh e (hsub.subset he), hb⟩

/-! ## What the cache remembers -/

/-- What is left of a random that was added at time `t₁`, at time `t`: its entry, or a
head of the time list that is no older while two days have passed. -/
def Remembered (c : RandomCache) (t : ℤ) (random : Bytes) (t₁ : ℤ) : Prop :=
  (∃ e ∈ c.byTime, e.random = random ∧ e.time = t₁) ∨
    ∃ e, c.first = some e ∧ t₁ ≤ e.time ∧ t₁ + maxClientRandomCacheTime ≤ t

theorem Remembered.mono {c : RandomCache} {t t' : ℤ} {random : Bytes} {t₁ : ℤ}
    (h : Remembered c t random t₁) (ht : t ≤ t') : Remembered c t' random t₁ := by
  rcases h with h | ⟨e, he, hle, hlt⟩
  · exact Or.inl h
  · exact Or.inr ⟨e, he, hle, hlt.trans ht⟩

/-- Adding and deleting forgets a random only after two days, and leaves a head that is
no older. -/
theorem Remembered.addDelete {c c' : RandomCache} {t t₁ : ℤ} {now : NowT}
    {random random₁ : Bytes} (hc : CacheInv c t) (ht : t ≤ now.val)
    (h : Remembered c t random₁ t₁)
    (hdel : deleteOldClientRandoms now (addClientRandom now random c) = some c') :
    Remembered c' now.val random₁ t₁ := by
  have hadd := hc.add ht random
  obtain ⟨c₂, gone, hrun, hc', hsplit, hne, hold⟩ := deleteOldClientRandoms_spec hadd now
  rw [hdel] at hrun
  cases hrun
  have hnow := now.property
  have hwrap : wrap32 (now.val - maxClientRandomCacheTime)
      = now.val - maxClientRandomCacheTime := by
    unfold maxClientRandomCacheTime
    exact wrap32_of_isInt32 ⟨by omega, by omega⟩
  have hlist : c.byTime ++ [⟨c.fresh, random, now.val⟩] = gone ++ c'.byTime := hsplit
  obtain ⟨e', l', hhead⟩ := List.exists_cons_of_ne_nil
    (hne (show c.byTime ++ [_] ≠ [] by simp))
  have hfirst : c'.first = some e' := by
    unfold RandomCache.first
    rw [hhead]
    rfl
  -- every entry that is gone is no younger than the new head
  have hsorted : ∀ e ∈ gone, e.time ≤ e'.time := by
    have hpair := hadd.sorted
    rw [hsplit, List.pairwise_append] at hpair
    exact fun e he => hpair.2.2 e he e' (by rw [hhead]; exact List.mem_cons_self)
  rcases h with ⟨e, he, hrandom, htime⟩ | ⟨e, he, hle, hlt⟩
  · have hmem : e ∈ gone ++ c'.byTime := by
      rw [← hlist]
      exact List.mem_append_left _ he
    rcases List.mem_append.mp hmem with hgone | hkept
    · have h1 := hsorted e hgone
      have h2 := hold e hgone
      rw [hwrap] at h2
      exact Or.inr ⟨e', hfirst, by omega, by omega⟩
    · exact Or.inl ⟨e, hkept, hrandom, htime⟩
  · -- the old head is no younger than any entry, the new head among them
    obtain ⟨l, hl⟩ := List.head?_eq_some_iff.mp he
    have hmem : e' ∈ (addClientRandom now random c).byTime := by
      rw [hsplit, hhead]
      exact List.mem_append_right _ List.mem_cons_self
    have hpair := hadd.sorted
    change e' ∈ c.byTime ++ [_] at hmem
    change (c.byTime ++ [_]).Pairwise _ at hpair
    rw [hl, List.cons_append] at hmem hpair
    refine Or.inr ⟨e', hfirst, ?_, by omega⟩
    rcases List.mem_cons.mp hmem with heq | hrest
    · rw [heq]
      exact hle
    · exact hle.trans ((List.pairwise_cons.mp hpair).1 e' hrest)

/-- **The two accept windows.**  A timestamp that was allowed at `t₁` is not allowed two
days later when the head of the time list is no older than `t₁`. -/
theorem not_isAllowedTimestamp_of_old {now₁ now : NowT} {first₁ : Option ClientRandom}
    {e : ClientRandom} {timestamp : ℤ}
    (hfirst₁ : ∀ f, first₁ = some f → 0 ≤ f.time ∧ f.time ≤ now₁.val)
    (h₁ : isAllowedTimestamp now₁ first₁ timestamp = true) (he : now₁.val ≤ e.time)
    (hnow : now₁.val + maxClientRandomCacheTime ≤ now.val) (hen : e.time ≤ now.val) :
    isAllowedTimestamp now (some e) timestamp = false := by
  obtain ⟨h1lo, h1hi⟩ := now₁.property
  obtain ⟨hlo, hhi⟩ := now.property
  unfold maxClientRandomCacheTime at hnow
  -- at the first time nothing wraps: the timestamp is at most `now₁ + 3`, and not far
  -- below zero
  have hupper : timestamp ≤ now₁.val + 3 ∧ -600 < timestamp := by
    unfold isAllowedTimestamp maxAllowedTimestampError at h₁
    rw [wrap32_of_isInt32 ⟨by omega, by omega⟩] at h₁
    split at h₁
    · exact absurd h₁ (by decide)
    rename_i hle
    split at h₁
    · rename_i hany
      obtain ⟨f, hf, hlt⟩ : ∃ f, first₁ = some f ∧ wrap32 (f.time + 3) < timestamp := by
        cases first₁ with
        | none => exact absurd hany (by simp)
        | some f => exact ⟨f, rfl, by simpa using hany⟩
      have hf0 := hfirst₁ f hf
      rw [wrap32_of_isInt32 ⟨by omega, by omega⟩] at hlt
      omega
    · split at h₁
      · rename_i hlt
        rw [wrap32_of_isInt32 ⟨by omega, by omega⟩] at hlt
        omega
      · exact absurd h₁ (by decide)
  obtain ⟨hup, hlow⟩ := hupper
  unfold isAllowedTimestamp
  by_cases hfuture : wrap32 (now.val + 3) < timestamp
  · exact if_pos hfuture
  have hany : ¬ (some e).any (fun e => wrap32 (e.time + 3) < timestamp) = true := by
    simp only [Option.any_some, decide_eq_true_eq, not_lt] at hfuture ⊢
    by_cases hwrap : e.time + 3 < 2 ^ 31
    · rw [wrap32_of_isInt32 ⟨by omega, by omega⟩]
      omega
    · -- at the end of the clock `now + 3` wraps as well, and no timestamp gets there
      rw [wrap32_of_ge (by omega) (by omega)] at hfuture
      omega
  have hrecent : ¬ wrap32 (now.val - maxAllowedTimestampError) < timestamp := by
    unfold maxAllowedTimestampError
    rw [wrap32_of_isInt32 ⟨by omega, by omega⟩]
    omega
  rw [if_neg hfuture, if_neg hany, if_neg hrecent]

/-! ## Runs -/

/-- A ClientHello that reaches the check of its client random, with the time and the
snapshot of the active secrets. -/
structure HelloEvent where
  hello : Bytes
  now : NowT
  snapshot : Option (List ExtActiveSecret)

/-- The cache, the last value of `now`, and what became of each ClientHello so far. -/
structure ReplayState where
  cache : RandomCache
  now : ℤ
  log : List (HelloEvent × Option ExtActiveSecret)

/-- The state at process start. -/
def ReplayState.start : ReplayState := ⟨RandomCache.empty, 0, []⟩

/-- One ClientHello; `none` is a failed assertion. -/
def ReplayState.step (hmac : Bytes → Bytes → Bytes) (p : ReplayState) (e : HelloEvent) :
    Option ReplayState :=
  match checkClientHello hmac e.now e.snapshot e.hello p.cache with
  | none => none
  | some (verdict, cache) => some ⟨cache, e.now.val, p.log ++ [(e, verdict)]⟩

/-- The clock does not go backwards. -/
def ClockForward (p : ReplayState) (e : HelloEvent) : Prop := p.now ≤ e.now.val

/-- Two ClientHellos are byte-identical and both accepted, and the secrets they are
accepted under authenticate one timestamp, as one and the same secret does. -/
def IsReplay (hmac : Bytes → Bytes → Bytes) (x y : HelloEvent × Option ExtActiveSecret) :
    Prop :=
  x.1.hello = y.1.hello ∧ ∃ a b, x.2 = some a ∧ y.2 = some b ∧
    helloTimestamp hmac a.secret x.1.hello = helloTimestamp hmac b.secret y.1.hello

/-- What is known at time `t` about a ClientHello that was accepted under `a`. -/
structure AcceptedOnce (hmac : Bytes → Bytes → Bytes) (c : RandomCache) (t : ℤ)
    (x : HelloEvent) (a : ExtActiveSecret) : Prop where
  remembered : Remembered c t ((clientRandomOf x.hello).take 16) x.now.val
  allowed : ∃ first, (∀ f, first = some f → 0 ≤ f.time ∧ f.time ≤ x.now.val) ∧
    isAllowedTimestamp x.now first (helloTimestamp hmac a.secret x.hello) = true

/-- The invariant of a run. -/
structure ReplayInv (hmac : Bytes → Bytes → Bytes) (p : ReplayState) : Prop where
  cache : CacheInv p.cache p.now
  accepted : ∀ x ∈ p.log, ∀ a, x.2 = some a → AcceptedOnce hmac p.cache p.now x.1 a
  no_replay : p.log.Pairwise (fun x y => ¬ IsReplay hmac x y)

/-- **What the checks on a ClientHello do to a good cache**: nothing when its random is
cached; otherwise the random is added, old ones go, and the ClientHello may be
accepted. -/
theorem checkClientHello_cases (hmac : Bytes → Bytes → Bytes) (e : HelloEvent)
    {c : RandomCache} {t : ℤ} (h : CacheInv c t) (ht : t ≤ e.now.val) :
    (haveClientRandom c ((clientRandomOf e.hello).take 16) = true ∧
        checkClientHello hmac e.now e.snapshot e.hello c = some (none, c)) ∨
      (haveClientRandom c ((clientRandomOf e.hello).take 16) = false ∧
        ∃ c' verdict, checkClientHello hmac e.now e.snapshot e.hello c = some (verdict, c') ∧
          deleteOldClientRandoms e.now
            (addClientRandom e.now ((clientRandomOf e.hello).take 16) c) = some c' ∧
          CacheInv c' e.now.val ∧
          ∀ a, verdict = some a → isAllowedTimestamp e.now c'.first
            (helloTimestamp hmac a.secret e.hello) = true) := by
  unfold checkClientHello
  dsimp only
  cases hhave : haveClientRandom c ((clientRandomOf e.hello).take 16) with
  | true => exact Or.inl ⟨rfl, if_pos rfl⟩
  | false =>
    right
    rw [if_neg (by decide)]
    obtain ⟨c', gone, hdel, hc', -, -, -⟩ := deleteOldClientRandoms_spec
      (h.add ht ((clientRandomOf e.hello).take 16)) e.now
    rw [hdel]
    dsimp only
    split
    · exact ⟨rfl, c', none, rfl, rfl, hc', fun a ha => absurd ha (by simp)⟩
    · rename_i a _
      split
      · rename_i hok
        refine ⟨rfl, c', some a, rfl, rfl, hc', fun b hb => ?_⟩
        rw [← Option.some.inj hb]
        exact hok
      · exact ⟨rfl, c', none, rfl, rfl, hc', fun a ha => absurd ha (by simp)⟩

/-- Adding a random makes it remembered. -/
theorem remembered_of_add {c c' : RandomCache} {t : ℤ} {now : NowT} {random : Bytes}
    (hc : CacheInv c t) (ht : t ≤ now.val)
    (hdel : deleteOldClientRandoms now (addClientRandom now random c) = some c') :
    Remembered c' now.val random now.val := by
  obtain ⟨c₂, gone, hrun, hc', hsplit, hne, hold⟩ :=
    deleteOldClientRandoms_spec (hc.add ht random) now
  rw [hdel] at hrun
  cases hrun
  have hnow := now.property
  have hmem : (⟨c.fresh, random, now.val⟩ : ClientRandom) ∈ gone ++ c'.byTime := by
    rw [← hsplit]
    show _ ∈ c.byTime ++ [_]
    exact List.mem_append_right _ List.mem_cons_self
  rcases List.mem_append.mp hmem with hgone | hkept
  · -- an entry of this very second is not two days old
    have hle := hold _ hgone
    unfold maxClientRandomCacheTime at hle
    rw [wrap32_of_isInt32 ⟨by omega, by omega⟩] at hle
    exact absurd hle (by show ¬ now.val ≤ _; omega)
  · exact Or.inl ⟨_, hkept, rfl, rfl⟩

/-- **One ClientHello**: no assertion fails, and the invariant is kept. -/
theorem ReplayInv.step {hmac : Bytes → Bytes → Bytes} {p : ReplayState} {e : HelloEvent}
    (h : ReplayInv hmac p) (hclock : ClockForward p e) :
    ∃ p', p.step hmac e = some p' ∧ ReplayInv hmac p' := by
  unfold ReplayState.step
  rcases checkClientHello_cases hmac e h.cache hclock with
    ⟨-, hcheck⟩ | ⟨hnew, c', verdict, hcheck, hdel, hc', hallowed⟩
  · rw [hcheck]
    refine ⟨_, rfl, h.cache.mono hclock, ?_, ?_⟩
    · refine List.forall_mem_append.mpr ⟨fun x hx a ha => ?_, List.forall_mem_singleton.mpr ?_⟩
      · obtain ⟨hrem, hall⟩ := h.accepted x hx a ha
        exact ⟨hrem.mono hclock, hall⟩
      · exact fun a ha => absurd ha (by simp)
    · rw [List.pairwise_append]
      refine ⟨h.no_replay, List.pairwise_singleton _ _, fun x _ y hy => ?_⟩
      rw [List.mem_singleton.mp hy]
      rintro ⟨-, a, b, -, hb, -⟩
      exact absurd hb (by simp)
  · rw [hcheck]
    have hkeep : ∀ x ∈ p.log, ∀ a, x.2 = some a → AcceptedOnce hmac c' e.now.val x.1 a := by
      intro x hx a ha
      obtain ⟨hrem, hall⟩ := h.accepted x hx a ha
      exact ⟨hrem.addDelete h.cache hclock hdel, hall⟩
    have hfirst : ∀ f, c'.first = some f → 0 ≤ f.time ∧ f.time ≤ e.now.val :=
      fun f hf => hc'.times f (List.mem_of_head? hf)
    refine ⟨_, rfl, hc', ?_, ?_⟩
    · refine List.forall_mem_append.mpr ⟨hkeep, List.forall_mem_singleton.mpr ?_⟩
      exact fun a ha => ⟨remembered_of_add h.cache hclock hdel, c'.first, hfirst, hallowed a ha⟩
    · rw [List.pairwise_append]
      refine ⟨h.no_replay, List.pairwise_singleton _ _, fun x hx y hy => ?_⟩
      rw [List.mem_singleton.mp hy]
      rintro ⟨hhello, a, b, ha, hb, hstamp⟩
      change x.1.hello = e.hello at hhello
      change _ = helloTimestamp hmac b.secret e.hello at hstamp
      -- the random is not cached, so two days have passed since `x`
      have hrem := (h.accepted x hx a ha).remembered
      have hold : ¬ ∃ r ∈ p.cache.byTime, r.random = (clientRandomOf x.1.hello).take 16 := by
        rw [hhello, ← haveClientRandom_iff h.cache, hnew]
        decide
      have hlong : x.1.now.val + maxClientRandomCacheTime ≤ p.now := by
        rcases hrem with ⟨r, hr, hrandom, -⟩ | ⟨-, -, -, hlong⟩
        · exact absurd ⟨r, hr, hrandom⟩ hold
        · exact hlong
      have hclock' : p.now ≤ e.now.val := hclock
      -- the head of the time list is no older than `x`
      obtain ⟨f, hf, hle⟩ : ∃ f, c'.first = some f ∧ x.1.now.val ≤ f.time := by
        rcases (hkeep x hx a ha).remembered with ⟨r, hr, hrandom, htime⟩ | ⟨f, hf, hle, -⟩
        · obtain ⟨c₂, gone, hrun, -, hsplit, -, -⟩ := deleteOldClientRandoms_spec
            (h.cache.add hclock ((clientRandomOf e.hello).take 16)) e.now
          rw [hdel] at hrun
          cases hrun
          have hmem : r ∈ p.cache.byTime ++
              [⟨p.cache.fresh, (clientRandomOf e.hello).take 16, e.now.val⟩] := by
            show r ∈ (addClientRandom _ _ _).byTime
            rw [hsplit]
            exact List.mem_append_right _ hr
          rcases List.mem_append.mp hmem with hr' | hr'
          · exact absurd ⟨r, hr', hrandom⟩ hold
          · rw [List.mem_singleton.mp hr'] at htime
            change e.now.val = x.1.now.val at htime
            unfold maxClientRandomCacheTime at hlong
            omega
        · exact ⟨f, hf, hle⟩
      obtain ⟨first, hfirst₁, hall⟩ := (h.accepted x hx a ha).allowed
      have hno := not_isAllowedTimestamp_of_old hfirst₁ hall hle (hlong.trans hclock')
        (hfirst f hf).2
      have hyes := hallowed b hb
      rw [hf, ← hstamp, hno] at hyes
      exact absurd hyes (by decide)

/-- The log lists the ClientHellos of the run in order. -/
theorem log_of_run {hmac : Bytes → Bytes → Bytes} :
    ∀ {es : List HelloEvent} {p p' : ReplayState},
      Runs.run (ReplayState.step hmac) p es = some p' →
      p'.log.map Prod.fst = p.log.map Prod.fst ++ es := by
  intro es
  induction es with
  | nil =>
    intro p p' h
    cases h
    rw [List.append_nil]
  | cons e es ih =>
    intro p p' h
    obtain ⟨q, hq, hrest⟩ := Runs.run_cons.mp h
    have hlog : q.log.map Prod.fst = p.log.map Prod.fst ++ [e] := by
      unfold ReplayState.step at hq
      split at hq
      · exact absurd hq (by simp)
      · cases hq
        rw [List.map_append, List.map_singleton]
    rw [ih hrest, hlog, List.append_assoc]
    rfl

/-- A run whose times do not decrease goes forward at every step. -/
theorem along_clockForward {hmac : Bytes → Bytes → Bytes} :
    ∀ {es : List HelloEvent} {p : ReplayState}, (∀ e ∈ es, p.now ≤ e.now.val) →
      es.Pairwise (fun a b => a.now.val ≤ b.now.val) →
      Runs.Along (ReplayState.step hmac) ClockForward p es := by
  intro es
  induction es with
  | nil => intro p _ _; trivial
  | cons e es ih =>
    intro p hp hpair
    obtain ⟨hhead, htail⟩ := List.pairwise_cons.mp hpair
    refine ⟨hp e List.mem_cons_self, ?_⟩
    cases hq : p.step hmac e with
    | none => trivial
    | some q =>
      refine ih (fun e' he' => ?_) htail
      unfold ReplayState.step at hq
      split at hq
      · exact absurd hq (by simp)
      · cases hq
        exact hhead e' he'

/-- **Replay protection.**  For every sequence of ClientHellos at times that do not
decrease, no assertion of the cache fails, and no two of them are byte-identical and
both accepted with one authenticated timestamp. -/
theorem no_replay_of_run {hmac : Bytes → Bytes → Bytes} {es : List HelloEvent}
    (hclock : es.Pairwise (fun a b => a.now.val ≤ b.now.val)) :
    ∃ p, Runs.run (ReplayState.step hmac) ReplayState.start es = some p ∧
      p.log.map Prod.fst = es ∧ p.log.Pairwise (fun x y => ¬ IsReplay hmac x y) := by
  have hstart : ReplayInv hmac ReplayState.start :=
    ⟨cacheInv_empty 0, fun x hx => absurd hx (by simp [ReplayState.start]), List.Pairwise.nil⟩
  have halong : Runs.Along (ReplayState.step hmac) ClockForward ReplayState.start es :=
    along_clockForward (fun e _ => e.now.property.1) hclock
  obtain ⟨p, hrun, hp⟩ := Runs.run_total (P := ReplayInv hmac) (C := ClockForward)
    (fun _ _ hq hC => hq.step hC) hstart halong
  refine ⟨p, hrun, ?_, hp.no_replay⟩
  rw [log_of_run hrun]
  rfl

/-- A ClientHello of zeros, twice within a second, under an HMAC of zeros. -/
theorem no_replay_of_run_twice :
    ∃ p, Runs.run (ReplayState.step (fun _ _ => List.replicate 32 0)) ReplayState.start
        (List.replicate 2 ⟨List.replicate 76 0, ⟨0, by decide⟩, some [⟨Secret.fill 0, 1⟩]⟩)
          = some p ∧
      p.log.map Prod.fst
        = List.replicate 2 ⟨List.replicate 76 0, ⟨0, by decide⟩, some [⟨Secret.fill 0, 1⟩]⟩ ∧
      p.log.Pairwise (fun x y => ¬ IsReplay (fun _ _ => List.replicate 32 0) x y) :=
  no_replay_of_run (List.pairwise_replicate.mpr (Or.inr le_rfl))

end MtprotoProxy
