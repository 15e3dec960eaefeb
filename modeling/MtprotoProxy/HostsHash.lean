/-
# Probing the hosts table

For names of 7-bit characters whose hash does not run over, `getHash` is a search with double
hashing in a table of prime size.
-/
import MtprotoProxy.HostsTable

namespace MtprotoProxy

open CLib OpenAddressing

theorem prime_of_mem_pr : ∀ p ∈ pr, p.Prime := by
  unfold pr
  intro p hp
  fin_cases hp <;> norm_num

theorem bounds_of_mem_pr : ∀ p ∈ pr, 29 ≤ p ∧ p ≤ 37318507 := by decide

/-! ## The hashes of a plain name -/

/-- The first hash, without a sign. -/
def hash1 (p : ℕ) (name : Bytes) : ℕ := name.foldl (fun h c => (h * 17 + c.toNat) % p) 0

/-- The second hash, without a sign. -/
def hash2 (m : ℕ) (name : Bytes) : ℕ := name.foldl (fun h c => (h * 239 + c.toNat) % m) 0

theorem schar_of_lt {c : UInt8} (h : c < 128) : schar c = c.toNat := by
  unfold schar
  have hlt : c.toNat < 128 := h
  show c.toBitVec.toInt = c.toBitVec.toNat
  apply BitVec.toInt_eq_toNat_of_lt
  show 2 * c.toNat < 2 ^ 8
  omega

/-- One step of a hash that stays in the range of an `int`. -/
theorem hash_step {h m b : ℕ} {c : UInt8} (hc : c < 128) (hfit : h * b + c.toNat < 2 ^ 31) :
    (wrap32 ((h : ℤ) * b + schar c)).tmod m = ((h * b + c.toNat) % m : ℕ) := by
  have hnat : (h : ℤ) * b + schar c = (h * b + c.toNat : ℕ) := by
    rw [schar_of_lt hc]
    push_cast
    rfl
  rw [hnat, wrap32_of_isInt32, Int.tmod_eq_emod_of_nonneg (Int.natCast_nonneg _)]
  · rfl
  · constructor <;> omega

/-- **The hashes of a plain name** are numbers without a sign. -/
theorem nameHash_eq {p : ℕ} (hp : p ∈ pr) {name : Bytes} (h : PlainName p name) :
    nameHash p name = (((hash1 p name : ℕ) : ℤ), ((hash2 (p - 1) name : ℕ) : ℤ)) := by
  obtain ⟨hlo, hhi⟩ := bounds_of_mem_pr p hp
  have hcast : ((p : ℤ) - 1) = (p - 1 : ℕ) := by omega
  have hfold : ∀ (name : Bytes) (x y : ℕ), x < p → (∀ c ∈ name, c < 128) →
      HashFits (p - 1) y name →
      name.foldl (fun h c => ((wrap32 (h.1 * 17 + schar c)).tmod (p : ℤ),
        (wrap32 (h.2 * 239 + schar c)).tmod ((p : ℤ) - 1))) ((x : ℤ), (y : ℤ))
      = (((name.foldl (fun h c => (h * 17 + c.toNat) % p) x : ℕ) : ℤ),
        ((name.foldl (fun h c => (h * 239 + c.toNat) % (p - 1)) y : ℕ) : ℤ)) := by
    intro name
    induction name with
    | nil => exact fun x y _ _ _ => rfl
    | cons c name ih =>
      intro x y hx hchars hfits
      have hc : c < 128 := hchars c List.mem_cons_self
      have hclt : c.toNat < 128 := hc
      have h1 := hash_step (h := x) (m := p) (b := 17) hc (by omega)
      have h2 := hash_step (h := y) (m := p - 1) (b := 239) hc hfits.1
      rw [List.foldl_cons, List.foldl_cons, List.foldl_cons]
      refine Eq.trans ?_ (ih _ _ (Nat.mod_lt _ (by omega))
        (fun c hc => hchars c (List.mem_cons_of_mem _ hc)) hfits.2)
      rw [← h1, ← h2, ← hcast]
      rfl
  exact hfold name 0 0 (by omega) h.1 h.2

theorem foldl_mod_lt {m : ℕ} (hm : 0 < m) (f : ℕ → UInt8 → ℕ) (name : Bytes) {x : ℕ} (hx : x < m) :
    name.foldl (fun h c => f h c % m) x < m := by
  induction name generalizing x with
  | nil => exact hx
  | cons c name ih => exact ih (Nat.mod_lt _ hm)

theorem hash1_lt {p : ℕ} (hp : 0 < p) (name : Bytes) : hash1 p name < p :=
  foldl_mod_lt hp (fun h c => h * 17 + c.toNat) name hp

theorem hash2_lt {m : ℕ} (hm : 0 < m) (name : Bytes) : hash2 m name < m :=
  foldl_mod_lt hm (fun h c => h * 239 + c.toNat) name hm

/-- In a table of up to 7371571 slots no hash runs over. -/
theorem hashFits_of_le {p : ℕ} (hlo : 2 ≤ p) (hhi : p ≤ 7371571) {name : Bytes}
    (hchars : ∀ c ∈ name, c < 128) {y : ℕ} (hy : y < p - 1) : HashFits (p - 1) y name := by
  induction name generalizing y with
  | nil => trivial
  | cons c name ih =>
    have hc : c.toNat < 128 := hchars c List.mem_cons_self
    refine ⟨by omega, ih ?_ (Nat.mod_lt _ (by omega))⟩
    exact fun c hc => hchars c (List.mem_cons_of_mem _ hc)

/-! ## A search -/

/-- The slots where a name is looked for. -/
def nameSlots (p : ℕ) (name : Bytes) (i : ℕ) : ℕ :=
  (hash1 p name + i * (hash2 (p - 1) name + 1)) % p

/-- A step on, and back to the start of the table when it is left. -/
theorem next_slot {p s d : ℕ} (hs : s < p) (hd : d < p) :
    (if (p : ℤ) ≤ (s + d : ℕ) then ((s + d : ℕ) : ℤ) - p else (s + d : ℕ))
      = ((s + d) % p : ℕ) := by
  by_cases hover : p ≤ s + d
  · rw [if_pos (by exact_mod_cast hover), Nat.mod_eq_sub_mod hover, Nat.mod_eq_of_lt (by omega)]
    omega
  · rw [if_neg (by exact_mod_cast hover), Nat.mod_eq_of_lt (by omega)]

/-- **The loop of `getHash`** ends where the search ends. -/
theorem probe_spec {R : ResolverConf} {p : ℕ} (hp : p ∈ pr) (hsize : R.hsize = p) {name : Bytes}
    {i : ℕ} (hstop : StopsAt Host.name (nameSlots p) R.htable name i) {fuel j : ℕ} (hj : j ≤ i)
    (hfuel : i - j < fuel) :
    R.probe name ((hash2 (p - 1) name : ℤ) + 1) fuel (nameSlots p name j)
      = some ((nameSlots p name i : ℤ), R.htable (nameSlots p name i)) := by
  obtain ⟨hlo, hhi⟩ := bounds_of_mem_pr p hp
  have hslot (k : ℕ) : R.slot (nameSlots p name k) = some (R.htable (nameSlots p name k)) := by
    unfold ResolverConf.slot
    have hlt : nameSlots p name k < p := Nat.mod_lt _ (by omega)
    rw [if_pos ⟨Int.natCast_nonneg _, by rw [hsize]; exact_mod_cast hlt⟩, Int.toNat_natCast]
  induction fuel generalizing j with
  | zero => exact absurd hfuel (Nat.not_lt_zero _)
  | succ fuel ih =>
    unfold ResolverConf.probe
    simp only [hslot, some_bind, Option.pure_def]
    rcases hj.eq_or_lt with rfl | hlt
    · cases hend : R.htable (nameSlots p name j) with
      | none => rfl
      | some H =>
        dsimp only
        rw [if_pos (hstop.2 H hend).symm]
    · obtain ⟨H, hpast, hne⟩ := hstop.1 j hlt
      rw [hpast]
      dsimp only
      rw [if_neg (Ne.symm hne)]
      have hstep := hash2_lt (m := p - 1) (by omega) name
      have hnext : nameSlots p name (j + 1)
          = (nameSlots p name j + (hash2 (p - 1) name + 1)) % p := by
        unfold nameSlots
        rw [Nat.mod_add_mod, add_assoc, add_one_mul j]
      have hslotlt : nameSlots p name j < p := Nat.mod_lt _ (by omega)
      have hsteplt : hash2 (p - 1) name + 1 < p := by omega
      have hrounds : i - (j + 1) < fuel := by omega
      have hsum : wrap32 ((nameSlots p name j : ℤ) + ((hash2 (p - 1) name : ℤ) + 1))
          = (nameSlots p name j + (hash2 (p - 1) name + 1) : ℕ) := by
        rw [wrap32_of_isInt32]
        · push_cast
          rfl
        · constructor <;> omega
      rw [hsum, hsize, next_slot hslotlt hsteplt, ← hnext]
      exact ih hlt hrounds

/-- **A search** for a plain name in a table with a free slot ends. -/
theorem search_ends {R : ResolverConf} {p : ℕ} (hp : p ∈ pr) (hsize : R.hsize = p) {L : List Host}
    (hL : Stored Host.name (nameSlots p) R.htable L) (hfew : L.length < p) {name : Bytes}
    (hplain : PlainName p name) :
    ∃ i, StopsAt Host.name (nameSlots p) R.htable name i ∧
      R.probe name ((nameHash R.hsize name).2 + 1) R.hsize.toNat (nameHash R.hsize name).1
        = some ((nameSlots p name i : ℤ), R.htable (nameSlots p name i)) := by
  obtain ⟨hlo, hhi⟩ := bounds_of_mem_pr p hp
  obtain ⟨s, hs, hfree⟩ := hL.exists_free hfew
  have hstep := hash2_lt (m := p - 1) (by omega) name
  obtain ⟨k, hk, hslot⟩ := exists_slot (prime_of_mem_pr p hp) (Nat.succ_pos (hash2 (p - 1) name))
    (by omega) (hash1 p name) hs
  obtain ⟨i, hi, hstop⟩ : ∃ i < p, StopsAt Host.name (nameSlots p) R.htable name i :=
    exists_stopsAt ⟨k, hk, by rw [← hfree, ← hslot]; rfl⟩
  refine ⟨i, hstop, ?_⟩
  have hstart : hash1 p name = nameSlots p name 0 := by
    unfold nameSlots
    rw [zero_mul, add_zero, Nat.mod_eq_of_lt (hash1_lt (by omega) name)]
  rw [hsize, nameHash_eq hp hplain, Int.toNat_natCast]
  dsimp only
  rw [hstart]
  exact probe_spec hp hsize hstop (Nat.zero_le _) (by omega)

/-- **A lookup** gives the first host with the name. -/
theorem getHash_lookup {R : ResolverConf} {p : ℕ} (hp : p ∈ pr) (hsize : R.hsize = p)
    {L : List Host} (hL : Stored Host.name (nameSlots p) R.htable L) (hfew : L.length < p)
    {name : Bytes} (hplain : PlainName p name) (hlen : name.length < 128) :
    R.getHash name 0 = some (R, firstOf Host.name name L) := by
  obtain ⟨i, hstop, hrun⟩ := search_ends hp hsize hL hfew hplain
  rw [hL.find hstop] at hrun
  unfold ResolverConf.getHash
  simp only [guard, if_pos hlen, hrun, some_bind, Option.pure_def]
  cases firstOf Host.name name L with
  | none => rfl
  | some H => rfl

/-- **An insertion** adds the host behind those that are there. -/
theorem getHash_insert {R : ResolverConf} {p : ℕ} (hp : p ∈ pr) (hsize : R.hsize = p)
    {L : List Host} (hL : Stored Host.name (nameSlots p) R.htable L) (hfew : L.length < p)
    {H : Host} (hplain : PlainName p H.name) (hlen : H.name.length < 128) (hip : H.ip ≠ 0) :
    ∃ R' found, R.getHash H.name H.ip = some (R', found) ∧ R'.hsize = p ∧
      Stored Host.name (nameSlots p) R'.htable (L ++ [H]) := by
  obtain ⟨i, hstop, hrun⟩ := search_ends hp hsize hL hfew hplain
  unfold ResolverConf.getHash
  simp only [guard, if_pos hlen, hrun, some_bind, Option.pure_def]
  cases hend : R.htable (nameSlots p H.name i) with
  | some H' => exact ⟨R, some H', rfl, hsize, hL.keep hstop hend⟩
  | none =>
    dsimp only
    rw [if_neg hip, Int.toNat_natCast]
    exact ⟨_, _, rfl, hsize, hL.add hstop hend⟩

/-- The hosts of a list are inserted. -/
theorem insert_all {p : ℕ} (hp : p ∈ pr) {L : List Host}
    (hgood : ∀ H ∈ L, PlainName p H.name ∧ H.name.length < 128 ∧ H.ip ≠ 0) {R : ResolverConf}
    (hsize : R.hsize = p) {L₀ : List Host} (hL₀ : Stored Host.name (nameSlots p) R.htable L₀)
    (hfew : L₀.length + L.length < p) :
    ∃ R', L.foldlM (fun R H => visitWord true R H.name H.ip) R = some R' ∧ R'.hsize = p ∧
      Stored Host.name (nameSlots p) R'.htable (L₀ ++ L) := by
  induction L generalizing R L₀ with
  | nil => exact ⟨R, rfl, hsize, by rwa [List.append_nil]⟩
  | cons H L ih =>
    rw [List.length_cons] at hfew
    obtain ⟨hplain, hlen, hip⟩ := hgood H List.mem_cons_self
    obtain ⟨R', found, hrun, hsize', hL'⟩ := getHash_insert hp hsize hL₀ (by omega) hplain hlen hip
    obtain ⟨R'', hrest, hsize'', hL''⟩ := ih (fun H hH => hgood H (List.mem_cons_of_mem _ hH))
      hsize' hL' (by rw [List.length_append, List.length_singleton]; omega)
    refine ⟨R'', ?_, hsize'', by rwa [List.append_assoc, List.singleton_append] at hL''⟩
    have hvisit : visitWord true R H.name H.ip = some R' := by
      unfold visitWord
      rw [if_pos rfl, hrun]
      rfl
    rw [List.foldlM_cons, hvisit]
    exact hrest

end MtprotoProxy
