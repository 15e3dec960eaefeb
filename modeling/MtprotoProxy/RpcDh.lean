/-
# The Diffie-Hellman exchange of the RPC protocol

Models `net/net-crypto-dh.c`: `is_good_rpc_dh_bin`, `create_g_a`, `dh_inner_round` and
`dh_second_round`.

OpenSSL's numbers are natural numbers, big-endian in memory.  The bytes that `RAND_bytes`
gives are an argument; when `create_g_a` still rejects the last of them, its loop is still
looking for more (`Fault.stillLooking`).

`dhSecondRound_spec` says when an assertion of `dh_second_round` fails on a good value, and
`dhSecondRound_of_bad` that any other one gets the return value `0`.
-/
import MtprotoProxy.ExactSpecs
import MtprotoProxy.ExtLists

namespace MtprotoProxy

open CLib

/-! ## Numbers -/

/-- `BN_bin2bn`. -/
def bnBin2bn (bs : Bytes) : ℕ := bs.foldl (fun n b => n * 256 + b.toNat) 0

/-- `BN_num_bytes`. -/
def bnNumBytes (n : ℕ) : ℕ := (Nat.digits 256 n).length

/-- `BN_bn2bin` into the end of a buffer of 256 bytes that was cleared before. -/
def bnBytes256 (n : ℕ) : Bytes :=
  List.replicate (256 - bnNumBytes n) 0 ++ (Nat.digits 256 n).reverse.map UInt8.ofNat

/-- 256 bytes from `RAND_bytes`. -/
abbrev DhRandom : Type := { bs : Bytes // bs.length = 256 }

/-! ## The parameters -/

/-- `rpc_dh_prime_bin`. -/
def rpcDhPrimeBin : Bytes :=
  [0x89, 0x52, 0x13, 0x1b, 0x1e, 0x3a, 0x69, 0xba, 0x5f, 0x85, 0xcf, 0x8b,
    0xd2, 0x66, 0xc1, 0x2b, 0x13, 0x83, 0x16, 0x13, 0xbd, 0x2a, 0x4e, 0xf8,
    0x35, 0xa4, 0xd5, 0x3f, 0x9d, 0xbb, 0x42, 0x48, 0x2d, 0xbd, 0x46, 0x2b,
    0x31, 0xd8, 0x6c, 0x81, 0x6c, 0x59, 0x77, 0x52, 0x0f, 0x11, 0x70, 0x73,
    0x9e, 0xd2, 0xdd, 0xd6, 0xd8, 0x1b, 0x9e, 0xb6, 0x5f, 0xaa, 0xac, 0x14,
    0x87, 0x53, 0xc9, 0xe4, 0xf0, 0x72, 0xdc, 0x11, 0xa4, 0x92, 0x73, 0x06,
    0x83, 0xfa, 0x00, 0x67, 0x82, 0x6b, 0x18, 0xc5, 0x1d, 0x7e, 0xcb, 0xa5,
    0x2b, 0x82, 0x60, 0x75, 0xc0, 0xb9, 0x55, 0xe5, 0xac, 0xaf, 0xdd, 0x74,
    0xc3, 0x79, 0x5f, 0xd9, 0x52, 0x0b, 0x48, 0x0f, 0x3b, 0xe3, 0xba, 0x06,
    0x65, 0x33, 0x8a, 0x49, 0x8c, 0xa5, 0xda, 0xf1, 0x01, 0x76, 0x05, 0x09,
    0xa3, 0x8c, 0x49, 0xe3, 0x00, 0x74, 0x64, 0x08, 0x77, 0x4b, 0xb3, 0xed,
    0x26, 0x18, 0x1a, 0x64, 0x55, 0x76, 0x6a, 0xe9, 0x49, 0x7b, 0xb9, 0xc3,
    0xa3, 0xad, 0x5c, 0xba, 0xf7, 0x6b, 0x73, 0x84, 0x5f, 0xbb, 0x96, 0xbb,
    0x6d, 0x0f, 0x68, 0x4f, 0x95, 0xd2, 0xd3, 0x9c, 0xcb, 0xb4, 0xa9, 0x04,
    0xfa, 0xb1, 0xde, 0x43, 0x49, 0xce, 0x1c, 0x20, 0x87, 0xb6, 0xc9, 0x51,
    0xed, 0x99, 0xf9, 0x52, 0xe3, 0x4f, 0xd1, 0xa3, 0xfd, 0x14, 0x83, 0x35,
    0x75, 0x41, 0x47, 0x29, 0xa3, 0x8b, 0xe8, 0x68, 0xa4, 0xf9, 0xec, 0x62,
    0x3a, 0x5d, 0x24, 0x62, 0x1a, 0xba, 0x01, 0xb2, 0x55, 0xc7, 0xe8, 0x38,
    0x5d, 0x16, 0xac, 0x93, 0xb0, 0x2d, 0x2a, 0x54, 0x0a, 0x76, 0x42, 0x98,
    0x2d, 0x22, 0xad, 0xa3, 0xcc, 0xde, 0x5c, 0x8d, 0x26, 0x6f, 0xaa, 0x25,
    0xdd, 0x2d, 0xe9, 0xf6, 0xd4, 0x91, 0x04, 0x16, 0x2f, 0x68, 0x5c, 0x45,
    0xfe, 0x34, 0xdd, 0xab]

/-- `rpc_dh_prime`. -/
def rpcDhPrime : ℕ := bnBin2bn rpcDhPrimeBin

/-- `RPC_DH_GEN`. -/
def rpcDhGen : ℕ := 3

/-- `RPC_PARAM_HASH`. -/
def rpcParamHash : ℤ := 0x00620b93

/-! ## The rounds -/

/-- The second loop of `is_good_rpc_dh_bin`: the data is less than the prime at the first
place where they differ. -/
def lessAtFirstDifference : Bytes → Bytes → Bool
  | d :: data, p :: prime =>
    if p < d then false
    else if d < p then true
    else lessAtFirstDifference data prime
  | _, _ => false

/-- `is_good_rpc_dh_bin`: it looks at the first eight bytes only. -/
def isGoodRpcDhBin (data : Bytes) : Bool :=
  -- the loops run over `i < 8`; a value that equals the prime there is not good either
  if (data.take 8).any (· != 0) then lessAtFirstDifference (data.take 8) (rpcDhPrimeBin.take 8)
  else false

/-- `BN_mod_exp` modulo the prime, with the assertion on the length of the power that
`create_g_a` and `dh_inner_round` make. -/
def dhPower (base : ℕ) (a : DhRandom) : Except Fault Bytes := do
  let value := base ^ bnBin2bn a.val % rpcDhPrime
  require (240 < bnNumBytes value ∧ bnNumBytes value ≤ 256) Fault.assertion
  pure (bnBytes256 value)

/-- `create_g_a`: the power and its exponent. -/
def createGA : List DhRandom → Except Fault (Bytes × DhRandom)
  | [] => .error Fault.stillLooking
  | a :: draws => do
    let gA ← dhPower rpcDhGen a
    if isGoodRpcDhBin gA then pure (gA, a) else createGA draws

/-- `dh_inner_round`. -/
def dhInnerRound (gB : Bytes) (a : DhRandom) : Except Fault Bytes := dhPower (bnBin2bn gB) a

/-- `dh_second_round`: its return value, and what it writes to `g_ab` and `g_a`. -/
def dhSecondRound (draws : List DhRandom) (gB : Bytes) : Except Fault (ℤ × Bytes × Bytes) :=
  if isGoodRpcDhBin gB then do
    let (gA, a) ← createGA draws
    let gAB ← dhInnerRound gB a
    pure (256, gAB, gA)
  else .ok (0, [], [])

/-! ## What the rounds do -/

/-- A power of 241 bytes or more; no power has more than 256. -/
def LongPower (base : ℕ) (a : DhRandom) : Prop :=
  240 < bnNumBytes (base ^ bnBin2bn a.val % rpcDhPrime)

/-- The powers that the random exponents give are long: those of the generator, up to the
first one that `create_g_a` takes, and with that exponent the one of the peer's value. -/
def DrawsLong (gB : Bytes) : List DhRandom → Prop
  | [] => True
  | a :: draws =>
    LongPower rpcDhGen a ∧
      if isGoodRpcDhBin (bnBytes256 (rpcDhGen ^ bnBin2bn a.val % rpcDhPrime)) then
        LongPower (bnBin2bn gB) a
      else DrawsLong gB draws

theorem rpcDhPrime_pos : 0 < rpcDhPrime := by decide +kernel

theorem rpcDhPrime_lt : rpcDhPrime < 256 ^ 256 := by decide +kernel

theorem bnNumBytes_mod_le (n : ℕ) : bnNumBytes (n % rpcDhPrime) ≤ 256 := by
  unfold bnNumBytes
  rw [Nat.digits_length_le_iff (by norm_num)]
  exact (Nat.mod_lt n rpcDhPrime_pos).trans rpcDhPrime_lt

theorem dhPower_of_long {base : ℕ} {a : DhRandom} (h : LongPower base a) :
    dhPower base a = .ok (bnBytes256 (base ^ bnBin2bn a.val % rpcDhPrime)) := by
  have hle := bnNumBytes_mod_le (base ^ bnBin2bn a.val)
  unfold dhPower
  dsimp only
  rw [require_ok ⟨h, hle⟩, ok_bind, pure_eq_ok]

theorem dhPower_of_short {base : ℕ} {a : DhRandom} (h : ¬ LongPower base a) :
    dhPower base a = .error Fault.assertion := by
  unfold dhPower
  dsimp only
  rw [require_error (fun hboth => h hboth.1), error_bind]

/-- The value a peer's good `g_b` is answered with, one draw at a time. -/
theorem dhSecondRound_cons {a : DhRandom} {draws : List DhRandom} {gB : Bytes}
    (hgood : isGoodRpcDhBin gB = true) (hlong : LongPower rpcDhGen a) :
    dhSecondRound (a :: draws) gB =
      if isGoodRpcDhBin (bnBytes256 (rpcDhGen ^ bnBin2bn a.val % rpcDhPrime)) then
        (dhInnerRound gB a).map
          (fun gAB => (256, gAB, bnBytes256 (rpcDhGen ^ bnBin2bn a.val % rpcDhPrime)))
      else dhSecondRound draws gB := by
  unfold dhSecondRound
  rw [if_pos hgood, if_pos hgood, createGA, dhPower_of_long hlong, ok_bind]
  split
  · rw [pure_eq_ok, ok_bind]
    dsimp only
    cases dhInnerRound gB a <;> rfl
  · rfl

/-- **An assertion of the second round fails** exactly when one of the powers is short. -/
theorem dhSecondRound_fault_iff {draws : List DhRandom} {gB : Bytes}
    (hgood : isGoodRpcDhBin gB = true) :
    dhSecondRound draws gB = .error Fault.assertion ↔ ¬ DrawsLong gB draws := by
  induction draws with
  | nil =>
    unfold dhSecondRound DrawsLong
    rw [if_pos hgood, createGA, error_bind]
    simp
  | cons a draws ih =>
    rw [DrawsLong]
    -- the first draw: its power is short, or it is taken, or the next draw decides
    by_cases hlong : LongPower rpcDhGen a
    · rw [dhSecondRound_cons hgood hlong]
      split
      · by_cases hkey : LongPower (bnBin2bn gB) a
        · rw [dhInnerRound, dhPower_of_long hkey]
          simp [hlong, hkey, Except.map]
        · rw [dhInnerRound, dhPower_of_short hkey]
          simp [hkey, Except.map]
      · rw [ih]
        simp [hlong]
    · unfold dhSecondRound
      rw [if_pos hgood, createGA, dhPower_of_short hlong, error_bind, error_bind]
      simp [hlong]

/-- **A value that is not good** gets no key: the return value is `0`. -/
theorem dhSecondRound_of_bad {gB : Bytes} (h : isGoodRpcDhBin gB = false)
    (draws : List DhRandom) : dhSecondRound draws gB = .ok (0, [], []) := by
  unfold dhSecondRound
  rw [if_neg (by simp [h])]

/-- **The second round on a good value**: an assertion fails exactly when one of the powers
is short, and a key has 256 bytes. -/
theorem dhSecondRound_spec {draws : List DhRandom} {gB : Bytes}
    (hgood : isGoodRpcDhBin gB = true) :
    FailsUnless Fault.assertion (DrawsLong gB draws) (fun r => r.1 = 256)
      (dhSecondRound draws gB) where
  fails := dhSecondRound_fault_iff hgood
  gives := by
    intro r h
    unfold dhSecondRound at h
    rw [if_pos hgood] at h
    obtain ⟨round, -, h⟩ := bind_eq_ok.mp h
    obtain ⟨key, -, h⟩ := bind_eq_ok.mp h
    rw [← Except.ok.inj h]

end MtprotoProxy
