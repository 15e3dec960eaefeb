/-
# The keys of the two ends

`aes_create_keys` of `net/net-crypto-aes.c` on its array `str`: every access is checked
against the size of the array, and what the digests are computed from is an answer of its
own.  `createKeys_spec` connects this to `aesCreateKeys`, which says the same of byte
strings.

* `createKeys_symmetric`: what one end writes with is what the other end reads with.

The two directions differ in six bytes: the text that names the role, under the temporary
key if that reaches so far.
-/
import MtprotoProxy.RpcNonce
import MtprotoProxy.BufferReads

namespace MtprotoProxy

open CLib

/-! ## The array -/

/-- `sizeof (str)`. -/
def keyBufferSize : ℕ := 16 + 16 + 4 + 4 + 2 + 6 + 4 + 2 + 256 + 16 + 16 + 4 + 16 * 2 + 256

/-- The array `str` before it is written. -/
abbrev KeyBuffer : Type := { str : Bytes // str.length = keyBufferSize }

/-- `memcpy (str + i, src, |src|)`, and the assignments of a word. -/
def storeSlice (str : Bytes) (i : ℕ) (src : Bytes) : Except Fault Bytes := do
  require (i + src.length ≤ str.length) .badPointer
  return memcpyAt str i src

/-- `str[i] ^= mask[0]`, `str[i + 1] ^= mask[1]` and so on. -/
def xorLoop : Bytes → ℕ → Bytes → Except Fault Bytes
  | str, _, [] => .ok str
  | str, i, m :: mask => do
    let c ← fetchByte str i
    xorLoop (str.set i (c ^^^ m)) (i + 1) mask

/-- The arguments of `aes_create_keys` but the role. -/
structure KeyArgs where
  nonceServer : Bytes
  nonceClient : Bytes
  clientTimestamp : ℤ
  serverIp : ℕ
  serverPort : ℕ
  serverIpv6 : Bytes
  clientIp : ℕ
  clientPort : ℕ
  clientIpv6 : Bytes
  key : AesSecret
  tempKey : Bytes
  length_nonceServer : nonceServer.length = 16
  length_nonceClient : nonceClient.length = 16
  length_serverIpv6 : serverIpv6.length = 16
  length_clientIpv6 : clientIpv6.length = 16

/-- What the three digests of a direction are computed from: the first half of the key, the
second half, and the initial vector. -/
structure DigestInputs where
  md5Key : Bytes
  sha1Key : Bytes
  md5Iv : Bytes
  deriving DecidableEq

namespace KeyArgs

variable (a : KeyArgs) (digests : Digests)

/-- The six bytes by which the two roles differ: `'C' ^ 'S'` and so on. -/
def roleMask : Bytes := List.zipWith (· ^^^ ·) (roleText true) (roleText false)

/-- The part of `aes_create_keys` that puts the text together, without the temporary key. -/
def fillText (amClient : Bool) (str : Bytes) : Except Fault (Bytes × ℕ) := do
  let str ← storeSlice str 0 a.nonceServer
  let str ← storeSlice str 16 a.nonceClient
  let str ← storeSlice str 32 (intBytes a.clientTimestamp)
  let str ← storeSlice str 36 (leBytes 4 a.serverIp)
  let str ← storeSlice str 40 (leBytes 2 a.clientPort)
  let str ← storeSlice str 42 (roleText amClient)
  let str ← storeSlice str 48 (leBytes 4 a.clientIp)
  let str ← storeSlice str 52 (leBytes 2 a.serverPort)
  let str ← storeSlice str 54 a.key.val
  let str ← storeSlice str (54 + a.key.val.length) a.nonceServer
  let strLen := 70 + a.key.val.length
  if a.serverIp = 0 then do
    require (a.clientIp = 0) .assertion
    let str ← storeSlice str strLen a.clientIpv6
    let str ← storeSlice str (strLen + 16) a.serverIpv6
    let str ← storeSlice str (strLen + 32) a.nonceClient
    return (str, strLen + 32 + 16)
  else do
    require (a.clientIp ≠ 0) .assertion
    let str ← storeSlice str strLen a.nonceClient
    return (str, strLen + 16)

/-- The temporary key laid over the text: its first bytes change the text, the others come
behind it. -/
def applyTempKey (str : Bytes) (strLen : ℕ) : Except Fault (Bytes × ℕ) := do
  let tempKey := a.tempKey.take str.length
  let firstLen := min strLen tempKey.length
  let str ← xorLoop str 0 (tempKey.take firstLen)
  let str ← storeSlice str firstLen (tempKey.drop firstLen)
  return (str, max strLen tempKey.length)

/-- What the digests read. -/
def digestInputs (str : Bytes) (strLen : ℕ) : Except Fault DigestInputs := do
  let md5Key ← fetchSlice str 1 (strLen - 1)
  let sha1Key ← fetchSlice str 0 strLen
  let md5Iv ← fetchSlice str 2 (strLen - 2)
  return ⟨md5Key, sha1Key, md5Iv⟩

/-- The key and the initial vector of a direction; `sha1` overwrites the last bytes of the
first digest. -/
def keyOf (inputs : DigestInputs) : Bytes × Bytes :=
  ((digests.md5 inputs.md5Key).take 12 ++ digests.sha1 inputs.sha1Key, digests.md5 inputs.md5Iv)

/-- `aes_create_keys`: the keys, and what the digests of the two directions were computed
from, for writing and for reading; `none` is the return value `-1`. -/
def createKeys (amClient : Bool) (str : KeyBuffer) :
    Except Fault (Option (AesKeyData × DigestInputs × DigestInputs)) :=
  if a.key.val.length = 0 then .ok none
  else do
    require (32 ≤ a.key.val.length ∧ a.key.val.length ≤ 256) .assertion
    let (str, strLen) ← a.fillText amClient str.val
    let (str, strLen) ← a.applyTempKey str strLen
    let write ← digestInputs str strLen
    let str ← xorLoop str 42 roleMask
    let read ← digestInputs str strLen
    let _ ← storeSlice str 0 (List.replicate strLen 0)
    return some (⟨(keyOf digests read).1, (keyOf digests read).2, (keyOf digests write).1,
      (keyOf digests write).2⟩, write, read)

end KeyArgs

/-! ## The temporary key -/

@[simp] theorem mixTempKey_nil_right (s : Bytes) : mixTempKey s [] = s := by simp [mixTempKey]

@[simp] theorem mixTempKey_cons (c m : UInt8) (s t : Bytes) :
    mixTempKey (c :: s) (m :: t) = (c ^^^ m) :: mixTempKey s t := by simp [mixTempKey]

theorem length_mixTempKey (s t : Bytes) :
    (mixTempKey s t).length = max s.length t.length := by
  simp only [mixTempKey, List.length_append, List.length_zipWith, List.length_drop]
  omega

/-- The key over a text in two parts. -/
theorem mixTempKey_append (s s' t : Bytes) :
    mixTempKey (s ++ s') t = mixTempKey s (t.take s.length) ++ mixTempKey s' (t.drop s.length) := by
  induction s generalizing t with
  | nil => simp
  | cons c s ih =>
    cases t with
    | nil => simp
    | cons m t => simp [ih]

/-- A second mask on the text and one on the masked text do the same. -/
theorem zipWith_mixTempKey {s t mask : Bytes} (hmask : mask.length = s.length)
    (ht : t.length ≤ s.length) :
    List.zipWith (· ^^^ ·) (mixTempKey s t) mask =
      mixTempKey (List.zipWith (· ^^^ ·) s mask) t := by
  induction s generalizing t mask with
  | nil =>
    obtain rfl : t = [] := List.length_eq_zero_iff.mp (by simpa using ht)
    simp
  | cons c s ih =>
    cases mask with
    | nil => exact absurd hmask (by simp)
    | cons m mask =>
      cases t with
      | nil => simp
      | cons k t =>
        have hrest : List.zipWith (· ^^^ ·) (mixTempKey s t) mask =
            mixTempKey (List.zipWith (· ^^^ ·) s mask) t :=
          ih (by simpa using hmask) (by simpa using ht)
        simp only [mixTempKey_cons, List.zipWith_cons_cons, hrest, UInt8.xor_assoc,
          UInt8.xor_comm m k]

/-! ## Accesses inside the array -/

/-- The array starts with the text. -/
structure Filled (str text : Bytes) : Prop where
  size : str.length = keyBufferSize
  isPrefix : text <+: str

namespace Filled

variable {str text : Bytes}

theorem length_le (h : Filled str text) : text.length ≤ keyBufferSize :=
  h.size ▸ h.isPrefix.length_le

/-- **A store right behind the text** makes it longer. -/
theorem store (h : Filled str text) (i : ℕ) (src : Bytes) (hi : text.length = i)
    (hroom : i + src.length ≤ keyBufferSize) :
    ∃ str', storeSlice str i src = .ok str' ∧ Filled str' (text ++ src) := by
  obtain ⟨hsize, rest, rfl⟩ := h
  subst hi
  have hmem : memcpyAt (text ++ rest) text.length src = text ++ src ++ rest.drop src.length := by
    unfold memcpyAt
    rw [List.take_left, ← List.drop_drop, List.drop_left]
  refine ⟨text ++ src ++ rest.drop src.length, ?_, ?_, List.prefix_append _ _⟩
  · unfold storeSlice
    rw [require_ok (by rw [hsize]; exact hroom), ok_bind, pure_eq_ok, hmem]
  · rw [List.length_append] at hsize
    rw [List.length_append, List.length_append, List.length_drop]
    omega

/-- **Bytes of the text under a mask.** -/
theorem xor (i : ℕ) (mask : Bytes) {pre seg post : Bytes}
    (h : Filled str (pre ++ (seg ++ post))) (hi : pre.length = i)
    (hmask : mask.length = seg.length) :
    ∃ str', xorLoop str i mask = .ok str' ∧
      Filled str' (pre ++ (List.zipWith (· ^^^ ·) seg mask ++ post)) := by
  induction mask generalizing str i pre seg with
  | nil =>
    obtain rfl : seg = [] := List.length_eq_zero_iff.mp hmask.symm
    exact ⟨str, rfl, h⟩
  | cons m mask ih =>
    cases seg with
    | nil => exact absurd hmask (by simp)
    | cons c seg =>
      obtain ⟨hsize, rest, rfl⟩ := h
      subst hi
      have hstep : Filled ((pre ++ [c ^^^ m]) ++ (seg ++ (post ++ rest)))
          ((pre ++ [c ^^^ m]) ++ (seg ++ post)) := by
        constructor
        · simpa using hsize
        · exact ⟨rest, by simp⟩
      obtain ⟨str', hloop, hfilled⟩ := ih _ hstep rfl (by simpa using hmask)
      refine ⟨str', ?_, by simpa using hfilled⟩
      unfold xorLoop
      rw [fetchByte_ok (by simp), ok_bind]
      have hbyte : byteAt (pre ++ (c :: seg ++ post) ++ rest) pre.length = c := by
        unfold byteAt
        simp
      rw [hbyte, ← hloop]
      simp

/-- **What the digests read** is the text. -/
theorem digestInputs (h : Filled str text) (hlen : 2 ≤ text.length) :
    KeyArgs.digestInputs str text.length = .ok ⟨text.drop 1, text, text.drop 2⟩ := by
  obtain ⟨hsize, rest, rfl⟩ := h
  have hread : ∀ k ≤ text.length, slice (text ++ rest) k (text.length - k) = text.drop k := by
    intro k hk
    unfold slice
    rw [List.drop_append_of_le_length hk, ← List.length_drop, List.take_left]
  have hroom : ∀ k ≤ text.length, k + (text.length - k) ≤ (text ++ rest).length := by
    intro k hk
    rw [List.length_append]
    omega
  unfold KeyArgs.digestInputs
  have h0 := hread 0 (by omega)
  rw [Nat.sub_zero, List.drop_zero] at h0
  rw [fetchSlice_ok (hroom 1 (by omega)), ok_bind, fetchSlice_ok (by simp), ok_bind,
    fetchSlice_ok (hroom 2 hlen), ok_bind, pure_eq_ok, hread 1 (by omega), h0, hread 2 hlen]

end Filled

namespace KeyArgs

variable {a : KeyArgs} {amClient : Bool}

/-- Both ends have an IPv4 address, or neither. -/
def SameFamily (a : KeyArgs) : Prop := a.serverIp = 0 ↔ a.clientIp = 0

/-- The text in front of the role. -/
def front (a : KeyArgs) : Bytes :=
  a.nonceServer ++ a.nonceClient ++ intBytes a.clientTimestamp ++ leBytes 4 a.serverIp ++
    leBytes 2 a.clientPort

/-- The text behind it. -/
def back (a : KeyArgs) : Bytes :=
  leBytes 4 a.clientIp ++ leBytes 2 a.serverPort ++ a.key.val ++ a.nonceServer ++
    (if a.serverIp = 0 then a.clientIpv6 ++ a.serverIpv6 else []) ++ a.nonceClient

/-- The text that `aes_create_keys` puts together for a role. -/
def text (a : KeyArgs) (amClient : Bool) : Bytes := a.front ++ (roleText amClient ++ a.back)

theorem length_front (a : KeyArgs) : a.front.length = 42 := by
  simp [front, intBytes, a.length_nonceServer, a.length_nonceClient]

@[simp] theorem length_roleText (amClient : Bool) : (roleText amClient).length = 6 := by
  cases amClient <;> rfl

/-- **The text is put together inside the array.** -/
theorem fillText_spec (hfam : a.SameFamily) (buf : KeyBuffer) :
    ∃ str, a.fillText amClient buf.val = .ok (str, (a.text amClient).length) ∧
      Filled str (a.text amClient) := by
  have hkey : a.key.val.length ≤ 256 := by
    rcases a.key.property with h | h <;> omega
  have hns := a.length_nonceServer
  have hnc := a.length_nonceClient
  have hs6 := a.length_serverIpv6
  have hc6 := a.length_clientIpv6
  have hint : (intBytes a.clientTimestamp).length = 4 := length_leBytes _ _
  have hsize : keyBufferSize = 634 := rfl
  have h₀ : Filled buf.val [] := ⟨buf.property, List.nil_prefix⟩
  unfold fillText
  obtain ⟨s₁, e₁, h₁⟩ := h₀.store 0 a.nonceServer rfl (by omega)
  rw [e₁, ok_bind]
  obtain ⟨s₂, e₂, h₂⟩ := h₁.store 16 a.nonceClient (by simp [hns]) (by omega)
  rw [e₂, ok_bind]
  obtain ⟨s₃, e₃, h₃⟩ := h₂.store 32 (intBytes a.clientTimestamp) (by simp [hns, hnc]) (by omega)
  rw [e₃, ok_bind]
  obtain ⟨s₄, e₄, h₄⟩ := h₃.store 36 (leBytes 4 a.serverIp) (by simp [hns, hnc, hint])
    (by simp [hsize])
  rw [e₄, ok_bind]
  obtain ⟨s₅, e₅, h₅⟩ := h₄.store 40 (leBytes 2 a.clientPort) (by simp [hns, hnc, hint])
    (by simp [hsize])
  rw [e₅, ok_bind]
  obtain ⟨s₆, e₆, h₆⟩ := h₅.store 42 (roleText amClient) (by simp [hns, hnc, hint])
    (by simp [hsize])
  rw [e₆, ok_bind]
  obtain ⟨s₇, e₇, h₇⟩ := h₆.store 48 (leBytes 4 a.clientIp) (by simp [hns, hnc, hint])
    (by simp [hsize])
  rw [e₇, ok_bind]
  obtain ⟨s₈, e₈, h₈⟩ := h₇.store 52 (leBytes 2 a.serverPort) (by simp [hns, hnc, hint])
    (by simp [hsize])
  rw [e₈, ok_bind]
  obtain ⟨s₉, e₉, h₉⟩ := h₈.store 54 a.key.val (by simp [hns, hnc, hint]) (by omega)
  rw [e₉, ok_bind]
  obtain ⟨s, e, h⟩ := h₉.store (54 + a.key.val.length) a.nonceServer
    (by simp [hns, hnc, hint]; omega) (by omega)
  rw [e, ok_bind]
  dsimp only
  -- the addresses of the other family, and the last nonce
  by_cases hip : a.serverIp = 0
  · rw [if_pos hip, require_ok (hfam.mp hip), ok_bind]
    obtain ⟨t₁, f₁, k₁⟩ := h.store (70 + a.key.val.length) a.clientIpv6
      (by simp [hns, hnc, hint]; omega) (by omega)
    rw [f₁, ok_bind]
    obtain ⟨t₂, f₂, k₂⟩ := k₁.store (70 + a.key.val.length + 16) a.serverIpv6
      (by simp [hns, hnc, hint, hc6]; omega) (by omega)
    rw [f₂, ok_bind]
    obtain ⟨t₃, f₃, k₃⟩ := k₂.store (70 + a.key.val.length + 32) a.nonceClient
      (by simp [hns, hnc, hint, hc6, hs6]; omega) (by omega)
    rw [f₃, ok_bind]
    refine ⟨t₃, ?_, ?_⟩
    · simp [text, front, back, hip, hns, hnc, hint, hc6, hs6]
      omega
    · simpa [text, front, back, hip] using k₃
  · rw [if_neg hip, require_ok (show a.clientIp ≠ 0 from fun hc => hip (hfam.mpr hc)), ok_bind]
    obtain ⟨t₁, f₁, k₁⟩ := h.store (70 + a.key.val.length) a.nonceClient
      (by simp [hns, hnc, hint]; omega) (by omega)
    rw [f₁, ok_bind]
    refine ⟨t₁, ?_, ?_⟩
    · simp [text, front, back, hip, hns, hnc, hint]
      omega
    · simpa [text, front, back, hip] using k₁

/-! ## The key over the text -/

/-- **The temporary key is laid over the text inside the array.** -/
theorem applyTempKey_spec {str s : Bytes} (htemp : a.tempKey.length ≤ 256)
    (h : Filled str s) :
    ∃ str', a.applyTempKey str s.length = .ok (str', (mixTempKey s a.tempKey).length) ∧
      Filled str' (mixTempKey s a.tempKey) := by
  have hsize : keyBufferSize = 634 := rfl
  have hcut : a.tempKey.take str.length = a.tempKey :=
    List.take_of_length_le (by rw [h.size]; omega)
  unfold applyTempKey
  rw [hcut]
  dsimp only
  rcases Nat.le_total s.length a.tempKey.length with hle | hle
  · -- the whole text is masked, and the rest of the key comes behind it
    rw [Nat.min_eq_left hle]
    have h' : Filled str ([] ++ (s ++ [])) := by simpa using h
    obtain ⟨s₁, e₁, h₁⟩ := h'.xor 0 (a.tempKey.take s.length) rfl
      (by rw [List.length_take, Nat.min_eq_left hle])
    obtain ⟨s₂, e₂, h₂⟩ := h₁.store s.length (a.tempKey.drop s.length)
      (by simp [hle]) (by rw [List.length_drop]; omega)
    refine ⟨s₂, ?_, ?_⟩
    · rw [e₁, ok_bind, e₂, ok_bind, pure_eq_ok, length_mixTempKey]
    · have hmix : mixTempKey s a.tempKey =
          List.zipWith (· ^^^ ·) s (a.tempKey.take s.length) ++ a.tempKey.drop s.length := by
        unfold mixTempKey
        rw [List.drop_of_length_le hle, List.append_nil, List.zipWith_eq_zipWith_take_min,
          Nat.min_eq_left hle, List.take_length]
      rw [hmix]
      simpa using h₂
  · -- the key is used up inside the text
    rw [Nat.min_eq_right hle, List.take_length, List.drop_length]
    have h' : Filled str ([] ++ (s.take a.tempKey.length ++ s.drop a.tempKey.length)) := by
      simpa using h
    obtain ⟨s₁, e₁, h₁⟩ := h'.xor 0 a.tempKey rfl
      (by rw [List.length_take, Nat.min_eq_left hle])
    have hmix : mixTempKey s a.tempKey =
        List.zipWith (· ^^^ ·) (s.take a.tempKey.length) a.tempKey ++ s.drop a.tempKey.length := by
      unfold mixTempKey
      rw [List.drop_of_length_le hle, List.append_nil, List.zipWith_eq_zipWith_take_min,
        Nat.min_eq_right hle, List.take_length]
    refine ⟨s₁, ?_, ?_⟩
    · have hnone : storeSlice s₁ a.tempKey.length [] = .ok s₁ := by
        unfold storeSlice memcpyAt
        rw [require_ok (by rw [h₁.size, List.length_nil]; omega), ok_bind, pure_eq_ok]
        simp
      rw [e₁, ok_bind, hnone, ok_bind, pure_eq_ok, length_mixTempKey]
    · rw [hmix]
      simpa using h₁

/-! ## The two directions -/

/-- What the digests of a direction are computed from, when this role writes. -/
def masked (a : KeyArgs) (amClient : Bool) : Bytes := mixTempKey (a.text amClient) a.tempKey

/-- The six bytes of the role, as they are masked. -/
def maskedRole (a : KeyArgs) (amClient : Bool) : Bytes :=
  mixTempKey (roleText amClient) ((a.tempKey.drop 42).take 6)

theorem length_maskedRole (a : KeyArgs) (amClient : Bool) : (a.maskedRole amClient).length = 6 := by
  rw [maskedRole, length_mixTempKey, length_roleText, List.length_take]
  omega

/-- The masked text is the same for both roles outside six bytes. -/
theorem masked_eq (a : KeyArgs) (amClient : Bool) :
    a.masked amClient = mixTempKey a.front (a.tempKey.take 42) ++
      (a.maskedRole amClient ++ mixTempKey a.back ((a.tempKey.drop 42).drop 6)) := by
  unfold masked text maskedRole
  rw [mixTempKey_append, mixTempKey_append, length_front, length_roleText]

theorem length_maskedFront (a : KeyArgs) :
    (mixTempKey a.front (a.tempKey.take 42)).length = 42 := by
  rw [length_mixTempKey, length_front, List.length_take]
  omega

/-- **The role mask turns one role into the other**, also under the temporary key. -/
theorem flip_maskedRole (a : KeyArgs) (amClient : Bool) :
    List.zipWith (· ^^^ ·) (a.maskedRole amClient) roleMask = a.maskedRole (!amClient) := by
  unfold maskedRole
  have hmask : roleMask.length = (roleText amClient).length := by cases amClient <;> rfl
  rw [zipWith_mixTempKey hmask (by rw [length_roleText, List.length_take]; omega)]
  congr 1
  cases amClient <;> decide

/-- The two roles differ in their first byte. -/
theorem maskedRole_ne (a : KeyArgs) (amClient : Bool) :
    a.maskedRole amClient ≠ a.maskedRole (!amClient) := by
  intro heq
  rw [← flip_maskedRole] at heq
  cases hrole : a.maskedRole amClient with
  | nil => exact absurd (a.length_maskedRole amClient) (by simp [hrole])
  | cons c cs =>
    rw [hrole] at heq
    have hfirst : c = c ^^^ 16 := (List.cons.inj heq).1
    have hzero : (16 : UInt8) = 0 := by
      have := congrArg (c ^^^ ·) hfirst
      simpa [← UInt8.xor_assoc] using this.symm
    exact absurd hzero (by decide)

/-- What a direction reads is different in the two directions, wherever it starts in front
of the role. -/
theorem drop_masked_ne (a : KeyArgs) (amClient : Bool) {k : ℕ} (hk : k ≤ 42) :
    (a.masked amClient).drop k ≠ (a.masked (!amClient)).drop k := by
  intro heq
  rw [masked_eq, masked_eq, List.drop_append_of_le_length (by rw [length_maskedFront]; exact hk),
    List.drop_append_of_le_length (by rw [length_maskedFront]; exact hk)] at heq
  have hlen : (a.maskedRole amClient).length = (a.maskedRole (!amClient)).length := by
    rw [length_maskedRole, length_maskedRole]
  exact a.maskedRole_ne amClient (List.append_inj_left (List.append_cancel_left heq) hlen)

/-- What the digests are computed from when the role `amClient` writes. -/
def inputsOf (a : KeyArgs) (amClient : Bool) : DigestInputs :=
  ⟨(a.masked amClient).drop 1, a.masked amClient, (a.masked amClient).drop 2⟩

/-- **`aes_create_keys` stays inside its array**: it writes with the digests of its own role,
and reads with those of the other one. -/
theorem createKeys_spec (digests : Digests) (hfam : a.SameFamily) (hkey : a.key.val ≠ [])
    (htemp : a.tempKey.length ≤ 256) (buf : KeyBuffer) :
    a.createKeys digests amClient buf =
      .ok (some (⟨(keyOf digests (a.inputsOf (!amClient))).1,
        (keyOf digests (a.inputsOf (!amClient))).2, (keyOf digests (a.inputsOf amClient)).1,
        (keyOf digests (a.inputsOf amClient)).2⟩, a.inputsOf amClient,
        a.inputsOf (!amClient))) := by
  have hlen : a.key.val.length ≠ 0 := fun h => hkey (List.length_eq_zero_iff.mp h)
  obtain ⟨s₁, e₁, h₁⟩ : ∃ str, a.fillText amClient buf.val =
      .ok (str, (a.text amClient).length) ∧ Filled str (a.text amClient) :=
    fillText_spec hfam buf
  obtain ⟨s₂, e₂, h₂⟩ : ∃ str', a.applyTempKey s₁ (a.text amClient).length =
      .ok (str', (a.masked amClient).length) ∧ Filled str' (a.masked amClient) :=
    applyTempKey_spec htemp h₁
  have hlen₂ : ∀ b, (a.masked b).length = (a.masked amClient).length := by
    intro b
    rw [masked_eq, masked_eq, List.length_append, List.length_append, List.length_append,
      List.length_append, length_maskedRole, length_maskedRole]
  have hlong : 42 ≤ (a.masked amClient).length := by
    rw [masked_eq, List.length_append, length_maskedFront]
    omega
  unfold createKeys
  rw [if_neg hlen, require_ok (a.key.property.resolve_left hlen), ok_bind, e₁, ok_bind]
  dsimp only
  rw [e₂, ok_bind]
  dsimp only
  rw [h₂.digestInputs (by omega), ok_bind]
  -- the role is turned around
  rw [masked_eq] at h₂
  obtain ⟨s₃, e₃, h₃⟩ := h₂.xor 42 roleMask a.length_maskedFront
    (by rw [length_maskedRole]; rfl)
  rw [flip_maskedRole, ← masked_eq] at h₃
  rw [e₃, ok_bind, ← hlen₂ (!amClient), h₃.digestInputs (by rw [hlen₂]; omega), ok_bind]
  -- the array is cleared
  have hroom : 0 + (List.replicate (a.masked (!amClient)).length (0 : UInt8)).length ≤ s₃.length := by
    rw [List.length_replicate, Nat.zero_add, h₃.size]
    exact h₃.length_le
  unfold storeSlice
  rw [require_ok hroom, ok_bind, pure_eq_ok, ok_bind]
  rfl

/-- Replacing the six bytes behind the first 42. -/
theorem flip_middle {front role role' mask back : List UInt8} (hfront : front.length = 42)
    (hrole : role.length = 6) (hrole' : role'.length = 6)
    (hmask : List.zipWith (· ^^^ ·) role mask = role') :
    memcpyAt (front ++ (role ++ back)) 42
      (List.zipWith (· ^^^ ·) (slice (front ++ (role ++ back)) 42 6) mask) =
      front ++ (role' ++ back) := by
  have hslice : slice (front ++ (role ++ back)) 42 6 = role := by
    unfold slice
    rw [List.drop_left' hfront, List.take_left' hrole]
  rw [hslice, hmask]
  unfold memcpyAt
  rw [hrole', ← List.drop_drop, List.take_left' hfront, List.drop_left' hfront,
    List.drop_left' hrole, List.append_assoc]

/-- The keys are those that `aesCreateKeys` makes of byte strings. -/
theorem createKeys_refines (digests : Digests) (hfam : a.SameFamily) (hkey : a.key.val ≠ [])
    (htemp : a.tempKey.length ≤ 256) (buf : KeyBuffer) :
    (a.createKeys digests amClient buf).map (Option.map Prod.fst) =
      aesCreateKeys digests amClient a.nonceServer a.nonceClient a.clientTimestamp a.serverIp
        a.serverPort a.serverIpv6 a.clientIp a.clientPort a.clientIpv6 a.key a.tempKey := by
  have hlen : a.key.val.length ≠ 0 := fun h => hkey (List.length_eq_zero_iff.mp h)
  have hips : if a.serverIp = 0 then a.clientIp = 0 else a.clientIp ≠ 0 := by
    split_ifs with hip
    · exact hfam.mp hip
    · exact fun hc => hip (hfam.mpr hc)
  have htext : mixTempKey (a.nonceServer ++ a.nonceClient ++ intBytes a.clientTimestamp ++
      leBytes 4 a.serverIp ++ leBytes 2 a.clientPort ++ roleText amClient ++
      leBytes 4 a.clientIp ++ leBytes 2 a.serverPort ++ a.key.val ++ a.nonceServer ++
      (if a.serverIp = 0 then a.clientIpv6 ++ a.serverIpv6 else []) ++ a.nonceClient) a.tempKey =
      a.masked amClient := by
    simp [masked, text, front, back]
  have hflip : flipRole (a.masked amClient) = a.masked (!amClient) := by
    have hmask : List.zipWith (· ^^^ ·) (a.maskedRole amClient)
        (List.zipWith (· ^^^ ·) (roleText true) (roleText false)) = a.maskedRole (!amClient) :=
      a.flip_maskedRole amClient
    unfold flipRole
    rw [masked_eq, masked_eq]
    exact flip_middle a.length_maskedFront (a.length_maskedRole amClient)
      (a.length_maskedRole (!amClient)) hmask
  rw [createKeys_spec digests hfam hkey htemp buf]
  unfold aesCreateKeys
  rw [if_neg hlen, require_ok (a.key.property.resolve_left hlen), ok_bind, require_ok hips, ok_bind]
  dsimp only
  rw [htext, hflip]
  rfl

/-! ## Symmetry -/

/-- The digests of two directions are computed from different bytes. -/
structure DigestInputs.Differ (i j : DigestInputs) : Prop where
  md5Key : i.md5Key ≠ j.md5Key
  sha1Key : i.sha1Key ≠ j.sha1Key
  md5Iv : i.md5Iv ≠ j.md5Iv

/-- **The two ends of a connection get matching keys**: no access leaves the array, what one
end writes with is what the other end reads with, and the keys are made of digests that are
computed from different bytes in the two directions. -/
theorem createKeys_symmetric (digests : Digests) (a : KeyArgs) (hfam : a.SameFamily)
    (hkey : 32 ≤ a.key.val.length ∧ a.key.val.length ≤ 256) (htemp : a.tempKey.length ≤ 256)
    (clientBuf serverBuf : KeyBuffer) :
    ∃ client clientWrite clientRead server serverWrite serverRead,
      a.createKeys digests true clientBuf = .ok (some (client, clientWrite, clientRead)) ∧
      a.createKeys digests false serverBuf = .ok (some (server, serverWrite, serverRead)) ∧
      client.writeKey = server.readKey ∧ client.writeIv = server.readIv ∧
      client.readKey = server.writeKey ∧ client.readIv = server.writeIv ∧
      (client.writeKey, client.writeIv) = keyOf digests clientWrite ∧
      (client.readKey, client.readIv) = keyOf digests clientRead ∧
      (server.writeKey, server.writeIv) = keyOf digests serverWrite ∧
      (server.readKey, server.readIv) = keyOf digests serverRead ∧
      DigestInputs.Differ clientWrite clientRead ∧
      DigestInputs.Differ serverWrite serverRead := by
  have hne : a.key.val ≠ [] := by
    intro hnil
    rw [hnil] at hkey
    exact absurd hkey.1 (by decide)
  have hdiffer : ∀ amClient, DigestInputs.Differ (a.inputsOf amClient) (a.inputsOf (!amClient)) := by
    intro amClient
    refine ⟨a.drop_masked_ne amClient (by decide), ?_, a.drop_masked_ne amClient (by decide)⟩
    exact a.drop_masked_ne amClient (k := 0) (by decide)
  exact ⟨_, _, _, _, _, _, createKeys_spec digests hfam hne htemp clientBuf,
    createKeys_spec digests hfam hne htemp serverBuf, rfl, rfl, rfl, rfl, rfl, rfl, rfl, rfl,
    hdiffer true, hdiffer false⟩

/-- Two ends with IPv4 addresses, a secret of the least length and a short temporary key. -/
def sample : KeyArgs where
  nonceServer := List.replicate 16 1
  nonceClient := List.replicate 16 2
  clientTimestamp := 3
  serverIp := 4
  serverPort := 5
  serverIpv6 := List.replicate 16 0
  clientIp := 6
  clientPort := 7
  clientIpv6 := List.replicate 16 0
  key := ⟨List.replicate 32 8, by decide⟩
  tempKey := [9, 10]
  length_nonceServer := rfl
  length_nonceClient := rfl
  length_serverIpv6 := rfl
  length_clientIpv6 := rfl

/-- Digests that give back bytes about the role. -/
def sampleDigests : Digests := ⟨fun s => (s.drop 40).take 16, fun s => (s.drop 40).take 20⟩

theorem createKeys_symmetric_sample :
    ∃ client clientWrite clientRead server serverWrite serverRead,
      sample.createKeys sampleDigests true ⟨List.replicate 634 0, by decide +kernel⟩
        = .ok (some (client, clientWrite, clientRead)) ∧
      sample.createKeys sampleDigests false ⟨List.replicate 634 1, by decide +kernel⟩
        = .ok (some (server, serverWrite, serverRead)) ∧
      client.writeKey = server.readKey ∧ client.writeIv = server.readIv ∧
      client.readKey = server.writeKey ∧ client.readIv = server.writeIv ∧
      (client.writeKey, client.writeIv) = keyOf sampleDigests clientWrite ∧
      (client.readKey, client.readIv) = keyOf sampleDigests clientRead ∧
      (server.writeKey, server.writeIv) = keyOf sampleDigests serverWrite ∧
      (server.readKey, server.readIv) = keyOf sampleDigests serverRead ∧
      DigestInputs.Differ clientWrite clientRead ∧ DigestInputs.Differ serverWrite serverRead :=
  createKeys_symmetric sampleDigests sample (by unfold SameFamily; decide) (by decide) (by decide)
    _ _

theorem createKeys_refines_sample :
    (sample.createKeys ⟨List.take 16, List.take 20⟩ true ⟨List.replicate 634 0, by decide +kernel⟩
      ).map (Option.map Prod.fst) = aesCreateKeys ⟨List.take 16, List.take 20⟩ true
        (List.replicate 16 1) (List.replicate 16 2) 3 4 5 sample.serverIpv6 6 7 sample.clientIpv6
        sample.key [9, 10] :=
  createKeys_refines _ (by unfold SameFamily; decide) (by decide) (by decide) _

end KeyArgs

end MtprotoProxy
