/-
# Probing the cover domains

`check_response`, `update_domain_info` and `tcp_rpc_init_proxy_domains` of
`net/net-tcp-rpc-ext-server.c`: twenty ServerHellos of a domain are read, and what they look
like is summed up in its `struct domain_info`, which the fake ServerHello is built from.

The size of the encrypted part goes through a `short` and gets a random jitter.
`SizeInRange` says which observations survive this, and exactly for these the fake ServerHello
is one that `check_response` takes (`serverHello_accepted_iff`).
-/
import MtprotoProxy.ClientHello

namespace MtprotoProxy

open CLib

/-! ## `check_response` -/

/-- The random of a HelloRetryRequest. -/
def helloRetryRequest : Bytes :=
  [0xcf, 0x21, 0xad, 0x74, 0xe5, 0x9a, 0x61, 0x11, 0xbe, 0x1d, 0x8c, 0x02, 0x1e, 0x65, 0xb8, 0x91,
    0xc2, 0xa2, 0x11, 0x16, 0x7a, 0xbb, 0x8c, 0x5e, 0x07, 0x9e, 0x09, 0xe2, 0xc8, 0xa8, 0x33, 0x9c]

/-- The loop over the extensions, with `pos`, `sum` and `*is_reversed_extension_order`; a round
moves `pos` by at least four bytes. -/
def extensionLoop (response : Bytes) (serverHelloLength : ℕ) :
    ℕ → ℕ → ℕ → ℤ → Option (ℕ × ℕ × ℤ)
  | 0, pos, sum, reversed => some (pos, sum, reversed)
  | fuel + 1, pos, sum, reversed =>
    if pos + 4 < 5 + serverHelloLength then
      let extensionId := readLength response pos
      if extensionId ≠ 0x33 ∧ extensionId ≠ 0x2b then none
      else
        let reversed' := if pos + 2 = 83 then if extensionId = 0x2b then 1 else 0 else reversed
        let extensionLength := readLength response (pos + 2)
        if 5 + serverHelloLength < pos + 4 + extensionLength then none
        else if extensionLength ≠ (if extensionId = 0x33 then 36 else 2) then none
        else extensionLoop response serverHelloLength fuel (pos + 4 + extensionLength)
          (sum + extensionId) reversed'
    else some (pos, sum, reversed)

/-- The part of `check_response` after the extensions, which end at `pos`. -/
def checkRecords (response : Bytes) (len pos : ℕ) : Option ℕ :=
  if len < pos + 9 then none
  else if slice response pos 6 ≠ [0x14, 0x03, 0x03, 0x00, 0x01, 0x01] then none
  else if slice response (pos + 6) 3 ≠ [0x17, 0x03, 0x03] then none
  else if len < pos + 11 then none
  else
    let applicationDataLength := readLength response (pos + 9)
    if applicationDataLength = 0 then none
    else if len < pos + 11 + applicationDataLength then none
    else if pos + 11 + applicationDataLength ≠ len then none
    else some applicationDataLength

/-- `check_response`: `*is_reversed_extension_order` and `*encrypted_application_data_length`
when it returns `1`. -/
def checkResponse (response : Bytes) (len : ℕ) (requestSessionId : Bytes) : Option (ℤ × ℕ) :=
  if len < 3 then none
  else if slice response 0 3 ≠ [0x16, 0x03, 0x03] then none
  else if len < 5 then none
  else
    let serverHelloLength := readLength response 3
    if serverHelloLength ≤ 39 then none
    else if len < 5 + serverHelloLength then none
    else if slice response 5 2 ≠ [0x02, 0x00] then none
    else if slice response 9 2 ≠ [0x03, 0x03] then none
    else if slice response 11 32 = helloRetryRequest then none
    else if byteAt response 43 = 0 then none
    else if slice response 43 1 ≠ [0x20] then none
    else if serverHelloLength ≤ 75 then none
    else if slice response 44 32 ≠ requestSessionId then none
    else if slice response 76 3 ≠ [0x13, 0x01, 0x00] then none
    else if readLength response 79 + 76 ≠ serverHelloLength then none
    else
      match extensionLoop response serverHelloLength serverHelloLength 81 0 (-1) with
      | none => none
      | some (pos, sum, reversed) =>
        if sum ≠ 0x33 + 0x2b then none
        else if pos ≠ 5 + serverHelloLength then none
        else (checkRecords response len pos).map (fun n => (reversed, n))

/-! ## `update_domain_info` -/

/-- The address of a host: `h_addr` with `h_addrtype`. -/
inductive HostAddr where
  | inet (addr : UInt32)
  | inet6 (addr : Bytes)

/-- The address is put down in the domain. -/
def HostAddr.put : HostAddr → DomainInfo → DomainInfo
  | .inet addr, info => { info with target := addr, targetIpv6 := List.replicate 16 0 }
  | .inet6 addr, info => { info with target := 0, targetIpv6 := addr }

/-- What is read from one socket on which these bytes come: the response, whose length is found
in two steps. -/
def upstreamResponse (stream : Bytes) : Option Bytes :=
  if stream.length < 5 then none
  else if stream.take 3 ≠ [0x16, 0x03, 0x03] then none
  else
    let headLen := 5 + readLength stream 3 + 6 + 5
    if stream.length < headLen then none
    else if slice stream (headLen - 11) 9 ≠ [0x14, 0x03, 0x03, 0x00, 0x01, 0x01, 0x17, 0x03, 0x03]
      then none
    else
      let responseLen := headLen + readLength stream (headLen - 2)
      if stream.length < responseLen then none else some (stream.take responseLen)

/-- The variables of `update_domain_info` that sum up the responses. -/
structure Observed where
  finishedCount : ℕ
  isReversedMin : ℤ
  isReversedMax : ℤ
  lengthMin : ℕ
  lengthMax : ℕ
  lengthSum : ℕ

/-- The variables before the first response. -/
def Observed.start : Observed := ⟨0, 0, 0, 0, 0, 0⟩

/-- One response that `check_response` has taken. -/
def Observed.add (o : Observed) (reversed : ℤ) (length : ℕ) : Observed :=
  if o.finishedCount = 0 then ⟨1, reversed, reversed, length, length, o.lengthSum + length⟩
  else ⟨o.finishedCount + 1, min o.isReversedMin reversed, max o.isReversedMax reversed,
    min o.lengthMin length, max o.lengthMax length, o.lengthSum + length⟩

/-- The sockets in the order in which they are finished, each with the session id of its request
and the bytes that come; `none` is `have_error`. -/
def observe : List (Bytes × Bytes) → Observed → Option Observed
  | [], o => some o
  | (sessionId, stream) :: tries, o => do
    let response ← upstreamResponse stream
    let (reversed, length) ← checkResponse response response.length sessionId
    observe tries (o.add reversed length)

/-- `TRIES`. -/
def tries : ℕ := 20

/-- What a `short` holds after an assignment. -/
def wrap16 (x : ℤ) : ℤ := Int.bmod x (2 ^ 16)

/-- `(int)(sum * 1.0 / TRIES + 0.5)`: twentieths are far enough apart for a `double`. -/
def roundedMean (sum : ℕ) : ℕ := (sum + tries / 2) / tries

/-- The part of `update_domain_info` that sets the fields. -/
def Observed.put (o : Observed) (info : DomainInfo) : DomainInfo :=
  let info' := { info with isReversedExtensionOrder := o.isReversedMin ≠ 0 }
  if o.lengthMin = o.lengthMax then
    { info' with serverHelloEncryptedSize := wrap16 o.lengthMin, useRandomEncryptedSize := false }
  else if o.lengthMax - o.lengthMin ≤ 3 then
    { info' with
      serverHelloEncryptedSize := wrap16 (o.lengthMax - 1 : ℤ)
      useRandomEncryptedSize := true }
  else
    { info' with
      serverHelloEncryptedSize := wrap16 (roundedMean o.lengthSum)
      useRandomEncryptedSize := true }

/-- `update_domain_info`: the value it returns, and the domain. -/
def updateDomainInfo (host : Option HostAddr) (streams : List (Bytes × Bytes))
    (info : DomainInfo) : Bool × DomainInfo :=
  match host with
  | none => (false, info)
  | some addr =>
    let info' := addr.put info
    match observe streams .start with
    | none => (false, info')
    | some o => if o.finishedCount ≠ tries then (false, info') else (true, o.put info')

/-- `tcp_rpc_init_proxy_domains`, for one domain. -/
def initProxyDomain (host : Option HostAddr) (streams : List (Bytes × Bytes)) (rand : ℕ)
    (info : DomainInfo) : DomainInfo :=
  let (updated, info') := updateDomainInfo host streams info
  if updated then info'
  else
    { info' with
      isReversedExtensionOrder := false
      useRandomEncryptedSize := true
      serverHelloEncryptedSize := wrap16 (2500 + (rand % 1120 : ℕ)) }

/-! ## What `check_response` takes -/

theorem readLength_lt (bs : Bytes) (pos : ℕ) : readLength bs pos < 2 ^ 16 := by
  have hhi := (byteAt bs pos).toNat_lt
  have hlo := (byteAt bs (pos + 1)).toNat_lt
  unfold readLength
  omega

theorem checkRecords_pos {response : Bytes} {len pos n : ℕ}
    (h : checkRecords response len pos = some n) : 1 ≤ n ∧ n < 2 ^ 16 := by
  unfold checkRecords at h
  simp only [Option.ite_none_left_eq_some, Option.some.injEq] at h
  obtain ⟨-, -, -, -, hne, -, -, rfl⟩ := h
  exact ⟨Nat.one_le_iff_ne_zero.mpr hne, readLength_lt response (pos + 9)⟩

/-- The order of the extensions is known as soon as one of them has been read. -/
theorem extensionLoop_reversed (response : Bytes) (n : ℕ) :
    ∀ {fuel pos sum pos' sum' : ℕ} {reversed reversed' : ℤ},
      extensionLoop response n fuel pos sum reversed = some (pos', sum', reversed') →
      (pos = 81 ∧ sum = 0) ∨ reversed = 0 ∨ reversed = 1 →
      sum' = 0 ∨ reversed' = 0 ∨ reversed' = 1 := by
  intro fuel
  induction fuel with
  | zero =>
    intro pos sum pos' sum' reversed reversed' h hstart
    cases h
    omega
  | succ fuel ih =>
    intro pos sum pos' sum' reversed reversed' h hstart
    rw [extensionLoop] at h
    split at h
    · simp only [Option.ite_none_left_eq_some] at h
      obtain ⟨-, -, -, h⟩ := h
      refine ih h (Or.inr ?_)
      by_cases hfirst : pos + 2 = 83
      · rw [if_pos hfirst]
        split
        · exact Or.inr rfl
        · exact Or.inl rfl
      · rw [if_neg hfirst]
        exact hstart.resolve_left (by omega)
    · cases h
      omega

/-- What `check_response` reports: an order of the extensions, and a length from `1` to
`65535`.  So the assertions of `update_domain_info` about its results hold. -/
theorem checkResponse_reports {response sessionId : Bytes} {len n : ℕ} {reversed : ℤ}
    (h : checkResponse response len sessionId = some (reversed, n)) :
    (reversed = 0 ∨ reversed = 1) ∧ 1 ≤ n ∧ n < 2 ^ 16 := by
  unfold checkResponse at h
  simp only [Option.ite_none_left_eq_some] at h
  obtain ⟨-, -, -, -, -, -, -, -, -, -, -, -, -, -, h⟩ := h
  cases hloop : extensionLoop response (readLength response 3) (readLength response 3) 81 0 (-1) with
  | none =>
    rw [hloop] at h
    exact absurd h (by simp)
  | some r =>
    obtain ⟨pos, sum, rev⟩ := r
    rw [hloop] at h
    simp only [Option.ite_none_left_eq_some] at h
    obtain ⟨hsum, -, h⟩ := h
    obtain ⟨n', hn, heq⟩ := Option.map_eq_some_iff.mp h
    cases heq
    have hrev := extensionLoop_reversed response _ hloop (Or.inl ⟨rfl, rfl⟩)
    exact ⟨hrev.resolve_left (by omega), checkRecords_pos hn⟩

/-! ## The bytes of the fake ServerHello -/

theorem slice_append_left {a b : Bytes} {i n : ℕ} (h : i + n ≤ a.length) :
    slice (a ++ b) i n = slice a i n := by
  unfold slice
  rw [List.drop_append_of_le_length (by omega),
    List.take_append_of_le_length (by rw [List.length_drop]; omega)]

theorem slice_append_right {a b : Bytes} {i n : ℕ} (h : a.length ≤ i) :
    slice (a ++ b) i n = slice b (i - a.length) n := by
  unfold slice
  rw [List.drop_append, List.drop_eq_nil_of_le h, List.nil_append]

theorem byteAt_append_left {a b : Bytes} {i : ℕ} (h : i < a.length) :
    byteAt (a ++ b) i = byteAt a i := by
  unfold byteAt
  exact List.getD_append _ _ _ _ h

theorem byteAt_append_right {a b : Bytes} {i : ℕ} (h : a.length ≤ i) :
    byteAt (a ++ b) i = byteAt b (i - a.length) := by
  unfold byteAt
  exact List.getD_append_right _ _ _ _ h

theorem readLength_append_left {a b : Bytes} {i : ℕ} (h : i + 1 < a.length) :
    readLength (a ++ b) i = readLength a i := by
  unfold readLength
  rw [byteAt_append_left (by omega), byteAt_append_left h]

theorem readLength_append_right {a b : Bytes} {i : ℕ} (h : a.length ≤ i) :
    readLength (a ++ b) i = readLength b (i - a.length) := by
  unfold readLength
  rw [byteAt_append_right h, byteAt_append_right (by omega), show i + 1 - a.length = i - a.length + 1 by omega]

/-- A ServerHello up to the session id. -/
def helloFront (random sessionId : Bytes) : Bytes :=
  [0x16, 0x03, 0x03, 0x00, 0x7a, 0x02, 0x00, 0x00, 0x76, 0x03, 0x03]
    ++ (random ++ ([0x20] ++ sessionId))

/-- The rest of it, with the dummy records. -/
def helloBack (extensions data : Bytes) (size : ℕ) : Bytes :=
  [0x13, 0x01, 0x00, 0x00, 0x2e] ++ (extensions ++
    ([0x14, 0x03, 0x03, 0x00, 0x01, 0x01, 0x17, 0x03, 0x03] ++
      ([UInt8.ofNat (size / 256), UInt8.ofNat (size % 256)] ++ data)))

section Layout

variable {random sessionId extensions : Bytes} (data : Bytes) (size : ℕ)

theorem length_helloFront (hrandom : random.length = 32) (hsession : sessionId.length = 32) :
    (helloFront random sessionId).length = 76 := by
  simp [helloFront, hrandom, hsession]

theorem length_helloBack (hext : extensions.length = 46) :
    (helloBack extensions data size).length = 62 + data.length := by
  simp only [helloBack, List.length_append, List.length_cons, List.length_nil, hext]
  omega

/-- The fields up to the session id. -/
theorem helloFront_fields (hrandom : random.length = 32) (hsession : sessionId.length = 32) :
    slice (helloFront random sessionId) 0 3 = [0x16, 0x03, 0x03] ∧
      readLength (helloFront random sessionId) 3 = 122 ∧
      slice (helloFront random sessionId) 5 2 = [0x02, 0x00] ∧
      slice (helloFront random sessionId) 9 2 = [0x03, 0x03] ∧
      slice (helloFront random sessionId) 11 32 = random ∧
      byteAt (helloFront random sessionId) 43 = 0x20 ∧
      slice (helloFront random sessionId) 43 1 = [0x20] ∧
      slice (helloFront random sessionId) 44 32 = sessionId := by
  have hall : ∀ {bs : Bytes}, bs.length = 32 → slice bs 0 32 = bs := by
    intro bs h
    unfold slice
    rw [List.drop_zero, List.take_of_length_le (by omega)]
  have hhead : ∀ {i n : ℕ}, i + n ≤ 11 → slice (helloFront random sessionId) i n
      = slice [0x16, 0x03, 0x03, 0x00, 0x7a, 0x02, 0x00, 0x00, 0x76, 0x03, 0x03] i n := by
    intro i n h
    exact slice_append_left h
  refine ⟨hhead (by omega), readLength_append_left (by simp), hhead (by omega), hhead (by omega),
    ?_, ?_, ?_, ?_⟩
  · rw [helloFront, slice_append_right (by simp), slice_append_left (by simp [hrandom])]
    exact hall hrandom
  · rw [helloFront, byteAt_append_right (by simp), byteAt_append_right (by simp [hrandom])]
    simp [hrandom, byteAt]
  · rw [helloFront, slice_append_right (by simp), slice_append_right (by simp [hrandom]),
      slice_append_left (by simp [hrandom])]
    simp [hrandom, slice]
  · rw [helloFront, slice_append_right (by simp), slice_append_right (by simp [hrandom]),
      slice_append_right (by simp [hrandom])]
    simp only [List.length_cons, List.length_nil, hrandom]
    exact hall hsession

/-- The cipher suite and the extensions. -/
theorem helloBack_extensions (hext : extensions.length = 46) :
    slice (helloBack extensions data size) 0 3 = [0x13, 0x01, 0x00] ∧
      readLength (helloBack extensions data size) 3 = 46 ∧
      ∀ i, i + 1 < 46 →
        readLength (helloBack extensions data size) (5 + i) = readLength extensions i := by
  refine ⟨slice_append_left (by simp), readLength_append_left (by simp), fun i hi => ?_⟩
  rw [helloBack, readLength_append_right (by simp), readLength_append_left]
  · simp
  · simp only [List.length_cons, List.length_nil]
    omega

/-- The records behind the extensions. -/
theorem helloBack_records (hext : extensions.length = 46) (hsize : size < 2 ^ 16) :
    slice (helloBack extensions data size) 51 6 = [0x14, 0x03, 0x03, 0x00, 0x01, 0x01] ∧
      slice (helloBack extensions data size) 57 3 = [0x17, 0x03, 0x03] ∧
      readLength (helloBack extensions data size) 60 = size := by
  have hhi : (UInt8.ofNat (size / 256)).toNat = size / 256 := by
    rw [UInt8.toNat_ofNat']
    omega
  have hlo : (UInt8.ofNat (size % 256)).toNat = size % 256 := by
    rw [UInt8.toNat_ofNat']
    omega
  refine ⟨?_, ?_, ?_⟩
  · rw [helloBack, slice_append_right (by simp), slice_append_right (by simp [hext]),
      slice_append_left (by simp [hext])]
    simp [hext, slice]
  · rw [helloBack, slice_append_right (by simp), slice_append_right (by simp [hext]),
      slice_append_left (by simp [hext])]
    simp [hext, slice]
  · rw [helloBack, readLength_append_right (by simp), readLength_append_right (by simp [hext]),
      readLength_append_right (by simp [hext]), readLength_append_left (by simp [hext])]
    simp only [List.length_cons, List.length_nil, hext]
    show (UInt8.ofNat (size / 256)).toNat * 256 + (UInt8.ofNat (size % 256)).toNat = size
    omega

/-- **A response in this layout** passes all checks but the one for a HelloRetryRequest, when
its two extensions do. -/
theorem checkResponse_hello {reversed : ℤ} (hrandom : random.length = 32)
    (hsession : sessionId.length = 32) (hext : extensions.length = 46)
    (hdata : data.length = size) (hpos : 1 ≤ size) (hsize : size < 2 ^ 16)
    (hloop : extensionLoop (helloFront random sessionId ++ helloBack extensions data size) 122 122
      81 0 (-1) = some (127, 94, reversed)) :
    checkResponse (helloFront random sessionId ++ helloBack extensions data size) (138 + size)
        sessionId
      = if random = helloRetryRequest then none else some (reversed, size) := by
  have hfront := length_helloFront hrandom hsession
  have hback := length_helloBack data size hext
  obtain ⟨h0, h3, h5, h9, h11, h43, h43', h44⟩ := helloFront_fields hrandom hsession
  obtain ⟨hsuite, hextLen, -⟩ := helloBack_extensions data size hext
  obtain ⟨hccs, happ, hlen⟩ := helloBack_records data size hext hsize
  -- positions up to 76 are in the front, the others in the back
  have back : ∀ {i n : ℕ}, slice (helloFront random sessionId ++ helloBack extensions data size)
      (76 + i) n = slice (helloBack extensions data size) i n := by
    intro i n
    rw [slice_append_right (by omega), hfront, Nat.add_sub_cancel_left]
  have backLength : ∀ {i : ℕ},
      readLength (helloFront random sessionId ++ helloBack extensions data size) (76 + i)
        = readLength (helloBack extensions data size) i := by
    intro i
    rw [readLength_append_right (by omega), hfront, Nat.add_sub_cancel_left]
  have hrecords : checkRecords (helloFront random sessionId ++ helloBack extensions data size)
      (138 + size) 127 = some size := by
    unfold checkRecords
    rw [if_neg (by omega), show 127 = 76 + 51 from rfl, back, hccs, if_neg (by simp),
      show 76 + 51 + 6 = 76 + 57 from rfl, back, happ, if_neg (by simp), if_neg (by omega),
      show 76 + 51 + 9 = 76 + 60 from rfl, backLength, hlen]
    dsimp only
    rw [if_neg (by omega), if_neg (by omega), if_neg (by omega)]
  unfold checkResponse
  rw [if_neg (by omega), slice_append_left (by omega), h0, if_neg (by simp), if_neg (by omega),
    readLength_append_left (by omega), h3]
  dsimp only
  rw [if_neg (by omega), if_neg (by omega), slice_append_left (by omega), h5, if_neg (by simp),
    slice_append_left (by omega), h9, if_neg (by simp), slice_append_left (by omega), h11]
  by_cases hretry : random = helloRetryRequest
  · rw [if_pos hretry, if_pos hretry]
  · rw [if_neg hretry, if_neg hretry, byteAt_append_left (by omega), h43, if_neg (by decide),
      slice_append_left (by omega), h43', if_neg (by simp), if_neg (by omega),
      slice_append_left (by omega), h44, if_neg (by simp), show 76 = 76 + 0 from rfl, back, hsuite,
      if_neg (by simp), show 79 = 76 + 3 from rfl, backLength, hextLen, if_neg (by omega), hloop]
    dsimp only
    rw [if_neg (by omega), if_neg (by omega), hrecords]
    rfl

/-- **The two extensions** pass the loop, in both orders. -/
theorem extensionLoop_hello (r : ServerRandomness) (info : DomainInfo)
    (hrandom : random.length = 32) (hsession : sessionId.length = 32) :
    (serverExtensions r info).length = 46 ∧
      extensionLoop
          (helloFront random sessionId ++ helloBack (serverExtensions r info) data size) 122 122
          81 0 (-1)
        = some (127, 94, if info.isReversedExtensionOrder then 1 else 0) := by
  have hkey : (keyShareExtension r).length = 40 := by simp [keyShareExtension, r.publicKey.2]
  have hversions : supportedVersionsExtension.length = 6 := rfl
  have hlen : (serverExtensions r info).length = 46 := by
    unfold serverExtensions
    split <;> simp [hkey, hversions]
  have hfront := length_helloFront hrandom hsession
  obtain ⟨-, -, hread⟩ := helloBack_extensions data size hlen
  set response := helloFront random sessionId ++ helloBack (serverExtensions r info) data size
  have hat : ∀ i, i + 1 < 46 →
      readLength response (81 + i) = readLength (serverExtensions r info) i := by
    intro i hi
    rw [readLength_append_right (by omega), hfront, show 81 + i - 76 = 5 + i by omega, hread i hi]
  -- one round at an extension with this id and length
  have round : ∀ {fuel pos sum extensionId extensionLength : ℕ} {reversed : ℤ},
      pos + 4 < 127 → readLength response pos = extensionId →
      readLength response (pos + 2) = extensionLength → extensionId = 0x33 ∨ extensionId = 0x2b →
      extensionLength = (if extensionId = 0x33 then 36 else 2) → pos + 4 + extensionLength ≤ 127 →
      extensionLoop response 122 (fuel + 1) pos sum reversed
        = extensionLoop response 122 fuel (pos + 4 + extensionLength) (sum + extensionId)
            (if pos + 2 = 83 then if extensionId = 0x2b then 1 else 0 else reversed) := by
    intro fuel pos sum extensionId extensionLength reversed hpos hid hlength hone hfits hroom
    rw [extensionLoop, if_pos hpos, hid, hlength]
    dsimp only
    rw [if_neg (by omega), if_neg (by omega), if_neg (not_not.mpr hfits)]
  have hdone : ∀ {fuel sum : ℕ} {reversed : ℤ},
      extensionLoop response 122 (fuel + 1) 127 sum reversed = some (127, sum, reversed) := by
    intro fuel sum reversed
    rw [extensionLoop, if_neg (by omega)]
  refine ⟨hlen, ?_⟩
  cases hrev : info.isReversedExtensionOrder with
  | true =>
    have hbytes : serverExtensions r info = supportedVersionsExtension ++ keyShareExtension r := by
      rw [serverExtensions, hrev, if_pos rfl]
    have h0 : readLength response 81 = 0x2b := by
      rw [hat 0 (by omega), hbytes, readLength_append_left (by decide)]
      rfl
    have h2 : readLength response (81 + 2) = 2 := by
      rw [hat 2 (by omega), hbytes, readLength_append_left (by decide)]
      rfl
    have h6 : readLength response (81 + 6) = 0x33 := by
      rw [hat 6 (by omega), hbytes, readLength_append_right (by decide), keyShareExtension,
        readLength_append_left (by decide)]
      rfl
    have h8 : readLength response (81 + 6 + 2) = 36 := by
      rw [Nat.add_assoc, hat (6 + 2) (by omega), hbytes, readLength_append_right (by decide),
        keyShareExtension, readLength_append_left (by decide)]
      rfl
    rw [show 122 = 121 + 1 from rfl, round (by omega) h0 h2 (Or.inr rfl) rfl (by omega)]
    rw [show 121 = 120 + 1 from rfl, round (by omega) h6 h8 (Or.inl rfl) rfl (by omega)]
    exact hdone
  | false =>
    have hbytes : serverExtensions r info = keyShareExtension r ++ supportedVersionsExtension := by
      rw [serverExtensions, hrev]
      rfl
    have h0 : readLength response 81 = 0x33 := by
      rw [hat 0 (by omega), hbytes, keyShareExtension, List.append_assoc,
        readLength_append_left (by decide)]
      rfl
    have h2 : readLength response (81 + 2) = 36 := by
      rw [hat 2 (by omega), hbytes, keyShareExtension, List.append_assoc,
        readLength_append_left (by decide)]
      rfl
    have h40 : readLength response (81 + 40) = 0x2b := by
      rw [hat 40 (by omega), hbytes, readLength_append_right (by omega), hkey]
      rfl
    have h42 : readLength response (81 + 40 + 2) = 2 := by
      rw [Nat.add_assoc, hat (40 + 2) (by omega), hbytes, readLength_append_right (by omega), hkey]
      rfl
    rw [show 122 = 121 + 1 from rfl, round (by omega) h0 h2 (Or.inl rfl) rfl (by omega)]
    rw [show 121 = 120 + 1 from rfl, round (by omega) h40 h42 (Or.inr rfl) rfl (by omega)]
    exact hdone

end Layout

theorem ofInt_natCast (n : ℕ) : UInt8.ofInt (n : ℤ) = UInt8.ofNat n := by
  apply UInt8.toNat_inj.mp
  rw [UInt8.ofInt, UInt8.toNat_ofNat', UInt8.toNat_ofNat']
  omega

/-- The response buffer is in this layout, when its size is one that two bytes can hold. -/
theorem responseBuffer_eq (r : ServerRandomness) (info : DomainInfo) (hello random : Bytes)
    {size : ℕ} (hsize : getDomainServerHelloEncryptedSize r info = size) :
    responseBuffer r info hello random 0x01 = helloFront random (slice hello 44 32)
      ++ helloBack (serverExtensions r info) ((List.range size).map r.randBytes) size := by
  have hhi : UInt8.ofInt ((size : ℤ).tdiv 256) = UInt8.ofNat (size / 256) := by
    rw [show ((size : ℤ).tdiv 256) = ((size / 256 : ℕ) : ℤ) from rfl]
    exact ofInt_natCast _
  have hlo : UInt8.ofInt ((size : ℤ).tmod 256) = UInt8.ofNat (size % 256) := by
    rw [show ((size : ℤ).tmod 256) = ((size % 256 : ℕ) : ℤ) from rfl]
    exact ofInt_natCast _
  unfold responseBuffer helloFront helloBack
  simp only [hsize, hhi, hlo, Int.toNat_natCast, List.append_assoc]

/-! ## The size -/

/-- The random jitter. -/
def jitter (rand : ℕ) : ℤ := ((rand >>> 1) &&& 1 : ℕ) - (rand &&& 1 : ℕ)

/-- The jitter is `-1`, `0` or `1`. -/
theorem jitter_cases (rand : ℕ) :
    -1 ≤ jitter rand ∧ jitter rand ≤ 1 ∧ (jitter rand = -1 ↔ rand % 4 = 1) := by
  have hhi : rand / 2 % 2 = rand % 4 / 2 := by omega
  have hlo : rand % 2 = rand % 4 % 2 := by omega
  have hlt : rand % 4 < 4 := Nat.mod_lt _ (by norm_num)
  unfold jitter
  rw [Nat.and_one_is_mod, Nat.and_one_is_mod, Nat.shiftRight_one, hhi, hlo]
  interval_cases rand % 4 <;> simp

/-- The least of some lengths. -/
def shortest (lengths : List ℕ) : ℕ := lengths.min?.getD 0

/-- The greatest of some lengths. -/
def longest (lengths : List ℕ) : ℕ := lengths.max?.getD 0

/-- The application-data lengths that `check_response` reports of the responses. -/
def dataLengths (streams : List (Bytes × Bytes)) : List ℕ :=
  streams.filterMap (fun s =>
    (upstreamResponse s.2).bind (fun response =>
      (checkResponse response response.length s.1).map (·.2)))

/-- The lengths, and the number that `rand` gives: what is made of the lengths fits a `short`,
and with the jitter it is not `0`. -/
def SizeInRange (lengths : List ℕ) (rand : ℕ) : Prop :=
  if shortest lengths = longest lengths then longest lengths < 2 ^ 15
  else if longest lengths - shortest lengths ≤ 3 then
    longest lengths ≤ 2 ^ 15 ∧ (3 ≤ longest lengths ∨ rand % 4 ≠ 1)
  else lengths.sum + 10 < 20 * 2 ^ 15 ∧ (30 ≤ lengths.sum ∨ rand % 4 ≠ 1)

/-- What the variables of `update_domain_info` hold after some responses. -/
structure Observes (o : Observed) (lengths : List ℕ) : Prop where
  count : o.finishedCount = lengths.length
  least : o.lengthMin = shortest lengths
  greatest : o.lengthMax = longest lengths
  sum : o.lengthSum = lengths.sum

theorem Observes.start : Observes .start [] := ⟨rfl, rfl, rfl, rfl⟩

/-- One more response. -/
theorem Observes.add {o : Observed} {lengths : List ℕ} (h : Observes o lengths) (reversed : ℤ)
    (n : ℕ) : Observes (o.add reversed n) (lengths ++ [n]) := by
  cases lengths with
  | nil =>
    have hzero : o.finishedCount = 0 := h.count
    have hsum : o.lengthSum = 0 := h.sum
    unfold Observed.add
    rw [if_pos hzero]
    exact ⟨rfl, rfl, rfl, by simp [hsum]⟩
  | cons m rest =>
    have hcount := h.count
    rw [List.length_cons] at hcount
    have hmin : shortest (m :: rest ++ [n]) = min (shortest (m :: rest)) n := by
      simp only [shortest, List.cons_append, List.min?_cons', Option.getD_some, List.foldl_append,
        List.foldl_cons, List.foldl_nil]
    have hmax : longest (m :: rest ++ [n]) = max (longest (m :: rest)) n := by
      simp only [longest, List.cons_append, List.max?_cons', Option.getD_some, List.foldl_append,
        List.foldl_cons, List.foldl_nil]
    unfold Observed.add
    rw [if_neg (by omega)]
    refine ⟨?_, ?_, ?_, ?_⟩
    · simp [hcount]
    · rw [hmin, h.least]
    · rw [hmax, h.greatest]
    · simp [h.sum, Nat.add_assoc]

/-- **All responses**: the variables hold what their lengths give. -/
theorem observe_observes :
    ∀ {streams : List (Bytes × Bytes)} {o o' : Observed} {lengths : List ℕ},
      Observes o lengths → observe streams o = some o' →
      Observes o' (lengths ++ dataLengths streams) ∧
        (dataLengths streams).length = streams.length ∧
        ∀ n ∈ dataLengths streams, 1 ≤ n ∧ n < 2 ^ 16 := by
  intro streams
  induction streams with
  | nil =>
    intro o o' lengths h hrun
    cases hrun
    refine ⟨?_, rfl, fun n hn => absurd hn List.not_mem_nil⟩
    rw [dataLengths, List.filterMap_nil, List.append_nil]
    exact h
  | cons s streams ih =>
    intro o o' lengths h hrun
    obtain ⟨sessionId, stream⟩ := s
    obtain ⟨response, hresponse, hrun⟩ := Option.bind_eq_some_iff.mp hrun
    obtain ⟨⟨reversed, n⟩, hcheck, hrun⟩ := Option.bind_eq_some_iff.mp hrun
    obtain ⟨hend, hlen, hall⟩ := ih (h.add reversed n) hrun
    have hcons : dataLengths ((sessionId, stream) :: streams) = n :: dataLengths streams := by
      unfold dataLengths
      rw [List.filterMap_cons_some]
      rw [hresponse, Option.bind_some, hcheck]
      rfl
    rw [hcons]
    refine ⟨?_, by rw [List.length_cons, List.length_cons, hlen], ?_⟩
    · rwa [List.append_assoc, List.singleton_append] at hend
    · rintro m hm
      rcases List.mem_cons.mp hm with rfl | hm
      · exact (checkResponse_reports hcheck).2
      · exact hall m hm

theorem wrap16_eq {x : ℤ} (hlo : 0 ≤ x) (hhi : x < 2 ^ 16) :
    wrap16 x = if x < 2 ^ 15 then x else x - 2 ^ 16 := by
  unfold wrap16
  rw [Int.bmod_def]
  norm_num
  split <;> split <;> omega

/-- **The size after the probe** is positive exactly when the lengths are in range. -/
theorem size_put_pos {o : Observed} {lengths : List ℕ} (h : Observes o lengths)
    (hcount : lengths.length = tries) (hrange : ∀ n ∈ lengths, 1 ≤ n ∧ n < 2 ^ 16)
    (r : ServerRandomness) (info : DomainInfo) :
    (1 ≤ getDomainServerHelloEncryptedSize r (o.put info) ↔ SizeInRange lengths r.rand) ∧
      getDomainServerHelloEncryptedSize r (o.put info) ≤ 2 ^ 15 := by
  obtain ⟨hlo, hhi, hdown⟩ := jitter_cases r.rand
  have hne : lengths ≠ [] := by
    rintro rfl
    exact absurd hcount (by decide)
  -- the bounds on the three numbers
  have hleast : 1 ≤ shortest lengths ∧ shortest lengths < 2 ^ 16 := by
    obtain ⟨m, hm⟩ := Option.isSome_iff_exists.mp (List.isSome_min?_of_ne_nil hne)
    rw [shortest, hm]
    exact hrange m (List.min?_mem hm)
  have hgreatest : longest lengths < 2 ^ 16 ∧ shortest lengths ≤ longest lengths := by
    obtain ⟨m, hm⟩ := Option.isSome_iff_exists.mp (List.isSome_max?_of_ne_nil hne)
    obtain ⟨l, hl⟩ := Option.isSome_iff_exists.mp (List.isSome_min?_of_ne_nil hne)
    rw [longest, hm, shortest, hl]
    exact ⟨(hrange m (List.max?_mem hm)).2,
      (List.le_max?_getD_of_mem (List.min?_mem hl)).trans (by rw [hm])⟩
  have hsum : 20 ≤ lengths.sum ∧ lengths.sum ≤ 20 * (2 ^ 16 - 1) := by
    have hlow := List.card_nsmul_le_sum lengths 1 (fun n hn => (hrange n hn).1)
    have hhigh := List.sum_le_card_nsmul lengths (2 ^ 16 - 1)
      (fun n hn => by have := (hrange n hn).2; omega)
    rw [hcount] at hlow hhigh
    simpa [tries] using And.intro hlow hhigh
  unfold SizeInRange Observed.put getDomainServerHelloEncryptedSize
  dsimp only
  rw [h.least, h.greatest, h.sum]
  by_cases hsame : shortest lengths = longest lengths
  · rw [if_pos hsame, if_pos hsame]
    dsimp only
    rw [if_neg (by decide), wrap16_eq (by omega) (by omega)]
    split <;> omega
  · rw [if_neg hsame, if_neg hsame]
    by_cases hclose : longest lengths - shortest lengths ≤ 3
    · rw [if_pos hclose, if_pos hclose]
      dsimp only
      rw [if_pos rfl, wrap16_eq (by omega) (by omega)]
      unfold jitter at hlo hhi hdown
      split <;> omega
    · rw [if_neg hclose, if_neg hclose]
      dsimp only
      have hmean : roundedMean lengths.sum = (lengths.sum + 10) / 20 := rfl
      rw [if_pos rfl, hmean, wrap16_eq (by omega) (by omega)]
      unfold jitter at hlo hhi hdown
      split <;> omega

/-- What `update_domain_info` makes of the domain, in terms of what it observed. -/
theorem updateDomainInfo_cases {host : Option HostAddr} {streams : List (Bytes × Bytes)}
    {info : DomainInfo} (h : (updateDomainInfo host streams info).1 = true) :
    ∃ o info', Observes o (dataLengths streams) ∧ (dataLengths streams).length = tries ∧
      (∀ n ∈ dataLengths streams, 1 ≤ n ∧ n < 2 ^ 16) ∧
      (updateDomainInfo host streams info).2 = o.put info' := by
  unfold updateDomainInfo at h ⊢
  cases host with
  | none => exact absurd h (by simp)
  | some addr =>
    dsimp only at h ⊢
    cases ho : observe streams .start with
    | none =>
      rw [ho] at h
      exact absurd h (by simp)
    | some o =>
      rw [ho] at h
      dsimp only at h ⊢
      by_cases hcount : o.finishedCount = tries
      · rw [if_neg (not_not.mpr hcount)]
        obtain ⟨hobs, -, hrange⟩ := observe_observes Observes.start ho
        rw [List.nil_append] at hobs
        exact ⟨o, addr.put info, hobs, hobs.count.symm.trans hcount, hrange, rfl⟩
      · rw [if_pos hcount] at h
        exact absurd h (by simp)

/-- **The size that a domain ends up with**, after a probe or with the fall-back. -/
theorem size_initProxyDomain (host : Option HostAddr) (streams : List (Bytes × Bytes))
    (rand : ℕ) (info : DomainInfo) (r : ServerRandomness) :
    (1 ≤ getDomainServerHelloEncryptedSize r (initProxyDomain host streams rand info) ↔
      ((updateDomainInfo host streams info).1 = true → SizeInRange (dataLengths streams) r.rand)) ∧
      getDomainServerHelloEncryptedSize r (initProxyDomain host streams rand info) ≤ 2 ^ 15 := by
  unfold initProxyDomain
  cases hupdate : (updateDomainInfo host streams info).1 with
  | true =>
    obtain ⟨o, info', hobs, hcount, hrange, hput⟩ := updateDomainInfo_cases hupdate
    obtain ⟨hpos, hle⟩ := size_put_pos hobs hcount hrange r info'
    simp only [hupdate, if_true, hput]
    exact ⟨hpos.trans ⟨fun h _ => h, fun h => h trivial⟩, hle⟩
  | false =>
    obtain ⟨hlo, hhi, -⟩ := jitter_cases r.rand
    have hrand : rand % 1120 < 1120 := Nat.mod_lt _ (by norm_num)
    have hwrap : wrap16 (2500 + (rand % 1120 : ℕ)) = 2500 + (rand % 1120 : ℕ) := by
      rw [wrap16_eq (by omega) (by omega), if_pos (by omega)]
    unfold jitter at hlo hhi
    simp only [hupdate, Bool.false_eq_true, if_false, getDomainServerHelloEncryptedSize, if_true,
      hwrap, false_imp_iff, iff_true]
    omega

/-! ## The fake ServerHello -/

/-- The random of the fake ServerHello for a ClientHello that was accepted under `secret`. -/
def serverRandomOf (hmac : Bytes → Bytes → Bytes) (r : ServerRandomness) (info : DomainInfo)
    (secret : Secret) (hello : Bytes) : Bytes :=
  hmac secret.val
    (clientRandomOf hello ++ responseBuffer r info hello (List.replicate 32 0) 0x01)

/-- The fake ServerHello can be built, its size is one that fits its two bytes, and
`check_response` takes it for the session id of the ClientHello, with the order of the
extensions and the size that it was built for. -/
def Emulated (hmac : Bytes → Bytes → Bytes) (r : ServerRandomness) (info : DomainInfo)
    (secret : Secret) (hello : Bytes) : Prop :=
  ∃ response, serverHello hmac r info secret hello 0x01 = some response ∧
    1 ≤ getDomainServerHelloEncryptedSize r info ∧
    getDomainServerHelloEncryptedSize r info ≤ 65535 ∧
    checkResponse response response.length (slice hello 44 32)
      = some (if info.isReversedExtensionOrder then 1 else 0,
          (getDomainServerHelloEncryptedSize r info).toNat)

/-- With a cipher suite, a ClientHello has a session id. -/
theorem length_of_cipherSuiteId {hello : Bytes} {suite : UInt8}
    (h : cipherSuiteId hello hello.length = some suite) : 78 ≤ hello.length := by
  unfold cipherSuiteId at h
  dsimp only at h
  split at h
  · exact absurd h (by simp)
  · omega

/-- **Building a ServerHello** of a size that fits. -/
theorem emulated_iff {hmac : Bytes → Bytes → Bytes} (hhmac : ∀ k m, (hmac k m).length = 32)
    (r : ServerRandomness) (info : DomainInfo) (secret : Secret) {hello : Bytes}
    (hsuite : cipherSuiteId hello hello.length = some 0x01)
    (hmax : getDomainServerHelloEncryptedSize r info ≤ 2 ^ 15) :
    Emulated hmac r info secret hello ↔
      1 ≤ getDomainServerHelloEncryptedSize r info ∧
        serverRandomOf hmac r info secret hello ≠ helloRetryRequest := by
  have hhello := length_of_cipherSuiteId hsuite
  by_cases hpos : 1 ≤ getDomainServerHelloEncryptedSize r info
  · obtain ⟨size, hsize⟩ := Int.eq_ofNat_of_zero_le (by omega : 0 ≤ getDomainServerHelloEncryptedSize r info)
    have hrandom : (serverRandomOf hmac r info secret hello).length = 32 := hhmac _ _
    have hsession : (slice hello 44 32).length = 32 := length_slice hello 44 32 (by omega)
    have hdata : ((List.range size).map r.randBytes).length = size := by simp
    obtain ⟨hext, hloop⟩ := extensionLoop_hello ((List.range size).map r.randBytes) size r info
      hrandom hsession
    have hcheck := checkResponse_hello _ _ hrandom hsession hext hdata (by omega) (by omega) hloop
    -- the bytes that are built
    have hbuild : serverHello hmac r info secret hello 0x01
        = some (helloFront (serverRandomOf hmac r info secret hello) (slice hello 44 32)
          ++ helloBack (serverExtensions r info) ((List.range size).map r.randBytes) size) := by
      unfold serverHello
      dsimp only
      rw [if_neg (by split <;> omega), ← responseBuffer_eq r info hello _ hsize]
      rfl
    have hlen : (helloFront (serverRandomOf hmac r info secret hello) (slice hello 44 32)
        ++ helloBack (serverExtensions r info) ((List.range size).map r.randBytes) size).length
          = 138 + size := by
      rw [List.length_append, length_helloFront hrandom hsession, length_helloBack _ _ hext, hdata]
      omega
    constructor
    · rintro ⟨response, hresponse, -, -, haccept⟩
      obtain rfl := Option.some.inj (hbuild.symm.trans hresponse)
      refine ⟨hpos, fun hretry => ?_⟩
      rw [hlen, hcheck, if_pos hretry] at haccept
      exact absurd haccept (by simp)
    · rintro ⟨-, hretry⟩
      refine ⟨_, hbuild, hpos, by omega, ?_⟩
      rw [hlen, hcheck, if_neg hretry, hsize]
      rfl
  · exact ⟨fun ⟨_, _, h, _⟩ => absurd h hpos, fun h => absurd h.1 hpos⟩

/-- **The fake ServerHello is one the proxy itself would take**, up to the exception: for every
domain after the start of the proxy, with any outcome of the random generators, and for every
ClientHello with this cipher suite, if and only if the lengths that were observed are in range,
and the random is not that of a HelloRetryRequest. -/
theorem serverHello_accepted_iff {hmac : Bytes → Bytes → Bytes}
    (hhmac : ∀ k m, (hmac k m).length = 32) (host : Option HostAddr)
    (streams : List (Bytes × Bytes)) (rand : ℕ) (info : DomainInfo) (r : ServerRandomness)
    (secret : Secret) {hello : Bytes} (hsuite : cipherSuiteId hello hello.length = some 0x01) :
    Emulated hmac r (initProxyDomain host streams rand info) secret hello ↔
      ((updateDomainInfo host streams info).1 = true →
          SizeInRange (dataLengths streams) r.rand) ∧
        serverRandomOf hmac r (initProxyDomain host streams rand info) secret hello
          ≠ helloRetryRequest := by
  obtain ⟨hpos, hmax⟩ := size_initProxyDomain host streams rand info r
  rw [← hpos]
  exact emulated_iff hhmac r _ secret hsuite hmax

/-! ## Probes of a well-behaved domain -/

/-- **A response in the layout is read in full.** -/
theorem upstreamResponse_hello {random sessionId extensions data : Bytes} {size : ℕ}
    (hrandom : random.length = 32) (hsession : sessionId.length = 32)
    (hext : extensions.length = 46) (hdata : data.length = size) (hsize : size < 2 ^ 16) :
    upstreamResponse (helloFront random sessionId ++ helloBack extensions data size)
      = some (helloFront random sessionId ++ helloBack extensions data size) := by
  have hfront := length_helloFront hrandom hsession
  have hback := length_helloBack data size hext
  obtain ⟨h0, h3, -⟩ := helloFront_fields hrandom hsession
  obtain ⟨hccs, happ, hlen⟩ := helloBack_records data size hext hsize
  set response := helloFront random sessionId ++ helloBack extensions data size with hresponse
  have hall : response.length = 138 + size := by
    rw [hresponse, List.length_append, hfront, hback, hdata]
    omega
  have htake : response.take 3 = [0x16, 0x03, 0x03] := by
    rw [hresponse, List.take_append_of_le_length (by omega)]
    exact h0
  have hread : readLength response 3 = 122 := by
    rw [hresponse, readLength_append_left (by omega), h3]
  have hrecords : slice response 127 9 = [0x14, 0x03, 0x03, 0x00, 0x01, 0x01, 0x17, 0x03, 0x03] := by
    have hsplit : slice response 127 9 = slice response 127 6 ++ slice response 133 3 := by
      unfold slice
      rw [show 9 = 6 + 3 from rfl, List.take_add, List.drop_drop]
    rw [hsplit, hresponse, slice_append_right (by omega), slice_append_right (by omega), hfront,
      hccs, happ]
    rfl
  have hend : readLength response 136 = size := by
    rw [hresponse, readLength_append_right (by omega), hfront, hlen]
  unfold upstreamResponse
  dsimp only
  rw [if_neg (by omega), if_neg (not_not.mpr htake), hread, if_neg (by omega),
    if_neg (not_not.mpr hrecords), hend, if_neg (by omega), List.take_of_length_le (by omega)]

/-- Sockets that all bring the same good response. -/
theorem observe_replicate {sessionId stream : Bytes} {reversed : ℤ} {n : ℕ}
    (hresponse : upstreamResponse stream = some stream)
    (hcheck : checkResponse stream stream.length sessionId = some (reversed, n)) (k : ℕ) :
    dataLengths (List.replicate k (sessionId, stream)) = List.replicate k n ∧
      ∀ o, ∃ o', observe (List.replicate k (sessionId, stream)) o = some o' := by
  induction k with
  | zero => exact ⟨rfl, fun o => ⟨o, rfl⟩⟩
  | succ k ih =>
    obtain ⟨hlengths, hobserve⟩ := ih
    constructor
    · rw [List.replicate_succ, List.replicate_succ, ← hlengths]
      unfold dataLengths
      rw [List.filterMap_cons_some]
      rw [hresponse, Option.bind_some, hcheck]
      rfl
    · intro o
      obtain ⟨o', ho'⟩ := hobserve (o.add reversed n)
      refine ⟨o', ?_⟩
      rw [List.replicate_succ, observe, hresponse]
      simp only [some_bind, hcheck]
      exact ho'

/-- Randomness in which nothing is random. -/
def ServerRandomness.zero : ServerRandomness := ⟨0, ⟨List.replicate 32 0, rfl⟩, fun _ => 0⟩

/-- A domain before the first probe. -/
def DomainInfo.fresh : DomainInfo := ⟨[0x61], 0, List.replicate 16 0, 0, false, false⟩

/-- A response with `size` bytes of application data. -/
def sampleResponse (size : ℕ) : Bytes :=
  helloFront (List.replicate 32 1) (List.replicate 32 2)
    ++ helloBack (serverExtensions .zero .fresh) (List.replicate size 0) size

/-- Twenty sockets with this response. -/
def sampleStreams (size : ℕ) : List (Bytes × Bytes) :=
  List.replicate tries (List.replicate 32 2, sampleResponse size)

/-- A ClientHello with the cipher suite `0x1301`. -/
def sampleSuiteHello : Bytes := List.replicate 77 0 ++ [2, 0x13, 0x01]

/-- An HMAC. -/
def sampleHmac : Bytes → Bytes → Bytes := fun _ _ => List.replicate 32 7

/-- **The probe of such a domain** succeeds. -/
theorem sampleStreams_spec (size : ℕ) (hpos : 1 ≤ size) (hsize : size < 2 ^ 16) :
    (updateDomainInfo (some (.inet 1)) (sampleStreams size) .fresh).1 = true ∧
      dataLengths (sampleStreams size) = List.replicate tries size := by
  have hrandom : (List.replicate 32 (1 : UInt8)).length = 32 := List.length_replicate
  have hsession : (List.replicate 32 (2 : UInt8)).length = 32 := List.length_replicate
  have hdata : (List.replicate size (0 : UInt8)).length = size := List.length_replicate
  obtain ⟨hext, hloop⟩ := extensionLoop_hello (List.replicate size (0 : UInt8)) size .zero .fresh
    hrandom hsession
  have hcheck := checkResponse_hello _ _ hrandom hsession hext hdata hpos hsize hloop
  have hlen : (sampleResponse size).length = 138 + size := by
    rw [sampleResponse, List.length_append, length_helloFront hrandom hsession,
      length_helloBack _ _ hext, hdata]
    omega
  rw [if_neg (by decide), ← hlen] at hcheck
  obtain ⟨hlengths, hobserve⟩ := observe_replicate
    (upstreamResponse_hello hrandom hsession hext hdata hsize) hcheck tries
  obtain ⟨o, ho⟩ := hobserve .start
  obtain ⟨hobs, -, -⟩ := observe_observes Observes.start ho
  refine ⟨?_, hlengths⟩
  have hcount : o.finishedCount = tries := by
    rw [hobs.count, List.nil_append, hlengths, List.length_replicate]
  unfold updateDomainInfo sampleStreams
  dsimp only
  rw [show observe (List.replicate tries (List.replicate 32 2, sampleResponse size)) .start = some o
    from ho]
  dsimp only
  rw [if_neg (not_not.mpr hcount)]

/-- A domain whose responses have `1500` bytes of application data. -/
theorem serverHello_accepted_sample :
    Emulated sampleHmac .zero
      (initProxyDomain (some (.inet 1)) (sampleStreams 1500) 0 .fresh) ⟨List.replicate 16 0, rfl⟩
      sampleSuiteHello := by
  refine (serverHello_accepted_iff (fun _ _ => List.length_replicate) _ _ _ _ _ _
    (by decide)).mpr ⟨fun _ => ?_, ?_⟩
  · rw [(sampleStreams_spec 1500 (by norm_num) (by norm_num)).2]
    unfold SizeInRange
    decide +kernel
  · show List.replicate 32 (7 : UInt8) ≠ helloRetryRequest
    decide

/-- A domain whose responses have `40000` bytes of application data: no fake ServerHello. -/
theorem not_emulated_longData :
    (updateDomainInfo (some (.inet 1)) (sampleStreams 40000) .fresh).1 = true ∧
      cipherSuiteId sampleSuiteHello sampleSuiteHello.length = some 0x01 ∧
      ¬ Emulated sampleHmac .zero
        (initProxyDomain (some (.inet 1)) (sampleStreams 40000) 0 .fresh)
        ⟨List.replicate 16 0, rfl⟩ sampleSuiteHello := by
  obtain ⟨hupdate, hlengths⟩ := sampleStreams_spec 40000 (by norm_num) (by norm_num)
  obtain ⟨hpos, hmax⟩ := size_initProxyDomain (some (.inet 1)) (sampleStreams 40000) 0 .fresh
    .zero
  refine ⟨hupdate, by decide, ?_⟩
  generalize initProxyDomain (some (.inet 1)) (sampleStreams 40000) 0 .fresh = info at hpos hmax ⊢
  have hbad : ¬ SizeInRange (List.replicate tries 40000) 0 := by
    unfold SizeInRange
    decide +kernel
  rw [hlengths] at hpos
  intro h
  have hsize := (emulated_iff (fun _ _ => List.length_replicate) .zero info _ (by decide) hmax).mp h
  exact hbad (hpos.mp hsize.1 hupdate)

end MtprotoProxy
