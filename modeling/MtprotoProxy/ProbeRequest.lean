/-
# The ClientHello of the probe

`create_request` of `net/net-tcp-rpc-ext-server.c` writes the ClientHello that a cover domain is
probed with: many constant bytes, what the random generators give, and the domain.
`createRequest_parsed` says that its lengths are those of its parts, and that
`get_sni_domain_info` finds the domain in it.
-/
import MtprotoProxy.BoundedWrites
import MtprotoProxy.SniExtension

namespace MtprotoProxy

open CLib

/-! ## `create_request` -/

/-- `TLS_REQUEST_LENGTH`. -/
def tlsRequestLength : ℕ := 517

/-- What the random generators give for one request. -/
structure ProbeRandomness where
  greases : { b : Bytes // b.length = 7 }
  random : { b : Bytes // b.length = 32 }
  sessionId : { b : Bytes // b.length = 32 }
  publicKey : { b : Bytes // b.length = 32 }

/-- `greases[i]` after the first loop. -/
def maskGrease (b : UInt8) : UInt8 := (b &&& 0xF0) + 0x0A

/-- `greases[i]` after both loops: the second one changes an odd one that is equal to the one
before it. -/
def grease (r : ProbeRandomness) (i : ℕ) : UInt8 :=
  let g := maskGrease (byteAt r.greases.val i)
  if i % 2 = 1 ∧ g = maskGrease (byteAt r.greases.val (i - 1)) then 0x10 ^^^ g else g

/-- `add_string`; `str` is what has been written, so `*pos` is its length.  Behind the assertion
`memcpy` needs the bytes, and the room for them. -/
def addString (data : Bytes) (dataLen : ℤ) : Writer Fault := fun str => do
  require (wrap32 (str.length + dataLen) ≤ tlsRequestLength) .assertion
  require (0 ≤ dataLen ∧ dataLen ≤ data.length ∧ str.length + dataLen ≤ tlsRequestLength)
    .badPointer
  return str ++ data.take dataLen.toNat

/-- `add_random` and `add_public_key`, with the bytes that the generator gives. -/
def addRandom (bytes : Bytes) : Writer Fault := fun str => do
  require (str.length + bytes.length ≤ tlsRequestLength) .assertion
  return str ++ bytes

/-- `add_length`. -/
def addLength (length : ℤ) : Writer Fault := fun str => do
  require (str.length + 2 ≤ tlsRequestLength) .assertion
  return str ++ [UInt8.ofInt (length.tdiv 256), UInt8.ofInt (length.tmod 256)]

/-- `add_grease`. -/
def addGrease (r : ProbeRandomness) (num : ℕ) : Writer Fault := fun str => do
  require (str.length + 2 ≤ tlsRequestLength) .assertion
  return str ++ [grease r num, grease r num]

/-- `create_request` up to the domain. -/
def createRequestFront (domainLength : ℤ) (r : ProbeRandomness) : Writer Fault := fun str => do
  let str ← addString [0x16, 0x03, 0x01, 0x02, 0x00, 0x01, 0x00, 0x01, 0xfc, 0x03, 0x03] 11 str
  let str ← addRandom r.random.val str
  let str ← addString [0x20] 1 str
  let str ← addRandom r.sessionId.val str
  let str ← addString [0x00, 0x22] 2 str
  let str ← addGrease r 0 str
  let str ← addString [0x13, 0x01, 0x13, 0x02, 0x13, 0x03, 0xc0, 0x2b, 0xc0, 0x2f, 0xc0, 0x2c,
    0xc0, 0x30, 0xcc, 0xa9, 0xcc, 0xa8, 0xc0, 0x13, 0xc0, 0x14, 0x00, 0x9c, 0x00, 0x9d, 0x00, 0x2f,
    0x00, 0x35, 0x00, 0x0a, 0x01, 0x00, 0x01, 0x91] 36 str
  let str ← addGrease r 2 str
  let str ← addString [0x00, 0x00, 0x00, 0x00] 4 str
  let str ← addLength (wrap32 (domainLength + 5)) str
  let str ← addLength (wrap32 (domainLength + 3)) str
  let str ← addString [0x00] 1 str
  addLength domainLength str

/-- `create_request` between the domain and the padding. -/
def createRequestBack (r : ProbeRandomness) : Writer Fault := fun str => do
  let str ← addString [0x00, 0x17, 0x00, 0x00, 0xff, 0x01, 0x00, 0x01, 0x00, 0x00, 0x0a, 0x00,
    0x0a, 0x00, 0x08] 15 str
  let str ← addGrease r 4 str
  let str ← addString [0x00, 0x1d, 0x00, 0x17, 0x00, 0x18, 0x00, 0x0b, 0x00, 0x02, 0x01, 0x00,
    0x00, 0x23, 0x00, 0x00, 0x00, 0x10, 0x00, 0x0e, 0x00, 0x0c, 0x02, 0x68, 0x32, 0x08, 0x68, 0x74,
    0x74, 0x70, 0x2f, 0x31, 0x2e, 0x31, 0x00, 0x05, 0x00, 0x05, 0x01, 0x00, 0x00, 0x00, 0x00, 0x00,
    0x0d, 0x00, 0x14, 0x00, 0x12, 0x04, 0x03, 0x08, 0x04, 0x04, 0x01, 0x05, 0x03, 0x08, 0x05, 0x05,
    0x01, 0x08, 0x06, 0x06, 0x01, 0x02, 0x01, 0x00, 0x12, 0x00, 0x00, 0x00, 0x33, 0x00, 0x2b, 0x00,
    0x29] 77 str
  let str ← addGrease r 4 str
  let str ← addString [0x00, 0x01, 0x00, 0x00, 0x1d, 0x00, 0x20] 7 str
  let str ← addRandom r.publicKey.val str
  let str ← addString [0x00, 0x2d, 0x00, 0x02, 0x01, 0x01, 0x00, 0x2b, 0x00, 0x0b, 0x0a] 11 str
  let str ← addGrease r 6 str
  let str ← addString [0x03, 0x04, 0x03, 0x03, 0x03, 0x02, 0x03, 0x01, 0x00, 0x1b, 0x00, 0x03,
    0x02, 0x00, 0x02] 15 str
  let str ← addGrease r 3 str
  addString [0x00, 0x01, 0x00, 0x00, 0x15] 5 str

/-- The padding extension. -/
def addPadding : Writer Fault := fun str => do
  let paddingLength : ℤ := tlsRequestLength - 2 - str.length
  require (0 ≤ paddingLength) .assertion
  let str ← addLength paddingLength str
  return str ++ List.replicate (tlsRequestLength - str.length) 0

/-- `create_request`; the length of the domain goes through an `int`. -/
def createRequest (domain : Bytes) (r : ProbeRandomness) : Except Fault Bytes := do
  let domainLength := wrap32 domain.length
  let str ← createRequestFront domainLength r []
  let str ← addString domain domainLength str
  let str ← createRequestBack r str
  addPadding str

/-! ## What the steps append -/

/-- A string, as long as nothing wraps around. -/
theorem appends_string {data : Bytes} {n : ℕ} (hdata : n ≤ data.length)
    (hn : n + tlsRequestLength < 2 ^ 31) :
    Appends tlsRequestLength Fault.assertion (addString data n) (data.take n) := by
  intro str hstr
  have hlen : (data.take n).length = n := by rw [List.length_take]; omega
  unfold addString
  rw [wrap32_of_isInt32 ⟨by omega, by omega⟩, hlen]
  by_cases hroom : str.length + n ≤ tlsRequestLength
  · rw [if_pos hroom, require_ok (by omega), ok_bind, require_ok (by omega), ok_bind, pure_eq_ok,
      Int.toNat_natCast]
  · rw [if_neg hroom, require_error (by omega), error_bind]

/-- A whole string. -/
theorem appends_literal {data : Bytes} {n : ℤ} (hn : n = data.length)
    (hsmall : data.length ≤ tlsRequestLength) :
    Appends tlsRequestLength Fault.assertion (addString data n) data := by
  rw [hn]
  have h : Appends tlsRequestLength Fault.assertion (addString data data.length)
      (data.take data.length) := by
    apply appends_string le_rfl
    unfold tlsRequestLength at hsmall ⊢
    omega
  rwa [List.take_length] at h

/-- What a step with one assertion appends. -/
theorem appends_require (bytes : Bytes) {n : ℕ} (hn : bytes.length = n) :
    Appends tlsRequestLength Fault.assertion (fun str => do
      require (str.length + n ≤ tlsRequestLength) .assertion
      return str ++ bytes) bytes := by
  intro str _
  dsimp only
  rw [hn]
  by_cases hroom : str.length + n ≤ tlsRequestLength
  · rw [if_pos hroom, require_ok hroom, ok_bind, pure_eq_ok]
  · rw [if_neg hroom, require_error hroom, error_bind]

theorem appends_random (bytes : Bytes) :
    Appends tlsRequestLength Fault.assertion (addRandom bytes) bytes :=
  appends_require bytes rfl

theorem appends_length (n : ℕ) :
    Appends tlsRequestLength Fault.assertion (addLength n) (lengthBytes n) := by
  have hbytes : lengthBytes n = [UInt8.ofInt ((n : ℤ).tdiv 256), UInt8.ofInt ((n : ℤ).tmod 256)] := by
    rw [show ((n : ℤ).tdiv 256) = ((n / 256 : ℕ) : ℤ) from rfl,
      show ((n : ℤ).tmod 256) = ((n % 256 : ℕ) : ℤ) from rfl, ofInt_natCast, ofInt_natCast]
    rfl
  rw [hbytes]
  exact appends_require _ rfl

theorem appends_grease (r : ProbeRandomness) (num : ℕ) :
    Appends tlsRequestLength Fault.assertion (addGrease r num) [grease r num, grease r num] :=
  appends_require _ rfl

/-- The bytes up to the domain. -/
def frontBytes (n : ℕ) (r : ProbeRandomness) : Bytes :=
  [0x16, 0x03, 0x01, 0x02, 0x00, 0x01, 0x00, 0x01, 0xfc, 0x03, 0x03] ++ (r.random.val ++ ([0x20] ++
    (r.sessionId.val ++ ([0x00, 0x22] ++ ([grease r 0, grease r 0] ++ ([0x13, 0x01, 0x13, 0x02, 0x13,
      0x03, 0xc0, 0x2b, 0xc0, 0x2f, 0xc0, 0x2c, 0xc0, 0x30, 0xcc, 0xa9, 0xcc, 0xa8, 0xc0, 0x13,
      0xc0, 0x14, 0x00, 0x9c, 0x00, 0x9d, 0x00, 0x2f, 0x00, 0x35, 0x00, 0x0a, 0x01, 0x00, 0x01,
      0x91] ++ ([grease r 2, grease r 2] ++ ([0x00, 0x00, 0x00, 0x00] ++ (lengthBytes (n + 5) ++
        (lengthBytes (n + 3) ++ ([0x00] ++ lengthBytes n)))))))))))

/-- The bytes between the domain and the padding. -/
def backBytes (r : ProbeRandomness) : Bytes :=
  [0x00, 0x17, 0x00, 0x00, 0xff, 0x01, 0x00, 0x01, 0x00, 0x00, 0x0a, 0x00, 0x0a, 0x00, 0x08] ++
    ([grease r 4, grease r 4] ++ ([0x00, 0x1d, 0x00, 0x17, 0x00, 0x18, 0x00, 0x0b, 0x00, 0x02, 0x01,
      0x00, 0x00, 0x23, 0x00, 0x00, 0x00, 0x10, 0x00, 0x0e, 0x00, 0x0c, 0x02, 0x68, 0x32, 0x08, 0x68,
      0x74, 0x74, 0x70, 0x2f, 0x31, 0x2e, 0x31, 0x00, 0x05, 0x00, 0x05, 0x01, 0x00, 0x00, 0x00, 0x00,
      0x00, 0x0d, 0x00, 0x14, 0x00, 0x12, 0x04, 0x03, 0x08, 0x04, 0x04, 0x01, 0x05, 0x03, 0x08, 0x05,
      0x05, 0x01, 0x08, 0x06, 0x06, 0x01, 0x02, 0x01, 0x00, 0x12, 0x00, 0x00, 0x00, 0x33, 0x00, 0x2b,
      0x00, 0x29] ++ ([grease r 4, grease r 4] ++ ([0x00, 0x01, 0x00, 0x00, 0x1d, 0x00, 0x20] ++
        (r.publicKey.val ++ ([0x00, 0x2d, 0x00, 0x02, 0x01, 0x01, 0x00, 0x2b, 0x00, 0x0b, 0x0a] ++
          ([grease r 6, grease r 6] ++ ([0x03, 0x04, 0x03, 0x03, 0x03, 0x02, 0x03, 0x01, 0x00, 0x1b,
            0x00, 0x03, 0x02, 0x00, 0x02] ++ ([grease r 3, grease r 3] ++
              [0x00, 0x01, 0x00, 0x00, 0x15])))))))))

theorem length_frontBytes (n : ℕ) (r : ProbeRandomness) : (frontBytes n r).length = 129 := by
  simp only [frontBytes, List.length_append, List.length_cons, List.length_nil, r.random.2,
    r.sessionId.2, length_lengthBytes]

theorem length_backBytes (r : ProbeRandomness) : (backBytes r).length = 170 := by
  simp only [backBytes, List.length_append, List.length_cons, List.length_nil, r.publicKey.2]

/-- The part up to the domain, for the lengths that do not wrap around. -/
theorem appends_front {n : ℕ} (hn : n + 5 < 2 ^ 31) (r : ProbeRandomness) :
    Appends tlsRequestLength Fault.assertion (createRequestFront n r) (frontBytes n r) := by
  have h5 : wrap32 ((n : ℤ) + 5) = (n + 5 : ℕ) := by
    rw [wrap32_of_isInt32 ⟨by omega, by omega⟩]
    rfl
  have h3 : wrap32 ((n : ℤ) + 3) = (n + 3 : ℕ) := by
    rw [wrap32_of_isInt32 ⟨by omega, by omega⟩]
    rfl
  unfold createRequestFront
  rw [h5, h3]
  exact (appends_literal (by simp) (by decide)).bind <| (appends_random _).bind <|
    (appends_literal (by simp) (by decide)).bind <| (appends_random _).bind <|
    (appends_literal (by simp) (by decide)).bind <| (appends_grease r 0).bind <|
    (appends_literal (by simp) (by decide)).bind <| (appends_grease r 2).bind <|
    (appends_literal (by simp) (by decide)).bind <| (appends_length _).bind <|
    (appends_length _).bind <| (appends_literal (by simp) (by decide)).bind <|
    appends_length _

theorem appends_back (r : ProbeRandomness) :
    Appends tlsRequestLength Fault.assertion (createRequestBack r) (backBytes r) :=
  (appends_literal (by simp) (by decide)).bind <| (appends_grease r 4).bind <|
    (appends_literal (by simp) (by decide)).bind <| (appends_grease r 4).bind <|
    (appends_literal (by simp) (by decide)).bind <| (appends_random _).bind <|
    (appends_literal (by simp) (by decide)).bind <| (appends_grease r 6).bind <|
    (appends_literal (by simp) (by decide)).bind <| (appends_grease r 3).bind <|
    appends_literal (by simp) (by decide)

/-- The padding takes what is left, if that is enough for its length. -/
theorem addPadding_eq {str : Bytes} {n : ℕ} (hstr : str.length + 2 + n = tlsRequestLength) :
    addPadding str = .ok (str ++ (lengthBytes n ++ List.replicate n 0)) := by
  unfold addPadding
  dsimp only
  rw [require_ok (by omega), ok_bind, show (tlsRequestLength : ℤ) - 2 - str.length = n by omega,
    (appends_length n).eq_ok (by rw [length_lengthBytes]; omega), ok_bind, pure_eq_ok,
    List.append_assoc, List.length_append, length_lengthBytes,
    show tlsRequestLength - (str.length + 2) = n by omega]

theorem addPadding_error {str : Bytes} (hstr : tlsRequestLength < str.length + 2) :
    addPadding str = .error .assertion := by
  unfold addPadding
  dsimp only
  rw [require_error (by omega), error_bind]

/-- **The request** for a domain. -/
def requestBytes (domain : Bytes) (r : ProbeRandomness) : Bytes :=
  frontBytes domain.length r ++ (domain ++ (backBytes r ++
    (lengthBytes (216 - domain.length) ++ List.replicate (216 - domain.length) 0)))

variable {domain : Bytes}

theorem length_requestBytes (r : ProbeRandomness) (hdomain : domain.length ≤ 216) :
    (requestBytes domain r).length = 517 := by
  simp only [requestBytes, List.length_append, length_frontBytes, length_backBytes,
    length_lengthBytes, List.length_replicate]
  omega

/-- **What is written** for a domain whose length goes through an `int` as `n`, when there is room
for `n` bytes. -/
theorem createRequest_eq_ok {n : ℕ} (r : ProbeRandomness)
    (hwrap : wrap32 domain.length = n) (hle : n ≤ domain.length) (hn : n ≤ 216) :
    createRequest domain r = .ok (requestBytes (domain.take n) r) := by
  have htake : (domain.take n).length = n := by rw [List.length_take]; omega
  have hfront := length_frontBytes n r
  have hback := length_backBytes r
  -- each part finds room; the padding takes what is left of the 517 bytes
  unfold createRequest
  dsimp only
  rw [hwrap, (appends_front (by omega) r).eq_ok (by rw [hfront]; decide), ok_bind,
    List.nil_append, (appends_string hle (by unfold tlsRequestLength; omega)).eq_ok
      (by rw [htake, hfront]; unfold tlsRequestLength; omega), ok_bind,
    (appends_back r).eq_ok (by
      rw [List.length_append, htake, hfront, hback]; unfold tlsRequestLength; omega), ok_bind,
    addPadding_eq (n := 216 - n) (by
      rw [List.length_append, List.length_append, htake, hfront, hback]
      unfold tlsRequestLength
      omega)]
  unfold requestBytes
  rw [htake, List.append_assoc, List.append_assoc]

/-- **A longer domain makes an assertion fail,** as long as no sum of lengths wraps around. -/
theorem createRequest_eq_error (r : ProbeRandomness)
    (hlong : 216 < domain.length) (hint : domain.length + 130 ≤ 2 ^ 31) :
    createRequest domain r = .error .assertion := by
  have hfront := length_frontBytes domain.length r
  have hback := length_backBytes r
  have hwrap : wrap32 domain.length = domain.length := wrap32_of_isInt32 ⟨by omega, by omega⟩
  unfold createRequest
  dsimp only
  rw [hwrap, (appends_front (by omega) r).eq_ok (by rw [hfront]; decide), ok_bind,
    List.nil_append]
  -- which writer gives up first depends on how long the domain is:
  -- the padding, the fixed part behind the domain, or the domain itself
  by_cases hroom : 129 + domain.length ≤ tlsRequestLength
  · have hstring : Appends tlsRequestLength Fault.assertion (addString domain domain.length)
        (domain.take domain.length) := by
      apply appends_string le_rfl
      unfold tlsRequestLength at hroom ⊢
      omega
    rw [List.take_length] at hstring
    rw [hstring.eq_ok (by rw [hfront]; exact hroom), ok_bind]
    have hlen : (frontBytes domain.length r ++ domain).length = 129 + domain.length := by
      rw [List.length_append, hfront]
    by_cases hroom' : 129 + domain.length + 170 ≤ tlsRequestLength
    · rw [(appends_back r).eq_ok (by rw [hlen, hback]; exact hroom'), ok_bind]
      apply addPadding_error
      rw [List.length_append, hlen, hback]
      unfold tlsRequestLength at hroom' ⊢
      omega
    · rw [(appends_back r).eq_error (by rw [hlen]; exact hroom) (by rw [hlen, hback]; omega),
        error_bind]
  · unfold addString
    rw [hfront, wrap32_of_isInt32 ⟨by omega, by omega⟩, require_error (by omega), error_bind,
      error_bind]

/-! ## The parts of the request -/

/-- A property of bytes that is decided for all of them. -/
theorem UInt8.forall_of_fin {P : UInt8 → Prop} (h : ∀ n : Fin 256, P (UInt8.ofFin n)) (b : UInt8) :
    P b := h b.toFin

/-- All values end with the same four bits. -/
theorem grease_mod (r : ProbeRandomness) (i : ℕ) : (grease r i).toNat % 16 = 10 := by
  have hmask : ∀ b : UInt8, (maskGrease b).toNat % 16 = 10 ∧
      (0x10 ^^^ maskGrease b).toNat % 16 = 10 :=
    UInt8.forall_of_fin (by decide +kernel)
  unfold grease
  dsimp only
  split
  · exact (hmask _).2
  · exact (hmask _).1

/-- **An odd value differs from the one before it.** -/
theorem grease_ne (r : ProbeRandomness) {i : ℕ} (hi : i % 2 = 0) : grease r i ≠ grease r (i + 1) := by
  have hxor : ∀ b : UInt8, maskGrease b ≠ 0x10 ^^^ maskGrease b :=
    UInt8.forall_of_fin (by decide +kernel)
  have heven : grease r i = maskGrease (byteAt r.greases.val i) := by
    unfold grease
    dsimp only
    rw [if_neg (by omega)]
  rw [heven]
  unfold grease
  dsimp only
  rw [Nat.add_sub_cancel]
  -- equal masked bytes: the odd one was changed by `0x10`
  split
  · rename_i hsame
    rw [hsame.2]
    exact hxor _
  · rename_i hother
    exact fun heq => hother ⟨by omega, heq.symm⟩

/-- The id that two equal bytes make. -/
def greaseId (r : ProbeRandomness) (i : ℕ) : ℕ := (grease r i).toNat * 257

theorem greaseId_lt (r : ProbeRandomness) (i : ℕ) : greaseId r i < 2 ^ 16 := by
  have h := (grease r i).toNat_lt
  unfold greaseId
  omega

theorem lengthBytes_greaseId (r : ProbeRandomness) (i : ℕ) :
    lengthBytes (greaseId r i) = [grease r i, grease r i] := by
  have h := (grease r i).toNat_lt
  have hhi : greaseId r i / 256 = (grease r i).toNat := by
    unfold greaseId
    omega
  have hlo : greaseId r i % 256 = (grease r i).toNat := by
    unfold greaseId
    omega
  rw [lengthBytes, hhi, hlo, UInt8.ofNat_toNat]

/-- The ids that are set aside for GREASE: two equal bytes that end with `a`. -/
def isGreaseId (id : ℕ) : Bool := id % 4112 = 2570

/-- The bytes before the extensions. -/
def helloPrefix (r : ProbeRandomness) : Bytes :=
  [0x16, 0x03, 0x01] ++ (lengthBytes 512 ++ ([0x01, 0x00] ++ (lengthBytes 508 ++ ([0x03, 0x03] ++
    (r.random.val ++ ([0x20] ++ (r.sessionId.val ++ (lengthBytes 34 ++ ([grease r 0, grease r 0, 0x13,
      0x01, 0x13, 0x02, 0x13, 0x03, 0xc0, 0x2b, 0xc0, 0x2f, 0xc0, 0x2c, 0xc0, 0x30, 0xcc, 0xa9, 0xcc,
      0xa8, 0xc0, 0x13, 0xc0, 0x14, 0x00, 0x9c, 0x00, 0x9d, 0x00, 0x2f, 0x00, 0x35, 0x00, 0x0a] ++
        ([0x01, 0x00] ++ lengthBytes 401))))))))))

/-- The extensions behind the server name. -/
def tailExtensions (n : ℕ) (r : ProbeRandomness) : List Extension :=
  [⟨0x17, [], by decide, by decide⟩, ⟨0xff01, [0x00], by decide, by decide⟩,
    ⟨0x0a, [0x00, 0x08, grease r 4, grease r 4, 0x00, 0x1d, 0x00, 0x17, 0x00, 0x18], by decide,
      by simp⟩,
    ⟨0x0b, [0x01, 0x00], by decide, by decide⟩, ⟨0x23, [], by decide, by decide⟩,
    ⟨0x10, [0x00, 0x0c, 0x02, 0x68, 0x32, 0x08, 0x68, 0x74, 0x74, 0x70, 0x2f, 0x31, 0x2e, 0x31],
      by decide, by decide⟩,
    ⟨0x05, [0x01, 0x00, 0x00, 0x00, 0x00], by decide, by decide⟩,
    ⟨0x0d, [0x00, 0x12, 0x04, 0x03, 0x08, 0x04, 0x04, 0x01, 0x05, 0x03, 0x08, 0x05, 0x05, 0x01, 0x08,
      0x06, 0x06, 0x01, 0x02, 0x01], by decide, by decide⟩,
    ⟨0x12, [], by decide, by decide⟩,
    ⟨0x33, [0x00, 0x29, grease r 4, grease r 4, 0x00, 0x01, 0x00, 0x00, 0x1d, 0x00, 0x20]
      ++ r.publicKey.val, by decide, by simp [r.publicKey.2]⟩,
    ⟨0x2d, [0x01, 0x01], by decide, by decide⟩,
    ⟨0x2b, [0x0a, grease r 6, grease r 6, 0x03, 0x04, 0x03, 0x03, 0x03, 0x02, 0x03, 0x01], by decide,
      by simp⟩,
    ⟨0x1b, [0x02, 0x00, 0x02], by decide, by decide⟩,
    ⟨greaseId r 3, [0x00], greaseId_lt r 3, by decide⟩,
    ⟨0x15, List.replicate (216 - n) 0, by decide, by rw [List.length_replicate]; omega⟩]

/-- The extension before the server name. -/
def firstExtension (r : ProbeRandomness) : Extension :=
  ⟨greaseId r 2, [], greaseId_lt r 2, by decide⟩

/-- The extension with the server name. -/
def nameExtension (domain : Bytes) (hdomain : domain.length ≤ 216) : Extension :=
  ⟨0, hostNameBody domain, by decide, by rw [length_hostNameBody]; omega⟩

/-- All extensions of the request. -/
def probeExtensions (domain : Bytes) (hdomain : domain.length ≤ 216) (r : ProbeRandomness) :
    List Extension :=
  firstExtension r :: nameExtension domain hdomain :: tailExtensions domain.length r

/-- **The request is a ClientHello:** its extensions follow each other, with nothing between
them. -/
theorem requestBytes_eq (hdomain : domain.length ≤ 216) (r : ProbeRandomness) :
    requestBytes domain r = helloPrefix r ++ extensionBytes (probeExtensions domain hdomain r) := by
  have hkey : ([0x00, 0x29, grease r 4, grease r 4, 0x00, 0x01, 0x00, 0x00, 0x1d, 0x00, 0x20]
      ++ r.publicKey.val).length = 43 := by
    rw [List.length_append, r.publicKey.2]
    rfl
  unfold requestBytes frontBytes backBytes helloPrefix extensionBytes probeExtensions
    firstExtension nameExtension tailExtensions
  simp only [List.map_cons, List.map_nil, List.flatten_cons, List.flatten_nil, extension, hkey,
    lengthBytes_greaseId, length_hostNameBody, List.length_replicate]
  simp only [hostNameBody, List.length_cons, List.length_nil, List.append_assoc, List.cons_append,
    List.nil_append, List.append_nil]
  rfl

/-- **The lengths in a ClientHello are those of its parts:** of the record behind its length, of
the handshake message behind its length of three bytes, and of the extensions, which are behind
the cipher suites and the compression methods and follow each other up to the end. -/
structure TilesBuffer (request : Bytes) (exts : List Extension) : Prop where
  record : 5 + readLength request 3 = request.length
  handshake : 9 + ((byteAt request 6).toNat * 65536 + readLength request 7) = request.length
  extensions : 78 + readLength request 76 + 4 + readLength request (78 + readLength request 76 + 2)
    = request.length
  tiled : request.drop (78 + readLength request 76 + 4) = extensionBytes exts

/-- The cipher suites of the request. -/
theorem requestBytes_suites (hdomain : domain.length ≤ 216) (r : ProbeRandomness) :
    readLength (requestBytes domain r) 76 = 34 ∧
      TilesBuffer (requestBytes domain r) (probeExtensions domain hdomain r) := by
  have hlen := length_requestBytes r hdomain
  have h₀ : (requestBytes domain r).drop 0
      = helloPrefix r ++ extensionBytes (probeExtensions domain hdomain r) := requestBytes_eq hdomain r
  unfold helloPrefix at h₀
  simp only [List.append_assoc] at h₀
  obtain ⟨-, h₃⟩ := cut_drop h₀ (show _ = 3 from rfl)
  obtain ⟨hrecord, h₅⟩ := cut_drop h₃ (show _ = 2 from rfl)
  obtain ⟨htype, h₇⟩ := cut_drop h₅ (show _ = 2 from rfl)
  obtain ⟨hhandshake, h₉⟩ := cut_drop h₇ (show _ = 2 from rfl)
  obtain ⟨-, h₁₁⟩ := cut_drop h₉ (show _ = 2 from rfl)
  obtain ⟨-, h₄₃⟩ := cut_drop h₁₁ r.random.2
  obtain ⟨-, h₄₄⟩ := cut_drop h₄₃ (show _ = 1 from rfl)
  obtain ⟨-, h₇₆⟩ := cut_drop h₄₄ r.sessionId.2
  obtain ⟨hsuites, h₇₈⟩ := cut_drop h₇₆ (show _ = 2 from rfl)
  obtain ⟨-, h₁₁₂⟩ := cut_drop h₇₈ (show _ = 34 from rfl)
  obtain ⟨-, h₁₁₄⟩ := cut_drop h₁₁₂ (show _ = 2 from rfl)
  obtain ⟨hexts, h₁₁₆⟩ := cut_drop h₁₁₄ (show _ = 2 from rfl)
  have hread : ∀ {i n : ℕ}, slice (requestBytes domain r) i 2 = lengthBytes n → i + 2 ≤ 517 →
      n < 2 ^ 16 → readLength (requestBytes domain r) i = n :=
    fun hslice hi hn => (slice_eq_lengthBytes_iff (by omega) hn).mp hslice
  have hsuites' := hread hsuites (by norm_num) (by norm_num)
  have hzero : byteAt (requestBytes domain r) 6 = 0x00 := by
    have hsplit : slice (requestBytes domain r) 5 2
        = [byteAt (requestBytes domain r) 5, byteAt (requestBytes domain r) 6] := by
      rw [show 2 = 1 + 1 from rfl, slice_add, slice_one (by omega), slice_one (by omega)]
      rfl
    exact (List.cons.inj (List.cons.inj (hsplit.symm.trans htype)).2).1
  refine ⟨hsuites', ?_, ?_, ?_, ?_⟩
  · rw [hread hrecord (by norm_num) (by norm_num), hlen]
  · rw [hzero, hread hhandshake (by norm_num) (by norm_num), hlen]
    rfl
  · rw [hsuites', hread hexts (by norm_num) (by norm_num), hlen]
  · rw [hsuites']
    exact h₁₁₆

/-- **Two of the ids are set aside,** and they are different. -/
theorem probeExtensions_greases (hdomain : domain.length ≤ 216)
    (r : ProbeRandomness) :
    ((probeExtensions domain hdomain r).map Extension.id).filter isGreaseId
        = [greaseId r 2, greaseId r 3] ∧ greaseId r 2 ≠ greaseId r 3 := by
  have hgrease : ∀ i, isGreaseId (greaseId r i) = true := by
    intro i
    have h := grease_mod r i
    unfold isGreaseId greaseId
    rw [decide_eq_true_eq]
    omega
  refine ⟨?_, fun heq => grease_ne r (show 2 % 2 = 0 from rfl) ?_⟩
  · simp only [probeExtensions, firstExtension, nameExtension, tailExtensions, List.map_cons,
      List.map_nil, List.filter_cons, hgrease, if_true, List.filter_nil]
    rfl
  · apply UInt8.toNat_inj.mp
    unfold greaseId at heq
    exact Nat.eq_of_mul_eq_mul_right (by norm_num) heq

/-- **The name in the request is the domain.** -/
theorem sniName_requestBytes (hzero : 0 ∉ domain) (hdomain : domain.length ≤ 216)
    (r : ProbeRandomness) : SniName (requestBytes domain r) domain := by
  refine ⟨[firstExtension r], extensionBytes (tailExtensions domain.length r), ?_, ?_,
    (nameExtension domain hdomain).body_lt, hzero⟩
  · intro e he
    rw [List.mem_singleton.mp he]
    have h := grease_mod r 2
    show greaseId r 2 ≠ 0
    unfold greaseId
    omega
  · rw [(requestBytes_suites hdomain r).2.tiled]
    simp only [probeExtensions, extensionBytes, nameExtension, List.map_cons, List.map_nil,
      List.flatten_cons, List.flatten_nil, List.append_nil]

/-- A domain that was registered is found under its name. -/
theorem exists_lastRegistered {infos : List DomainInfo} (h : ∃ info ∈ infos, info.domain = domain) :
    ∃ info, lastRegistered infos domain = some info ∧ info.domain = domain := by
  obtain ⟨info, hinfo, hdomain⟩ := h
  have hsome : (lastRegistered infos domain).isSome = true := by
    unfold lastRegistered
    rw [List.find?_isSome]
    exact ⟨info, List.mem_reverse.mpr hinfo, decide_eq_true hdomain⟩
  obtain ⟨found, hfound⟩ := Option.isSome_iff_exists.mp hsome
  have hname := hfound
  unfold lastRegistered at hname
  exact ⟨found, hfound, by simpa using List.find?_some hname⟩

/-- The domain is found in the request. -/
theorem getSniDomainInfo_request {infos : List DomainInfo} (hzero : 0 ∉ domain)
    (hdomain : domain.length ≤ 216) (r : ProbeRandomness)
    (h : ∃ info ∈ infos, info.domain = domain) :
    ∃ info, getSniDomainInfo (registeredDomains infos) (requestBytes domain r) 517 = some info ∧
      info.domain = domain := by
  have hlen := length_requestBytes r hdomain
  obtain ⟨info, hlast, hinfo⟩ := exists_lastRegistered h
  refine ⟨info, ?_, hinfo⟩
  rw [← hlen]
  refine (getSniDomainInfo_eq_some_iff (by omega)).mpr
    ⟨domain, sniName_requestBytes hzero hdomain r, ?_⟩
  rw [getDomainInfo_registered, hlast]

/-- **The request of the probe is one that the proxy parses:** for a domain that fits it has 517
bytes, its lengths are those of its parts, the ids of its two GREASE extensions are different, and
the domain is found in it once it is registered.  For a domain that does not fit an assertion
fails, unless its length makes the sums of lengths wrap around. -/
theorem createRequest_parsed (domain : Bytes) (hzero : 0 ∉ domain) (r : ProbeRandomness) :
    (domain.length ≤ 216 → ∃ request exts, createRequest domain r = .ok request ∧
      request.length = 517 ∧ TilesBuffer request exts ∧
      (∃ a b, (exts.map Extension.id).filter isGreaseId = [a, b] ∧ a ≠ b) ∧
      ∀ infos : List DomainInfo, (∃ info ∈ infos, info.domain = domain) →
        ∃ info, getSniDomainInfo (registeredDomains infos) request 517 = some info ∧
          info.domain = domain) ∧
    (216 < domain.length → domain.length + 130 ≤ 2 ^ 31 →
      createRequest domain r = .error .assertion) := by
  refine ⟨fun hdomain => ?_, createRequest_eq_error r⟩
  have hok := createRequest_eq_ok r (wrap32_of_isInt32 ⟨by omega, by omega⟩) le_rfl hdomain
  rw [List.take_length] at hok
  exact ⟨requestBytes domain r, probeExtensions domain hdomain r, hok,
    length_requestBytes r hdomain, (requestBytes_suites hdomain r).2,
    ⟨_, _, probeExtensions_greases hdomain r⟩,
    fun infos h => getSniDomainInfo_request hzero hdomain r h⟩

theorem length_sevenZeros : (List.replicate 7 (0 : UInt8)).length = 7 := rfl

theorem length_zeros : (List.replicate 32 (0 : UInt8)).length = 32 := rfl

/-- A generator that gives zeros. -/
def ProbeRandomness.zeros : ProbeRandomness where
  greases := ⟨List.replicate 7 0, length_sevenZeros⟩
  random := ⟨List.replicate 32 0, length_zeros⟩
  sessionId := ⟨List.replicate 32 0, length_zeros⟩
  publicKey := ⟨List.replicate 32 0, length_zeros⟩

theorem createRequest_parsed_sample :
    ∃ request exts, createRequest [97] ProbeRandomness.zeros = .ok request ∧
      request.length = 517 ∧ TilesBuffer request exts ∧
      (∃ a b, (exts.map Extension.id).filter isGreaseId = [a, b] ∧ a ≠ b) ∧
      ∀ infos : List DomainInfo, (∃ info ∈ infos, info.domain = [97]) →
        ∃ info, getSniDomainInfo (registeredDomains infos) request 517 = some info ∧
          info.domain = [97] :=
  (createRequest_parsed [97] (by decide) ProbeRandomness.zeros).1 (by decide)

/-- **A domain of `2^32` bytes has the length `0`:** no assertion fails. -/
theorem not_assertion_of_long_domain :
    ¬ ∀ domain : Bytes, 0 ∉ domain → 216 < domain.length →
      ∀ r, createRequest domain r = .error .assertion := by
  intro hall
  have hlen : (List.replicate (2 ^ 32) (97 : UInt8)).length = 2 ^ 32 := List.length_replicate
  have hzero : (0 : UInt8) ∉ List.replicate (2 ^ 32) 97 := fun hmem =>
    absurd (List.eq_of_mem_replicate hmem) (by decide)
  have herror := hall (List.replicate (2 ^ 32) 97) hzero (by rw [hlen]; norm_num) .zeros
  have hwrap : wrap32 (List.replicate (2 ^ 32) (97 : UInt8)).length = (0 : ℕ) := by
    rw [hlen]
    decide
  rw [createRequest_eq_ok .zeros hwrap (Nat.zero_le _) (by norm_num)] at herror
  cases herror

end MtprotoProxy
