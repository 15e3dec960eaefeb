/-
# The grammar of `check_response`

The ServerHellos that `check_response` is written for (`ServerHelloMessage`), with their bytes.
`checkResponse_grammar` says that it takes these and no others, whatever comes from the other
side, and that it never reads outside of the response.
-/
import MtprotoProxy.BufferReads

namespace MtprotoProxy

open CLib

/-! ## `check_response` with checked reads -/

/-- The loop over the extensions. -/
def extensionLoopChecked (response : Bytes) (serverHelloLength : ℕ) :
    ℕ → ℕ → ℕ → ℤ → Except Fault (Option (ℕ × ℕ × ℤ))
  | 0, _, _, _ => .error .endless
  | fuel + 1, pos, sum, reversed =>
    if pos + 4 < 5 + serverHelloLength then do
      let extensionId ← fetchLength response pos
      if extensionId ≠ 0x33 ∧ extensionId ≠ 0x2b then return none
      else
        let reversed' := if pos + 2 = 83 then if extensionId = 0x2b then 1 else 0 else reversed
        let extensionLength ← fetchLength response (pos + 2)
        if 5 + serverHelloLength < pos + 4 + extensionLength then return none
        else if extensionLength ≠ (if extensionId = 0x33 then 36 else 2) then return none
        else
          extensionLoopChecked response serverHelloLength fuel (pos + 4 + extensionLength)
            (sum + extensionId) reversed'
    else return some (pos, sum, reversed)

/-- The part after the extensions. -/
def checkRecordsChecked (response : Bytes) (len pos : ℕ) : Except Fault (Option ℕ) :=
  if len < pos + 9 then return none
  else do
    let changeCipherSpec ← fetchSlice response pos 6
    if changeCipherSpec ≠ [0x14, 0x03, 0x03, 0x00, 0x01, 0x01] then return none
    else
      let applicationData ← fetchSlice response (pos + 6) 3
      if applicationData ≠ [0x17, 0x03, 0x03] then return none
      else if len < pos + 11 then return none
      else
        let applicationDataLength ← fetchLength response (pos + 9)
        if applicationDataLength = 0 then return none
        else if len < pos + 11 + applicationDataLength then return none
        else if pos + 11 + applicationDataLength ≠ len then return none
        else return some applicationDataLength

/-- `check_response` from the session id on. -/
def checkSessionChecked (response : Bytes) (len : ℕ) (requestSessionId : Bytes)
    (serverHelloLength : ℕ) : Except Fault (Option (ℤ × ℕ)) := do
  let sessionId ← fetchSlice response 44 32
  if sessionId ≠ requestSessionId then return none
  else
    let suite ← fetchSlice response 76 3
    if suite ≠ [0x13, 0x01, 0x00] then return none
    else
      let extensionsLength ← fetchLength response 79
      if extensionsLength + 76 ≠ serverHelloLength then return none
      else
        match ← extensionLoopChecked response serverHelloLength serverHelloLength 81 0 (-1) with
        | none => return none
        | some (pos, sum, reversed) =>
          if sum ≠ 0x33 + 0x2b then return none
          else if pos ≠ 5 + serverHelloLength then return none
          else
            let n ← checkRecordsChecked response len pos
            return n.map (fun n => (reversed, n))

/-- `check_response`. -/
def checkResponseChecked (response : Bytes) (len : ℕ) (requestSessionId : Bytes) :
    Except Fault (Option (ℤ × ℕ)) :=
  if len < 3 then return none
  else do
    let record ← fetchSlice response 0 3
    if record ≠ [0x16, 0x03, 0x03] then return none
    else if len < 5 then return none
    else
      let serverHelloLength ← fetchLength response 3
      if serverHelloLength ≤ 39 then return none
      else if len < 5 + serverHelloLength then return none
      else
        let handshake ← fetchSlice response 5 2
        if handshake ≠ [0x02, 0x00] then return none
        else
          let version ← fetchSlice response 9 2
          if version ≠ [0x03, 0x03] then return none
          else
            let random ← fetchSlice response 11 32
            if random = helloRetryRequest then return none
            else
              let sessionIdLength ← fetchByte response 43
              if sessionIdLength = 0 then return none
              else
                let sessionIdLength ← fetchSlice response 43 1
                if sessionIdLength ≠ [0x20] then return none
                else if serverHelloLength ≤ 75 then return none
                else checkSessionChecked response len requestSessionId serverHelloLength

/-! ## No read is outside of the response -/

variable {response : Bytes}

/-- The loop stays inside the message, and ends before the rounds are used up. -/
theorem extensionLoopChecked_eq {n : ℕ} (hn : 5 + n ≤ response.length) :
    ∀ {fuel pos sum : ℕ} {reversed : ℤ}, pos ≤ 5 + n → 9 + n ≤ pos + 4 * fuel →
      extensionLoopChecked response n fuel pos sum reversed
        = .ok (extensionLoop response n fuel pos sum reversed) := by
  intro fuel
  induction fuel with
  | zero =>
    intro pos sum reversed hpos hfuel
    omega
  | succ fuel ih =>
    intro pos sum reversed hpos hfuel
    rw [extensionLoopChecked, extensionLoop]
    split
    · rw [fetchLength_ok (by omega), ok_bind]
      refine reject_eq (fun _ => ?_)
      rw [fetchLength_ok (by omega), ok_bind]
      refine reject_eq (fun hfits => reject_eq (fun _ => ?_))
      exact ih (not_lt.mp hfits) (by omega)
    · rfl

theorem checkRecordsChecked_eq {pos : ℕ} :
    checkRecordsChecked response response.length pos
      = .ok (checkRecords response response.length pos) := by
  refine reject_eq (fun h9 => ?_)
  rw [fetchSlice_ok (by omega), ok_bind]
  refine reject_eq (fun _ => ?_)
  rw [fetchSlice_ok (by omega), ok_bind]
  refine reject_eq (fun _ => reject_eq (fun h11 => ?_))
  rw [fetchLength_ok (by omega), ok_bind]
  exact reject_eq (fun _ => reject_eq (fun _ => reject_eq (fun _ => rfl)))

/-- **With the checks it is the same function.** -/
theorem checkResponseChecked_eq (response sessionId : Bytes) :
    checkResponseChecked response response.length sessionId
      = .ok (checkResponse response response.length sessionId) := by
  refine reject_eq (fun h3 => ?_)
  rw [fetchSlice_ok (by omega), ok_bind]
  refine reject_eq (fun _ => reject_eq (fun h5 => ?_))
  rw [fetchLength_ok (by omega), ok_bind]
  refine reject_eq (fun h39 => reject_eq (fun hhello => ?_))
  rw [fetchSlice_ok (by omega), ok_bind]
  refine reject_eq (fun _ => ?_)
  rw [fetchSlice_ok (by omega), ok_bind]
  refine reject_eq (fun _ => ?_)
  rw [fetchSlice_ok (by omega), ok_bind]
  refine reject_eq (fun _ => ?_)
  rw [fetchByte_ok (by omega), ok_bind]
  refine reject_eq (fun _ => ?_)
  rw [fetchSlice_ok (by omega), ok_bind]
  refine reject_eq (fun _ => reject_eq (fun h75 => ?_))
  unfold checkSessionChecked
  rw [fetchSlice_ok (by omega), ok_bind]
  refine reject_eq (fun _ => ?_)
  rw [fetchSlice_ok (by omega), ok_bind]
  refine reject_eq (fun _ => ?_)
  rw [fetchLength_ok (by omega), ok_bind]
  refine reject_eq (fun _ => ?_)
  rw [extensionLoopChecked_eq (by omega) (by omega) (by omega), ok_bind]
  cases extensionLoop response (readLength response 3) (readLength response 3) 81 0 (-1) with
  | none => rfl
  | some r =>
    refine reject_eq (fun _ => reject_eq (fun _ => ?_))
    rw [checkRecordsChecked_eq, ok_bind]
    rfl

/-! ## The grammar -/

/-- **A ServerHello as `check_response` wants it,** with the dummy records behind it: what may be
chosen in it. -/
structure ServerHelloMessage where
  /-- the bytes 7 and 8 -/
  free : Bytes
  random : Bytes
  isReversed : Bool
  keyShare : Bytes
  supportedVersions : Bytes
  applicationData : Bytes
  length_free : free.length = 2
  length_random : random.length = 32
  random_ne : random ≠ helloRetryRequest
  length_keyShare : keyShare.length = 36
  length_supportedVersions : supportedVersions.length = 2
  applicationData_pos : 1 ≤ applicationData.length
  applicationData_lt : applicationData.length < 2 ^ 16

namespace ServerHelloMessage

/-- The two extensions. -/
def extensions (m : ServerHelloMessage) : Bytes :=
  if m.isReversed then extension 0x2b m.supportedVersions ++ extension 0x33 m.keyShare
  else extension 0x33 m.keyShare ++ extension 0x2b m.supportedVersions

/-- The bytes, with the session id of the request mirrored. -/
def bytes (m : ServerHelloMessage) (sessionId : Bytes) : Bytes :=
  [0x16, 0x03, 0x03] ++ (lengthBytes 122 ++ ([0x02, 0x00] ++ (m.free ++ ([0x03, 0x03] ++
    (m.random ++ ([0x20] ++ (sessionId ++ ([0x13, 0x01, 0x00] ++ (lengthBytes 46 ++
      (m.extensions ++ ([0x14, 0x03, 0x03, 0x00, 0x01, 0x01] ++ ([0x17, 0x03, 0x03] ++
        (lengthBytes m.applicationData.length ++ m.applicationData)))))))))))))

theorem length_extensions (m : ServerHelloMessage) : m.extensions.length = 46 := by
  have hkey := m.length_keyShare
  have hversions := m.length_supportedVersions
  unfold extensions
  split <;> rw [List.length_append, length_extension, length_extension] <;> omega

theorem length_bytes (m : ServerHelloMessage) {sessionId : Bytes} (hsession : sessionId.length = 32) :
    (m.bytes sessionId).length = 138 + m.applicationData.length := by
  have hfree := m.length_free
  have hrandom := m.length_random
  have hext := m.length_extensions
  simp only [bytes, List.length_append, List.length_cons, List.length_nil, length_lengthBytes,
    hfree, hrandom, hsession, hext, ← Nat.add_assoc, Nat.reduceAdd]

end ServerHelloMessage

/-! ### The loop over the extensions -/

/-- An extension that the loop takes. -/
def TakenExtension (response : Bytes) (pos id length : ℕ) : Prop :=
  readLength response pos = id ∧ readLength response (pos + 2) = length ∧
    (id = 0x33 ∧ length = 36 ∨ id = 0x2b ∧ length = 2)

/-- A round of the loop, from behind: it was over, or there was an extension. -/
theorem extensionLoop_step {n fuel pos sum pos' sum' : ℕ}
    {reversed reversed' : ℤ}
    (h : extensionLoop response n fuel pos sum reversed = some (pos', sum', reversed')) :
    (pos = pos' ∧ sum = sum' ∧ reversed = reversed') ∨
      ∃ fuel' id length, TakenExtension response pos id length ∧
        extensionLoop response n fuel' (pos + 4 + length) (sum + id)
          (if pos + 2 = 83 then if id = 0x2b then 1 else 0 else reversed)
            = some (pos', sum', reversed') := by
  cases fuel with
  | zero =>
    cases h
    exact Or.inl ⟨rfl, rfl, rfl⟩
  | succ fuel =>
    rw [extensionLoop] at h
    split at h
    · simp only [Option.ite_none_left_eq_some] at h
      obtain ⟨hid, -, hlength, h⟩ := h
      refine Or.inr ⟨fuel, _, _, ⟨rfl, rfl, ?_⟩, h⟩
      rw [not_not] at hlength
      by_cases hkey : readLength response pos = 0x33
      · rw [if_pos hkey] at hlength
        exact Or.inl ⟨hkey, hlength⟩
      · rw [if_neg hkey] at hlength
        exact Or.inr ⟨by omega, hlength⟩
    · cases h
      exact Or.inl ⟨rfl, rfl, rfl⟩

/-- The sum never gets smaller. -/
theorem extensionLoop_sum_le {n : ℕ} :
    ∀ {fuel pos sum pos' sum' : ℕ} {reversed reversed' : ℤ},
      extensionLoop response n fuel pos sum reversed = some (pos', sum', reversed') →
        sum ≤ sum' := by
  intro fuel
  induction fuel with
  | zero =>
    intro pos sum pos' sum' reversed reversed' h
    cases h
    exact le_rfl
  | succ fuel ih =>
    intro pos sum pos' sum' reversed reversed' h
    rw [extensionLoop] at h
    split at h
    · simp only [Option.ite_none_left_eq_some] at h
      exact (Nat.le_add_right _ _).trans (ih h.2.2.2)
    · cases h
      exact le_rfl

/-- **The sum says which extensions there were:** one of each kind. -/
theorem extensionLoop_two {n fuel pos : ℕ} {reversed : ℤ}
    (h : extensionLoop response n fuel 81 0 (-1) = some (pos, 0x33 + 0x2b, reversed)) :
    pos = 127 ∧
      (reversed = 0 ∧ TakenExtension response 81 0x33 36 ∧ TakenExtension response 121 0x2b 2 ∨
        reversed = 1 ∧ TakenExtension response 81 0x2b 2 ∧ TakenExtension response 87 0x33 36) := by
  -- the sum is 0 before the first extension, too small before the second, too great after a third
  obtain ⟨-, hsum, -⟩ | ⟨fuel₁, id₁, length₁, hext₁, h₁⟩ := extensionLoop_step h
  · exact absurd hsum (by decide)
  obtain ⟨-, hsum, -⟩ | ⟨fuel₂, id₂, length₂, hext₂, h₂⟩ := extensionLoop_step h₁
  · rcases hext₁.2.2 with ⟨rfl, -⟩ | ⟨rfl, -⟩ <;> exact absurd hsum (by decide)
  have hle := extensionLoop_sum_le h₂
  obtain ⟨hpos, hsum, hrev⟩ | ⟨fuel₃, id₃, length₃, hext₃, h₃⟩ := extensionLoop_step h₂
  · rcases hext₁.2.2 with ⟨rfl, rfl⟩ | ⟨rfl, rfl⟩ <;>
      rcases hext₂.2.2 with ⟨rfl, rfl⟩ | ⟨rfl, rfl⟩
    · exact absurd hsum (by decide)
    · exact ⟨hpos.symm, Or.inl ⟨hrev.symm, hext₁, hext₂⟩⟩
    · exact ⟨hpos.symm, Or.inr ⟨hrev.symm, hext₁, hext₂⟩⟩
    · exact absurd hsum (by decide)
  · have hle₃ := extensionLoop_sum_le h₃
    rcases hext₁.2.2 with ⟨rfl, -⟩ | ⟨rfl, -⟩ <;> rcases hext₂.2.2 with ⟨rfl, -⟩ | ⟨rfl, -⟩ <;>
      rcases hext₃.2.2 with ⟨rfl, -⟩ | ⟨rfl, -⟩ <;> omega

/-! ### The fields at their positions -/

/-- What stands at which position of a response. -/
structure HasFields (response sessionId : Bytes) (m : ServerHelloMessage) : Prop where
  record : slice response 0 3 = [0x16, 0x03, 0x03]
  recordLength : slice response 3 2 = lengthBytes 122
  handshake : slice response 5 2 = [0x02, 0x00]
  free : slice response 7 2 = m.free
  version : slice response 9 2 = [0x03, 0x03]
  random : slice response 11 32 = m.random
  sessionIdLength : slice response 43 1 = [0x20]
  sessionId : slice response 44 32 = sessionId
  suite : slice response 76 3 = [0x13, 0x01, 0x00]
  extensionsLength : slice response 79 2 = lengthBytes 46
  extensions : slice response 81 46 = m.extensions
  changeCipherSpec : slice response 127 6 = [0x14, 0x03, 0x03, 0x00, 0x01, 0x01]
  applicationData : slice response 133 3 = [0x17, 0x03, 0x03]
  applicationDataLength : slice response 136 2 = lengthBytes m.applicationData.length
  data : response.drop 138 = m.applicationData

/-- **The bytes of a message** are the ones with its fields. -/
theorem eq_bytes_iff {response sessionId : Bytes} {m : ServerHelloMessage}
    (hsession : sessionId.length = 32) :
    response = m.bytes sessionId ↔ HasFields response sessionId m := by
  constructor
  · intro h
    have h₀ : response.drop 0 = m.bytes sessionId := h
    obtain ⟨hrecord, h₃⟩ := cut_drop h₀ (show _ = 3 from rfl)
    obtain ⟨hlength, h₅⟩ := cut_drop h₃ (show _ = 2 from rfl)
    obtain ⟨hhandshake, h₇⟩ := cut_drop h₅ (show _ = 2 from rfl)
    obtain ⟨hfree, h₉⟩ := cut_drop h₇ m.length_free
    obtain ⟨hversion, h₁₁⟩ := cut_drop h₉ (show _ = 2 from rfl)
    obtain ⟨hrandom, h₄₃⟩ := cut_drop h₁₁ m.length_random
    obtain ⟨hsessionLength, h₄₄⟩ := cut_drop h₄₃ (show _ = 1 from rfl)
    obtain ⟨hsessionId, h₇₆⟩ := cut_drop h₄₄ hsession
    obtain ⟨hsuite, h₇₉⟩ := cut_drop h₇₆ (show _ = 3 from rfl)
    obtain ⟨hextLength, h₈₁⟩ := cut_drop h₇₉ (show _ = 2 from rfl)
    obtain ⟨hext, h₁₂₇⟩ := cut_drop h₈₁ m.length_extensions
    obtain ⟨hccs, h₁₃₃⟩ := cut_drop h₁₂₇ (show _ = 6 from rfl)
    obtain ⟨happ, h₁₃₆⟩ := cut_drop h₁₃₃ (show _ = 3 from rfl)
    obtain ⟨happLength, h₁₃₈⟩ := cut_drop h₁₃₆ (show _ = 2 from rfl)
    exact ⟨hrecord, hlength, hhandshake, hfree, hversion, hrandom, hsessionLength, hsessionId,
      hsuite, hextLength, hext, hccs, happ, happLength, h₁₃₈⟩
  · intro h
    have hjoined : response.drop 0 = m.bytes sessionId :=
      join_drop h.record <| join_drop h.recordLength <| join_drop h.handshake <|
      join_drop h.free <| join_drop h.version <| join_drop h.random <|
      join_drop h.sessionIdLength <| join_drop h.sessionId <| join_drop h.suite <|
      join_drop h.extensionsLength <| join_drop h.extensions <|
      join_drop h.changeCipherSpec <| join_drop h.applicationData <|
      join_drop h.applicationDataLength h.data
    exact hjoined

/-! ### The extensions of a message -/

/-- A round of the loop at an extension that it takes. -/
theorem extensionLoop_round {n fuel pos sum id length : ℕ} {reversed : ℤ}
    (hext : TakenExtension response pos id length) (hroom : pos + 4 + length ≤ 5 + n) :
    extensionLoop response n (fuel + 1) pos sum reversed
      = extensionLoop response n fuel (pos + 4 + length) (sum + id)
          (if pos + 2 = 83 then if id = 0x2b then 1 else 0 else reversed) := by
  obtain ⟨hid, hlength, hkind⟩ := hext
  rw [extensionLoop, if_pos (by omega), hid, hlength]
  dsimp only
  rw [if_neg (by omega), if_neg (by omega)]
  rcases hkind with ⟨rfl, rfl⟩ | ⟨rfl, rfl⟩ <;> rfl

theorem extensionLoop_done {n fuel sum : ℕ} {reversed : ℤ} :
    extensionLoop response n (fuel + 1) (5 + n) sum reversed = some (5 + n, sum, reversed) := by
  rw [extensionLoop, if_neg (by omega)]

/-- The order of the extensions, as it is reported. -/
def ServerHelloMessage.order (m : ServerHelloMessage) : ℤ := if m.isReversed then 1 else 0

/-- **The extensions of a message pass the loop.** -/
theorem extensionLoop_message {m : ServerHelloMessage}
    (hext : slice response 81 46 = m.extensions) :
    extensionLoop response 122 122 81 0 (-1) = some (127, 0x33 + 0x2b, m.order) := by
  have hkey := m.length_keyShare
  have hversions := m.length_supportedVersions
  have hcut := join_drop hext rfl
  unfold ServerHelloMessage.extensions at hcut
  unfold ServerHelloMessage.order
  cases hrev : m.isReversed with
  | true =>
    rw [hrev, if_pos rfl, List.append_assoc] at hcut
    obtain ⟨hid, hlength, -, hnext⟩ := cut_extension (by norm_num) (by omega) hcut
    rw [hversions] at hlength hnext
    obtain ⟨hid', hlength', -, -⟩ := cut_extension (by norm_num) (by omega) hnext
    rw [hkey] at hlength'
    rw [show 122 = 121 + 1 from rfl,
      extensionLoop_round ⟨hid, hlength, Or.inr ⟨rfl, rfl⟩⟩ (by norm_num),
      show 121 = 120 + 1 from rfl,
      extensionLoop_round ⟨hid', hlength', Or.inl ⟨rfl, rfl⟩⟩ (by norm_num)]
    exact extensionLoop_done
  | false =>
    rw [hrev, if_neg (by decide), List.append_assoc] at hcut
    obtain ⟨hid, hlength, -, hnext⟩ := cut_extension (by norm_num) (by omega) hcut
    rw [hkey] at hlength hnext
    obtain ⟨hid', hlength', -, -⟩ := cut_extension (by norm_num) (by omega) hnext
    rw [hversions] at hlength'
    rw [show 122 = 121 + 1 from rfl,
      extensionLoop_round ⟨hid, hlength, Or.inl ⟨rfl, rfl⟩⟩ (by norm_num),
      show 121 = 120 + 1 from rfl,
      extensionLoop_round ⟨hid', hlength', Or.inr ⟨rfl, rfl⟩⟩ (by norm_num)]
    exact extensionLoop_done

/-- The records of a message pass the checks behind the loop. -/
theorem checkRecords_message {response sessionId : Bytes} {m : ServerHelloMessage}
    (h : HasFields response sessionId m)
    (hlen : response.length = 138 + m.applicationData.length) :
    checkRecords response response.length 127 = some m.applicationData.length := by
  have hpos := m.applicationData_pos
  have hread : readLength response (127 + 9) = m.applicationData.length :=
    (slice_eq_lengthBytes_iff (by omega) m.applicationData_lt).mp h.applicationDataLength
  have happ : slice response (127 + 6) 3 = [0x17, 0x03, 0x03] := h.applicationData
  unfold checkRecords
  rw [if_neg (by omega), if_neg (not_not.mpr h.changeCipherSpec), if_neg (not_not.mpr happ),
    if_neg (by omega)]
  dsimp only
  rw [hread, if_neg (by omega), if_neg (by omega), if_neg (by omega)]

/-- **Every message is taken.** -/
theorem checkResponse_bytes {sessionId : Bytes} (hsession : sessionId.length = 32)
    (m : ServerHelloMessage) :
    checkResponse (m.bytes sessionId) (m.bytes sessionId).length sessionId
      = some (m.order, m.applicationData.length) := by
  have hlen := m.length_bytes hsession
  have h := (eq_bytes_iff hsession).mp (Eq.refl (m.bytes sessionId))
  set response := m.bytes sessionId
  have hhello : readLength response 3 = 122 :=
    (slice_eq_lengthBytes_iff (by omega) (by norm_num)).mp h.recordLength
  have hexts : readLength response 79 = 46 :=
    (slice_eq_lengthBytes_iff (by omega) (by norm_num)).mp h.extensionsLength
  have hsid : byteAt response 43 = 0x20 := byteAt_eq_slice h.sessionIdLength
  unfold checkResponse
  rw [if_neg (by omega), if_neg (not_not.mpr h.record), if_neg (by omega)]
  dsimp only
  rw [hhello, if_neg (by omega), if_neg (by omega), if_neg (not_not.mpr h.handshake),
    if_neg (not_not.mpr h.version), h.random, if_neg m.random_ne, hsid, if_neg (by decide),
    if_neg (not_not.mpr h.sessionIdLength), if_neg (by omega),
    if_neg (not_not.mpr h.sessionId), if_neg (not_not.mpr h.suite), hexts, if_neg (by omega),
    extensionLoop_message h.extensions]
  dsimp only
  rw [if_neg (by omega), if_neg (by omega), checkRecords_message h hlen]
  rfl

/-! ### Nothing else is taken -/

/-- The extensions that the loop takes, as those of a message. -/
theorem slice_eq_extension {pos id length : ℕ}
    (hext : TakenExtension response pos id length) (hroom : pos + 4 + length ≤ response.length) :
    slice response pos (4 + length) = extension id (slice response (pos + 4) length) := by
  have hcut := extension_append_drop hext.1 hext.2.1 hroom
  have hlen : (extension id (slice response (pos + 4) length)).length = 4 + length := by
    rw [length_extension, length_slice _ _ _ hroom]
  exact (cut_drop hcut.symm hlen).1

/-- The two bodies are where the order of the extensions puts them. -/
theorem extensions_of_kinds {reversed : ℤ} (hlen : 127 ≤ response.length)
    (h : reversed = 0 ∧ TakenExtension response 81 0x33 36 ∧ TakenExtension response 121 0x2b 2 ∨
      reversed = 1 ∧ TakenExtension response 81 0x2b 2 ∧ TakenExtension response 87 0x33 36) :
    ∃ k v : Bytes, k.length = 36 ∧ v.length = 2 ∧
      slice response 81 46 = if reversed = 1 then extension 0x2b v ++ extension 0x33 k
        else extension 0x33 k ++ extension 0x2b v := by
  rcases h with ⟨rfl, hkey, hversions⟩ | ⟨rfl, hversions, hkey⟩
  · refine ⟨slice response 85 36, slice response 125 2, length_slice _ _ _ (by omega),
      length_slice _ _ _ (by omega), ?_⟩
    rw [if_neg (by decide), show 46 = (4 + 36) + (4 + 2) from rfl, slice_add,
      slice_eq_extension hkey (by omega), slice_eq_extension hversions (by omega)]
  · refine ⟨slice response 91 36, slice response 85 2, length_slice _ _ _ (by omega),
      length_slice _ _ _ (by omega), ?_⟩
    rw [if_pos rfl, show 46 = (4 + 2) + (4 + 36) from rfl, slice_add,
      slice_eq_extension hversions (by omega), slice_eq_extension hkey (by omega)]

/-- What the records behind the extensions are when they pass. -/
theorem checkRecords_fields {n : ℕ}
    (h : checkRecords response response.length 127 = some n) :
    slice response 127 6 = [0x14, 0x03, 0x03, 0x00, 0x01, 0x01] ∧
      slice response 133 3 = [0x17, 0x03, 0x03] ∧ readLength response 136 = n ∧
      1 ≤ n ∧ response.length = 138 + n := by
  unfold checkRecords at h
  simp only [Option.ite_none_left_eq_some, not_not, Option.some.injEq] at h
  obtain ⟨-, hccs, happ, -, hne, -, hend, rfl⟩ := h
  exact ⟨hccs, happ, rfl, Nat.one_le_iff_ne_zero.mpr hne, hend.symm⟩

/-- **A response that is taken is a message,** and what is reported is in it. -/
theorem message_of_checkResponse {response sessionId : Bytes} {reversed : ℤ} {n : ℕ}
    (hsession : sessionId.length = 32)
    (h : checkResponse response response.length sessionId = some (reversed, n)) :
    ∃ m : ServerHelloMessage, response = m.bytes sessionId ∧ m.order = reversed ∧
      m.applicationData.length = n := by
  unfold checkResponse at h
  simp only [Option.ite_none_left_eq_some, not_not] at h
  obtain ⟨-, hrecord, -, -, hhello, hhandshake, hversion, hrandom, -, hsid, -, hsessionId, hsuite,
    hexts, h⟩ := h
  cases hloop : extensionLoop response (readLength response 3) (readLength response 3) 81 0
      (-1) with
  | none =>
    rw [hloop] at h
    exact absurd h (by simp)
  | some r =>
    obtain ⟨pos, sum, rev⟩ := r
    rw [hloop] at h
    simp only [Option.ite_none_left_eq_some, not_not] at h
    obtain ⟨rfl, hpos, h⟩ := h
    obtain ⟨n', hrecords, heq⟩ := Option.map_eq_some_iff.mp h
    cases heq
    -- the sum of the ids tells which extensions there were, the reported order how they came
    obtain ⟨rfl, hkinds⟩ := extensionLoop_two hloop
    obtain ⟨hccs, happ, hread, hone, hlen⟩ := checkRecords_fields hrecords
    have hhello' : readLength response 3 = 122 := by omega
    have hn := hread ▸ readLength_lt response 136
    have hdata : (response.drop 138).length = n := by
      rw [List.length_drop]
      omega
    obtain ⟨k, v, hk, hv, hext⟩ := extensions_of_kinds (by omega) hkinds
    have horder : reversed = 0 ∨ reversed = 1 := hkinds.imp And.left And.left
    let m : ServerHelloMessage :=
      { free := slice response 7 2
        random := slice response 11 32
        isReversed := reversed = 1
        keyShare := k
        supportedVersions := v
        applicationData := response.drop 138
        length_free := length_slice _ _ _ (by omega)
        length_random := length_slice _ _ _ (by omega)
        random_ne := hrandom
        length_keyShare := hk
        length_supportedVersions := hv
        applicationData_pos := by omega
        applicationData_lt := by omega }
    refine ⟨m, (eq_bytes_iff hsession).mpr ?_, ?_, hdata⟩
    · exact
        { record := hrecord
          recordLength := (slice_eq_lengthBytes_iff (by omega) (by norm_num)).mpr hhello'
          handshake := hhandshake
          free := rfl
          version := hversion
          random := rfl
          sessionIdLength := hsid
          sessionId := hsessionId
          suite := hsuite
          extensionsLength :=
            (slice_eq_lengthBytes_iff (by omega) (by norm_num)).mpr (by omega)
          extensions := by
            rw [hext]
            unfold ServerHelloMessage.extensions
            simp only [m, decide_eq_true_eq]
          changeCipherSpec := hccs
          applicationData := happ
          applicationDataLength := by
            rw [show m.applicationData.length = n from hdata]
            exact (slice_eq_lengthBytes_iff (by omega) hn).mpr hread
          data := rfl }
    · show (if decide (reversed = 1) = true then (1 : ℤ) else 0) = reversed
      rcases horder with rfl | rfl <;> rfl

/-- **`check_response` takes its grammar:** it answers for all bytes without a read outside of
them, and it takes exactly the messages with the session id of the request; what it reports is
what the message holds. -/
theorem checkResponse_grammar (response sessionId : Bytes) (hsession : sessionId.length = 32) :
    (∃ res, checkResponseChecked response response.length sessionId = .ok res) ∧
      ∀ reversed n, checkResponseChecked response response.length sessionId
          = .ok (some (reversed, n)) ↔
        ∃ m : ServerHelloMessage, response = m.bytes sessionId ∧ m.order = reversed ∧
          m.applicationData.length = n := by
  rw [checkResponseChecked_eq]
  refine ⟨⟨_, rfl⟩, fun reversed n => ⟨fun h => ?_, ?_⟩⟩
  · exact message_of_checkResponse hsession (Except.ok.inj h)
  · rintro ⟨m, rfl, rfl, rfl⟩
    rw [checkResponse_bytes hsession]

/-- A message with its extensions in reversed order and one byte of data. -/
def sampleMessage : ServerHelloMessage where
  free := [0, 0]
  random := List.replicate 32 1
  isReversed := true
  keyShare := List.replicate 36 2
  supportedVersions := [3, 4]
  applicationData := [5]
  length_free := rfl
  length_random := rfl
  random_ne := by decide
  length_keyShare := rfl
  length_supportedVersions := rfl
  applicationData_pos := le_rfl
  applicationData_lt := by decide

theorem checkResponse_sampleMessage :
    checkResponseChecked (sampleMessage.bytes (List.replicate 32 7))
      (sampleMessage.bytes (List.replicate 32 7)).length (List.replicate 32 7)
        = .ok (some (1, 1)) :=
  ((checkResponse_grammar (sampleMessage.bytes (List.replicate 32 7)) (List.replicate 32 7) rfl).2
    1 1).mpr ⟨sampleMessage, rfl, rfl, rfl⟩

end MtprotoProxy
