/-
# The server name in a ClientHello

`get_sni_domain_info` and the scan of the cipher suites with checked reads, and what the first
of them finds: the name in the first extension with the id 0 (`SniName`), looked up among the
registered domains.
-/
import MtprotoProxy.BufferReads

namespace MtprotoProxy

open CLib

/-! ## The functions with checked reads -/

/-- The name in a `server_name` extension at `pos`, whose body is `extensionLength` long. -/
def hostNameChecked (request : Bytes) (len pos extensionLength : ℕ) :
    Except Fault (Option Bytes) :=
  if len < pos + 9 then return none
  else do
    let innerLength ← fetchLength request (pos + 4)
    if innerLength + 2 ≠ extensionLength then return none
    else
      let nameType ← fetchByte request (pos + 6)
      if nameType ≠ 0 then return none
      else
        let domainLength ← fetchLength request (pos + 7)
        if domainLength + 5 ≠ extensionLength then return none
        else
          let domain ← fetchSlice request (pos + 9) (extensionLength - 5)
          if 0 ∈ domain then return none else return some domain

/-- The loop over the extensions. -/
def sniLoopChecked (d : ProxyDomains) (request : Bytes) (len : ℕ) :
    ℕ → ℕ → Except Fault (Option DomainInfo)
  | 0, _ => .error .endless
  | fuel + 1, pos =>
    if len < pos + 4 then return none
    else do
      let extensionId ← fetchLength request pos
      let extensionLength ← fetchLength request (pos + 2)
      if len < pos + 4 + extensionLength then return none
      else if extensionId = 0 then
        match ← hostNameChecked request len pos extensionLength with
        | none => return none
        | some domain => return getDomainInfo d domain
      else sniLoopChecked d request len fuel (pos + 4 + extensionLength)

/-- `get_sni_domain_info`. -/
def getSniDomainInfoChecked (d : ProxyDomains) (request : Bytes) (len : ℕ) :
    Except Fault (Option DomainInfo) :=
  if len < 78 then return none
  else do
    let cipherSuitesLength ← fetchLength request 76
    if len < 78 + (cipherSuitesLength + 4) then return none
    else sniLoopChecked d request len len (78 + cipherSuitesLength + 4)

/-- The loop that skips GREASE cipher suites. -/
def skipGreaseChecked (hello : Bytes) : ℕ → ℕ → Except Fault (ℕ × ℕ)
  | n + 2, pos => do
    let hi ← fetchByte hello pos
    if (hi &&& 0x0f) = 0x0a then
      let lo ← fetchByte hello (pos + 1)
      if (lo &&& 0x0f) = 0x0a then skipGreaseChecked hello n (pos + 2) else return (n + 2, pos)
    else return (n + 2, pos)
  | n, pos => return (n, pos)

/-- The search for a supported cipher suite. -/
def cipherSuiteIdChecked (hello : Bytes) (readLen : ℕ) : Except Fault (Option UInt8) := do
  let cipherSuitesLength ← fetchLength hello 76
  if readLen < 78 + cipherSuitesLength then return none
  else
    let (left, pos) ← skipGreaseChecked hello cipherSuitesLength 78
    if left ≤ 1 then return none
    else
      let hi ← fetchByte hello pos
      let lo ← fetchByte hello (pos + 1)
      if hi ≠ 0x13 ∨ lo < 0x01 ∨ 0x03 < lo then return none else return some lo

/-! ## No read is outside of the request -/

/-- The part of the loop body that reads the name. -/
def hostName (request : Bytes) (len pos extensionLength : ℕ) : Option Bytes :=
  if len < pos + 9 then none
  else if readLength request (pos + 4) + 2 ≠ extensionLength then none
  else if byteAt request (pos + 6) ≠ 0 then none
  else if readLength request (pos + 7) + 5 ≠ extensionLength then none
  else
    let domain := slice request (pos + 9) (extensionLength - 5)
    if 0 ∈ domain then none else some domain

theorem hostNameChecked_eq {request : Bytes} {pos extensionLength : ℕ}
    (hroom : pos + 4 + extensionLength ≤ request.length) :
    hostNameChecked request request.length pos extensionLength
      = .ok (hostName request request.length pos extensionLength) := by
  refine reject_eq (fun h9 => ?_)
  rw [fetchLength_ok (by omega), ok_bind]
  refine reject_eq (fun _ => ?_)
  rw [fetchByte_ok (by omega), ok_bind]
  refine reject_eq (fun _ => ?_)
  rw [fetchLength_ok (by omega), ok_bind]
  refine reject_eq (fun hinner => ?_)
  rw [fetchSlice_ok (by omega), ok_bind]
  exact reject_eq (fun _ => rfl)

/-- The loop, in terms of `hostName`. -/
theorem sniLoop_succ (d : ProxyDomains) (request : Bytes) (len fuel pos : ℕ) :
    sniLoop d request len (fuel + 1) pos =
      if len < pos + 4 then none
      else if len < pos + 4 + readLength request (pos + 2) then none
      else if readLength request pos = 0 then
        (hostName request len pos (readLength request (pos + 2))).bind (getDomainInfo d)
      else sniLoop d request len fuel (pos + 4 + readLength request (pos + 2)) := by
  have hreject : ∀ (c : Prop) [Decidable c] (x : Option Bytes),
      (if c then none else x).bind (getDomainInfo d)
        = if c then none else x.bind (getDomainInfo d) := by
    intro c _ x
    split <;> rfl
  rw [sniLoop]
  unfold hostName
  simp only [hreject, Option.bind_some]

/-- The loop stays inside the request, and ends before the rounds are used up. -/
theorem sniLoopChecked_eq {d : ProxyDomains} {request : Bytes} :
    ∀ {fuel pos : ℕ}, pos ≤ request.length → request.length + 4 ≤ pos + 4 * fuel →
      sniLoopChecked d request request.length fuel pos
        = .ok (sniLoop d request request.length fuel pos) := by
  intro fuel
  induction fuel with
  | zero =>
    intro pos hpos hfuel
    omega
  | succ fuel ih =>
    intro pos hpos hfuel
    rw [sniLoopChecked, sniLoop_succ]
    refine reject_eq (fun h4 => ?_)
    rw [fetchLength_ok (by omega), ok_bind, fetchLength_ok (by omega), ok_bind]
    refine reject_eq (fun hfits => ?_)
    split
    · rw [hostNameChecked_eq (by omega), ok_bind]
      cases hostName request request.length pos (readLength request (pos + 2)) <;> rfl
    · exact ih (by omega) (by omega)

/-- **`get_sni_domain_info` reads inside the request and ends.** -/
theorem getSniDomainInfoChecked_eq (d : ProxyDomains) (request : Bytes) :
    getSniDomainInfoChecked d request request.length
      = .ok (getSniDomainInfo d request request.length) := by
  refine reject_eq (fun h78 => ?_)
  rw [fetchLength_ok (by omega), ok_bind]
  refine reject_eq (fun hsuites => ?_)
  exact sniLoopChecked_eq (by omega) (by omega)

/-- The suites that are skipped are inside the list. -/
theorem skipGreaseChecked_eq {hello : Bytes} :
    ∀ {n pos : ℕ}, pos + n ≤ hello.length →
      skipGreaseChecked hello n pos = .ok (skipGrease hello n pos) := by
  intro n pos
  induction n, pos using skipGrease.induct hello with
  | case1 pos n hgrease ih =>
    intro hroom
    rw [skipGreaseChecked, skipGrease, if_pos hgrease, fetchByte_ok (by omega), ok_bind,
      if_pos hgrease.1, fetchByte_ok (by omega), ok_bind, if_pos hgrease.2]
    exact ih (by omega)
  | case2 pos n hother =>
    intro hroom
    rw [skipGreaseChecked, skipGrease, if_neg hother, fetchByte_ok (by omega), ok_bind]
    split
    · rename_i hhi
      rw [fetchByte_ok (by omega), ok_bind, if_neg (fun hlo => hother ⟨hhi, hlo⟩)]
      rfl
    · rfl
  | case3 n pos hshort =>
    intro hroom
    rcases n with - | - | n
    · rfl
    · rfl
    · exact absurd rfl (hshort n)

/-- The list that is left is inside the list that was there. -/
theorem skipGrease_room {hello : Bytes} {n pos : ℕ} :
    (skipGrease hello n pos).2 + (skipGrease hello n pos).1 = pos + n := by
  induction n, pos using skipGrease.induct hello with
  | case1 pos n hgrease ih =>
    rw [skipGrease, if_pos hgrease, ih]
    omega
  | case2 pos n hother =>
    rw [skipGrease, if_neg hother]
  | case3 n pos hshort =>
    rcases n with - | - | n
    · rfl
    · rfl
    · exact absurd rfl (hshort n)

/-- **The scan of the cipher suites reads inside the ClientHello and ends.** -/
theorem cipherSuiteIdChecked_eq {hello : Bytes} (hlen : 78 ≤ hello.length) :
    cipherSuiteIdChecked hello hello.length = .ok (cipherSuiteId hello hello.length) := by
  unfold cipherSuiteIdChecked
  rw [fetchLength_ok hlen, ok_bind]
  refine reject_eq (fun hroom => ?_)
  rw [skipGreaseChecked_eq (by omega), ok_bind]
  have hleft : (skipGrease hello (readLength hello 76) 78).2
      + (skipGrease hello (readLength hello 76) 78).1 = 78 + readLength hello 76 := skipGrease_room
  cases hskip : skipGrease hello (readLength hello 76) 78 with
  | mk left pos =>
  rw [hskip] at hleft
  dsimp only at hleft ⊢
  by_cases hshort : left ≤ 1
  · rw [if_pos hshort, if_pos (Or.inl hshort)]
    rfl
  · rw [if_neg hshort, fetchByte_ok (by omega), ok_bind, fetchByte_ok (by omega), ok_bind]
    simp only [hshort, false_or]
    exact reject_eq (fun _ => rfl)

/-! ## The name -/

/-- An extension with its bounds. -/
structure Extension where
  id : ℕ
  body : Bytes
  id_lt : id < 2 ^ 16
  body_lt : body.length < 2 ^ 16

/-- The bytes of a list of extensions. -/
def extensionBytes (exts : List Extension) : Bytes :=
  (exts.map (fun e => extension e.id e.body)).flatten

/-- The body of a `server_name` extension with one entry: the list, the type `host_name`, the
name. -/
def hostNameBody (name : Bytes) : Bytes :=
  lengthBytes (name.length + 3) ++ ([0x00] ++ (lengthBytes name.length ++ name))

theorem length_hostNameBody (name : Bytes) : (hostNameBody name).length = name.length + 5 := by
  simp only [hostNameBody, List.length_append, length_lengthBytes, List.length_singleton]
  omega

/-- **The server name in an extension list** that starts at `pos`: the list has an extension
with the id 0, which is no truncated one and behind no truncated one, and the first of these is
filled by one entry with this name. -/
def NameFrom (request : Bytes) (pos : ℕ) (name : Bytes) : Prop :=
  ∃ (before : List Extension) (rest : Bytes), (∀ e ∈ before, e.id ≠ 0) ∧
    request.drop pos = extensionBytes before ++ (extension 0 (hostNameBody name) ++ rest) ∧
    (hostNameBody name).length < 2 ^ 16 ∧ 0 ∉ name

/-- The name in a ClientHello: the extensions start behind the cipher suites, the compression
methods and the length of the extensions. -/
def SniName (request name : Bytes) : Prop :=
  NameFrom request (78 + readLength request 76 + 4) name

/-- **The extensions whose name is taken** are those filled by one entry. -/
theorem hostName_eq_some_iff {request : Bytes} {pos extensionLength : ℕ} {name : Bytes}
    (hroom : pos + 4 + extensionLength ≤ request.length) (hlt : extensionLength < 2 ^ 16) :
    hostName request request.length pos extensionLength = some name ↔
      slice request (pos + 4) extensionLength = hostNameBody name ∧ 0 ∉ name := by
  constructor
  · intro h
    unfold hostName at h
    simp only [Option.ite_none_left_eq_some, not_not, Option.some.injEq] at h
    obtain ⟨h9, hinner, htype, hlength, hzero, rfl⟩ := h
    refine ⟨?_, hzero⟩
    have hname : (slice request (pos + 9) (extensionLength - 5)).length = extensionLength - 5 :=
      length_slice _ _ _ (by omega)
    -- each check pins down one field of the body; joined they are the body
    have hinner' : slice request (pos + 4) 2 = lengthBytes (extensionLength - 5 + 3) :=
      (slice_eq_lengthBytes_iff (by omega) (by omega)).mpr (by omega)
    have htype' : slice request (pos + 4 + 2) 1 = [0x00] := by
      rw [slice_one (by omega), htype]
    have hlength' : slice request (pos + 4 + 2 + 1) 2 = lengthBytes (extensionLength - 5) :=
      (slice_eq_lengthBytes_iff (by omega) (by omega)).mpr (Nat.eq_sub_of_add_eq hlength)
    have hdrop := join_drop hinner' <| join_drop htype' <| join_drop hlength' <|
      join_drop (show slice request (pos + 4 + 2 + 1 + 2) (extensionLength - 5) = _ from rfl) rfl
    have hbody : request.drop (pos + 4)
        = hostNameBody (slice request (pos + 9) (extensionLength - 5))
          ++ request.drop (pos + 9 + (extensionLength - 5)) := by
      unfold hostNameBody
      rw [hname, hdrop]
      simp only [List.append_assoc]
    exact (cut_drop hbody (by rw [length_hostNameBody, hname]; omega)).1
  · rintro ⟨hbody, hzero⟩
    have hlen : extensionLength = name.length + 5 := by
      rw [← length_hostNameBody, ← hbody, length_slice _ _ _ hroom]
    -- the other way: cut the body into its fields and run the checks
    have hdrop := join_drop hbody rfl
    unfold hostNameBody at hdrop
    simp only [List.append_assoc] at hdrop
    obtain ⟨hinner, h₆⟩ := cut_drop hdrop (length_lengthBytes _)
    obtain ⟨htype, h₇⟩ := cut_drop h₆ (show _ = 1 from rfl)
    obtain ⟨hlength, h₉⟩ := cut_drop h₇ (length_lengthBytes _)
    obtain ⟨hname, -⟩ := cut_drop h₉ (show name.length = extensionLength - 5 by omega)
    have hinner' : readLength request (pos + 4) = name.length + 3 :=
      (slice_eq_lengthBytes_iff (by omega) (by omega)).mp hinner
    have htype' : byteAt request (pos + 6) = 0x00 := byteAt_eq_slice htype
    have hlength' : readLength request (pos + 7) = name.length :=
      (slice_eq_lengthBytes_iff (by omega) (by omega)).mp hlength
    have hname' : slice request (pos + 9) (extensionLength - 5) = name := hname
    unfold hostName
    rw [if_neg (by omega), hinner', if_neg (by omega), htype', if_neg (not_not.mpr rfl), hlength',
      if_neg (by omega)]
    dsimp only
    rw [hname', if_neg hzero]

/-- The extension at a position. -/
theorem nameFrom_of_extension {request name : Bytes} {pos : ℕ}
    (hroom : pos + 4 + readLength request (pos + 2) ≤ request.length)
    (hid : readLength request pos ≠ 0)
    (h : NameFrom request (pos + 4 + readLength request (pos + 2)) name) :
    NameFrom request pos name := by
  obtain ⟨before, rest, hbefore, hdrop, hlt, hzero⟩ := h
  have hbody : (slice request (pos + 4) (readLength request (pos + 2))).length < 2 ^ 16 := by
    rw [length_slice _ _ _ hroom]
    exact readLength_lt request (pos + 2)
  let e : Extension :=
    ⟨readLength request pos, slice request (pos + 4) (readLength request (pos + 2)),
      readLength_lt request pos, hbody⟩
  refine ⟨e :: before, rest, ?_, ?_, hlt, hzero⟩
  · intro e' he'
    rcases List.mem_cons.mp he' with rfl | hmem
    · exact hid
    · exact hbefore e' hmem
  · rw [← extension_append_drop rfl rfl hroom, hdrop]
    simp only [extensionBytes, List.map_cons, List.flatten_cons, List.append_assoc, e]

theorem nameFrom_of_hostName {request name : Bytes} {pos : ℕ}
    (hroom : pos + 4 + readLength request (pos + 2) ≤ request.length)
    (hid : readLength request pos = 0)
    (hbody : slice request (pos + 4) (readLength request (pos + 2)) = hostNameBody name)
    (hzero : 0 ∉ name) : NameFrom request pos name := by
  refine ⟨[], request.drop (pos + 4 + readLength request (pos + 2)), nofun, ?_, ?_, hzero⟩
  · rw [← hbody, ← extension_append_drop hid rfl hroom]
    rfl
  · rw [← hbody, length_slice _ _ _ hroom]
    exact readLength_lt request (pos + 2)

/-- **What the loop reads** at the start of a list with a name: it is the extension with the
name, or one before it. -/
theorem NameFrom.read {request name : Bytes} {pos : ℕ} (h : NameFrom request pos name) :
    pos + 4 + readLength request (pos + 2) ≤ request.length ∧
      (readLength request pos = 0 ∧
          slice request (pos + 4) (readLength request (pos + 2)) = hostNameBody name ∧ 0 ∉ name ∨
        readLength request pos ≠ 0 ∧
          NameFrom request (pos + 4 + readLength request (pos + 2)) name) := by
  obtain ⟨before, rest, hbefore, hdrop, hlt, hzero⟩ := h
  have hroom : ∀ {id : ℕ} {body tail : Bytes}, request.drop pos = extension id body ++ tail →
      pos + 4 + body.length ≤ request.length := by
    intro id body tail hcut
    -- what is left from `pos` on is at least as long as the extension
    have hlen := congrArg List.length hcut
    rw [List.length_drop, List.length_append, length_extension] at hlen
    omega
  cases before with
  | nil =>
    have hcut : request.drop pos = extension 0 (hostNameBody name) ++ rest := hdrop
    obtain ⟨hid, hlength, hbody, -⟩ := cut_extension (by norm_num) hlt hcut
    rw [hlength]
    exact ⟨hroom hcut, Or.inl ⟨hid, hbody, hzero⟩⟩
  | cons e before =>
    have hcut : request.drop pos = extension e.id e.body
        ++ (extensionBytes before ++ (extension 0 (hostNameBody name) ++ rest)) := by
      rw [hdrop]
      simp only [extensionBytes, List.map_cons, List.flatten_cons, List.append_assoc]
    obtain ⟨hid, hlength, -, hnext⟩ := cut_extension e.id_lt e.body_lt hcut
    rw [hlength, hid]
    refine ⟨hroom hcut, Or.inr ⟨hbefore e List.mem_cons_self, before, rest, ?_, hnext, hlt, hzero⟩⟩
    exact fun e' he' => hbefore e' (List.mem_cons_of_mem _ he')

/-- **The loop finds the name,** if there is one, and looks it up. -/
theorem sniLoop_eq_some_iff {d : ProxyDomains} {request : Bytes} {info : DomainInfo} :
    ∀ {fuel pos : ℕ}, pos ≤ request.length → request.length + 4 ≤ pos + 4 * fuel →
      (sniLoop d request request.length fuel pos = some info ↔
        ∃ name, NameFrom request pos name ∧ getDomainInfo d name = some info) := by
  intro fuel
  induction fuel with
  | zero =>
    intro pos hpos hfuel
    omega
  | succ fuel ih =>
    intro pos hpos hfuel
    rw [sniLoop_succ]
    -- a list with a name fits at every extension up to that one, so the loop cannot stop earlier
    by_cases hfits : pos + 4 + readLength request (pos + 2) ≤ request.length
    · rw [if_neg (by omega), if_neg (by omega)]
      have hlt := readLength_lt request (pos + 2)
      split
      · rename_i hid
        rw [Option.bind_eq_some_iff]
        refine exists_congr fun name => and_congr_left fun _ => ?_
        rw [hostName_eq_some_iff hfits hlt]
        constructor
        · rintro ⟨hbody, hzero⟩
          exact nameFrom_of_hostName hfits hid hbody hzero
        · intro hname
          obtain ⟨-, ⟨-, hbody, hzero⟩ | ⟨hne, -⟩⟩ := hname.read
          · exact ⟨hbody, hzero⟩
          · exact absurd hid hne
      · rename_i hid
        rw [ih hfits (by omega)]
        refine exists_congr fun name => and_congr_left fun _ => ?_
        constructor
        · exact nameFrom_of_extension hfits hid
        · intro hname
          obtain ⟨-, ⟨hz, -⟩ | ⟨-, hnext⟩⟩ := hname.read
          · exact absurd hz hid
          · exact hnext
    · have hnone : ¬ ∃ name, NameFrom request pos name ∧ getDomainInfo d name = some info := by
        rintro ⟨name, hname, -⟩
        exact hfits hname.read.1
      refine iff_of_false ?_ hnone
      split
      · exact nofun
      · rw [if_pos (by omega)]
        exact nofun

/-! ## The registered domains -/

/-- The domains of a start of the proxy, in the order in which they are added. -/
def registeredDomains (infos : List DomainInfo) : ProxyDomains :=
  infos.foldl (fun d info => tcpRpcAddProxyDomain info d) ProxyDomains.empty

/-- A domain that is added is found; the others are found as before. -/
theorem getDomainInfo_add (d : ProxyDomains) (info : DomainInfo) (name : Bytes) :
    getDomainInfo (tcpRpcAddProxyDomain info d) name =
      if info.domain = name then some info else getDomainInfo d name := by
  unfold getDomainInfo tcpRpcAddProxyDomain
  by_cases hname : info.domain = name
  · subst hname
    simp only [Function.update_self, if_true]
    exact List.find?_cons_of_pos (decide_eq_true rfl)
  -- another name: the bucket is untouched, or its first element is passed over
  · rw [if_neg hname]
    by_cases hbucket : getDomainInfoBucket name = getDomainInfoBucket info.domain
    · rw [hbucket]
      simp only [Function.update_self]
      exact List.find?_cons_of_neg (by simpa using hname)
    · simp only [Function.update_of_ne hbucket]

/-- The domain that was registered last under a name. -/
def lastRegistered (infos : List DomainInfo) (name : Bytes) : Option DomainInfo :=
  infos.reverse.find? (fun info => info.domain = name)

/-- **The buckets make no difference.** -/
theorem getDomainInfo_registered (infos : List DomainInfo) (name : Bytes) :
    getDomainInfo (registeredDomains infos) name = lastRegistered infos name := by
  unfold registeredDomains lastRegistered
  induction infos using List.reverseRecOn with
  | nil => rfl
  | append_singleton infos info ih =>
    rw [List.foldl_concat, getDomainInfo_add, ih, List.reverse_concat]
    by_cases hname : info.domain = name
    · rw [if_pos hname]
      exact (List.find?_cons_of_pos (by simpa using hname)).symm
    · rw [if_neg hname]
      exact (List.find?_cons_of_neg (by simpa using hname)).symm

/-- **What `get_sni_domain_info` finds.** -/
theorem getSniDomainInfo_eq_some_iff {d : ProxyDomains} {hello : Bytes} {info : DomainInfo}
    (hlen : 78 ≤ hello.length) :
    getSniDomainInfo d hello hello.length = some info ↔
      ∃ name, SniName hello name ∧ getDomainInfo d name = some info := by
  unfold getSniDomainInfo SniName
  rw [if_neg (by omega)]
  dsimp only
  split
  · rename_i hshort
    apply iff_of_false nofun
    rintro ⟨name, hname, -⟩
    have hroom := hname.read.1
    omega
  · rename_i hroom
    exact sniLoop_eq_some_iff (by omega) (by omega)

/-- **The ClientHello is parsed within its bounds, and the domain that is found is the one that
was registered under its server name.** -/
theorem sni_parse (infos : List DomainInfo) (hello : Bytes) (hlen : 517 ≤ hello.length) :
    (∃ res, getSniDomainInfoChecked (registeredDomains infos) hello hello.length = .ok res) ∧
      (∃ res, cipherSuiteIdChecked hello hello.length = .ok res) ∧
      ∀ info, getSniDomainInfoChecked (registeredDomains infos) hello hello.length
          = .ok (some info) ↔
        ∃ name, SniName hello name ∧ lastRegistered infos name = some info := by
  rw [getSniDomainInfoChecked_eq, cipherSuiteIdChecked_eq (by omega)]
  refine ⟨⟨_, rfl⟩, ⟨_, rfl⟩, fun info => ?_⟩
  rw [Except.ok.injEq, getSniDomainInfo_eq_some_iff (by omega)]
  refine exists_congr fun name => and_congr_right fun _ => ?_
  rw [getDomainInfo_registered]

/-- A ClientHello without cipher suites whose first extension has the name `a`. -/
def namedHello : Bytes :=
  List.replicate 82 0 ++ (extension 0 (hostNameBody [97]) ++ List.replicate 500 0)

/-- The domain `a`, not yet probed. -/
def sampleDomain : DomainInfo := ⟨[97], 0, [], 0, false, false⟩

theorem sni_parse_sampleHello :
    getSniDomainInfoChecked (registeredDomains [sampleDomain]) namedHello namedHello.length
      = .ok (some sampleDomain) :=
  ((sni_parse [sampleDomain] namedHello (by decide +kernel)).2.2 sampleDomain).mpr
    ⟨[97], ⟨[], List.replicate 500 0, nofun, by decide +kernel, by decide, by decide⟩, rfl⟩

end MtprotoProxy
