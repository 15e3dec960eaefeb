/-
# The filter for unencrypted packets

A packet with the authorization key 0 may only carry one of the four functions of the key
exchange.  `forward_mtproto_packet` compares `inner_len + 20` with the length of the packet in
`int` arithmetic, and this sum wraps around for the twenty greatest values of `inner_len`.
`unencrypted_filter_iff` says that exactly these let a packet through whose inner length is
wrong.
-/
import MtprotoProxy.ClientBinding

namespace MtprotoProxy

open CLib

/-! ## The law of the filter -/

/-- `inner_len = header[4]`. -/
def innerLength (data : Bytes) : ℤ := asInt32 (le32 (data.drop 16))

/-- `function = header[5]`. -/
def functionId (data : Bytes) : ℕ := le32 (data.drop 20)

/-- **A well-formed message of the key exchange.**  The bounds on the inner length are those of
integers. -/
structure IsKeyExchange (data : Bytes) : Prop where
  aligned : data.length % 4 = 0
  long : 28 ≤ data.length
  inner_ge : 20 ≤ innerLength data
  inner_le : innerLength data ≤ data.length - 20
  function_mem : functionId data ∈ handshakeFunctions

/-- A packet with these bytes is forwarded only if it belongs to the key exchange. -/
def OnlyKeyExchange (data : Bytes) : Prop :=
  ∀ net e c rpcFlags chance e',
    forwardMtprotoPacket net e c rpcFlags data chance = .ok (1, e') → IsKeyExchange data

/-- The packet passes the other checks, and `inner_len + 20` leaves the range of an `int`. -/
def InnerLengthWraps (data : Bytes) : Prop :=
  data.length % 4 = 0 ∧ 28 ≤ data.length ∧ functionId data ∈ handshakeFunctions ∧
    2 ^ 31 ≤ innerLength data + 20 ∧ (data.length : ℤ) < innerLength data + 20

instance (data : Bytes) : Decidable (InnerLengthWraps data) :=
  inferInstanceAs (Decidable (_ ∧ _))

theorem isInt32_innerLength (data : Bytes) : IsInt32 (innerLength data) := by
  unfold innerLength asInt32
  exact isInt32_wrap32 _

/-! ## What passes the checks -/

/-- The check on the inner length, when the sum does not wrap around and when it does. -/
theorem innerCheck_iff (data : Bytes) (h20 : 20 ≤ innerLength data) :
    ¬ wrap32 (innerLength data + 20) > data.length ↔
      innerLength data ≤ data.length - 20 ∨ 2 ^ 31 ≤ innerLength data + 20 := by
  obtain ⟨-, hhi⟩ := isInt32_innerLength data
  by_cases hwrap : innerLength data + 20 < 2 ^ 31
  · rw [wrap32_of_isInt32 ⟨by omega, hwrap⟩]
    omega
  · rw [wrap32_of_ge (by omega) (by omega)]
    have hlen : (0 : ℤ) ≤ data.length := Int.natCast_nonneg _
    omega

/-- **Which packets with the key 0 pass the checks:** those of the key exchange, and those whose
inner length wraps around. -/
theorem packetQuery_isSome_iff {data : Bytes} (hkey : leLong data = 0) (rpcFlags : ℕ) :
    packetQuery rpcFlags data = some (2 ||| rpcFlags, 0) ↔
      IsKeyExchange data ∨ InnerLengthWraps data := by
  have hchecks : packetQuery rpcFlags data = some (2 ||| rpcFlags, 0) ↔
      data.length % 4 = 0 ∧ 28 ≤ data.length ∧ 20 ≤ innerLength data ∧
        ¬ wrap32 (innerLength data + 20) > data.length ∧ functionId data ∈ handshakeFunctions := by
    unfold packetQuery
    simp only [hkey, ne_eq, not_true_eq_false, if_false]
    change (if _ then none else if wrap32 (innerLength data + 20) > data.length ∨
      innerLength data < 20 then none else if functionId data ∉ handshakeFunctions then none
      else some (2 ||| rpcFlags, (0 : Int64))) = _ ↔ _
    split_ifs with hlen hinner hfun
    · refine iff_of_false nofun (fun h => ?_)
      omega
    · refine iff_of_false nofun (fun ⟨_, _, h20, hle, _⟩ => ?_)
      exact hinner.elim hle (by omega)
    · rw [not_or] at hlen hinner
      exact iff_of_true rfl ⟨by omega, by omega, by omega, hinner.1, hfun⟩
    · exact iff_of_false nofun (fun h => hfun h.2.2.2.2)
  rw [hchecks]
  constructor
  · rintro ⟨haligned, hlong, h20, hle, hfun⟩
    -- passed by the sum that fits, or by the one that wraps around to a small number
    rcases (innerCheck_iff data h20).mp hle with hle | hwrap
    · exact Or.inl ⟨haligned, hlong, h20, hle, hfun⟩
    · by_cases hfits : innerLength data ≤ data.length - 20
      · exact Or.inl ⟨haligned, hlong, h20, hfits, hfun⟩
      · exact Or.inr ⟨haligned, hlong, hfun, hwrap, by omega⟩
  · rintro (h | ⟨haligned, hlong, hfun, hwrap, -⟩)
    · exact ⟨h.aligned, h.long, h.inner_ge, (innerCheck_iff data h.inner_ge).mpr (Or.inl h.inner_le),
        h.function_mem⟩
    · have h20 : 20 ≤ innerLength data := by omega
      exact ⟨haligned, hlong, h20, (innerCheck_iff data h20).mpr (Or.inr hwrap), hfun⟩

/-- What is forwarded has passed the checks. -/
theorem packetQuery_of_forwarded {net : Net} {e e' : Engine} {c : ConnRef} {rpcFlags : ℕ}
    {data : Bytes} {chance : Chance} (hkey : leLong data = 0)
    (hok : forwardMtprotoPacket net e c rpcFlags data chance = .ok (1, e')) :
    packetQuery rpcFlags data = some (2 ||| rpcFlags, 0) := by
  rw [forwardMtprotoPacket_eq] at hok
  cases hquery : packetQuery rpcFlags data with
  | none =>
    rw [hquery] at hok
    exact absurd hok (by simp)
  | some q =>
    unfold packetQuery at hquery
    simp only [hkey, ne_eq, not_true_eq_false, if_false] at hquery
    split_ifs at hquery
    exact hquery ▸ rfl

/-! ## An engine that forwards -/

/-- The engine thread once the sample middle-end is ready. -/
def readyEngine : Engine :=
  match mtfrontClientReady .init sampleMiddleEnd with
  | .ok e => e
  | .error _ => .init

/-- Its client has no external connection yet, and gets one. -/
theorem readyEngine_spec :
    getExtConnectionByInFd readyEngine.tables sampleClient.fd = .ok .null ∧
      ∃ Ex t, createExtConnection readyEngine.tables sampleClient 0 (some sampleMiddleEnd) 0 0 []
        = .ok (Ex, t) ∧ Ex ≠ .null := by
  have hget : (getExtConnectionByInFd readyEngine.tables sampleClient.fd).toOption
      = some .null := by
    decide +kernel
  have hcreate : (createExtConnection readyEngine.tables sampleClient 0 (some sampleMiddleEnd) 0 0
      []).toOption.map (fun p => decide (p.1 ≠ .null)) = some true := by
    decide +kernel
  constructor
  · generalize getExtConnectionByInFd readyEngine.tables sampleClient.fd = result at hget ⊢
    cases result with
    | error f => exact absurd hget nofun
    | ok p => exact congrArg Except.ok (Option.some.inj hget)
  · generalize createExtConnection readyEngine.tables sampleClient 0 (some sampleMiddleEnd) 0 0 []
      = result at hcreate ⊢
    cases result with
    | error f => exact absurd hcreate nofun
    | ok p => exact ⟨p.1, p.2, rfl, of_decide_eq_true (Option.some.inj hcreate)⟩

/-- It forwards every packet that passes the checks. -/
theorem readyEngine_forwards {data : Bytes} (hquery : packetQuery 0 data = some (2, 0)) :
    ∃ e', forwardMtprotoPacket sampleNet readyEngine sampleClient 0 data sampleChance
      = .ok (1, e') := by
  obtain ⟨hget, Ex, t, hcreate, hne⟩ := readyEngine_spec
  have hchoose : chooseReady readyEngine (chooseProxyTarget readyEngine sampleChance.picks)
      sampleChance.conns = some sampleMiddleEnd := by
    decide +kernel
  have hflags : queryFlags sampleNet readyEngine sampleClient 2 &&& rpcFDropped = 0 := by
    decide +kernel
  have hhttp : sampleNet.kind sampleClient = .httpServer →
      sampleNet.awaitsHttp sampleClient = true := nofun
  have hcell : createExtConnection readyEngine.tables sampleClient 0 (some sampleMiddleEnd) 0
      sampleChance.cell sampleChance.rands = .ok (Ex, t) := hcreate
  simp only [forwardMtprotoPacket_eq, hquery, forwardTcpQuery, hget, ok_bind, pure_bind,
    keepMiddleEnd, ne_eq, not_true_eq_false, false_and, if_false, hchoose, hflags, hcell, sendQuery,
    require_ok hne, require_ok hhttp]
  exact ⟨_, rfl⟩

/-! ## When the law holds -/

/-- **The filter keeps its law** for a packet with the key 0 exactly if it does not pass the
other checks with an inner length whose sum with 20 wraps around. -/
theorem unencrypted_filter_iff (data : Bytes) (hkey : leLong data = 0) :
    OnlyKeyExchange data ↔ ¬ InnerLengthWraps data := by
  constructor
  · intro hlaw hwraps
    -- the ready engine forwards the packet, and its inner length is beyond its end
    obtain ⟨e', hok⟩ := readyEngine_forwards
      ((packetQuery_isSome_iff hkey 0).mpr (Or.inr hwraps))
    have hinner := (hlaw _ _ _ _ _ _ hok).inner_le
    have hlt := hwraps.2.2.2.2
    omega
  · intro hwraps net e c rpcFlags chance e' hok
    have hquery := packetQuery_of_forwarded hkey hok
    exact ((packetQuery_isSome_iff hkey rpcFlags).mp hquery).resolve_right hwraps

/-- `req_pq` behind the inner length `innerLen`. -/
def reqPqPacket (innerLen : ℕ) : Bytes :=
  List.replicate 16 0 ++ leBytes 4 innerLen ++ leBytes 4 0x60469778 ++ List.replicate 16 0

/-- `req_pq` with its own length keeps the law. -/
theorem unencrypted_filter_reqPq : OnlyKeyExchange (reqPqPacket 20) :=
  (unencrypted_filter_iff (reqPqPacket 20) (by decide)).mpr (by decide)

/-- **The sum wraps around:** 40 bytes are forwarded whose inner length is `2 ^ 31 - 1`. -/
theorem not_onlyKeyExchange_wraps :
    ¬ ∀ data, leLong data = 0 → OnlyKeyExchange data := by
  intro hlaw
  have hwraps : InnerLengthWraps (reqPqPacket (2 ^ 31 - 1)) := by decide
  have hkey : leLong (reqPqPacket (2 ^ 31 - 1)) = 0 := by decide
  obtain ⟨e', hok⟩ := readyEngine_forwards
    ((packetQuery_isSome_iff hkey 0).mpr (Or.inr hwraps))
  have hinner := (hlaw _ hkey _ _ _ _ _ _ hok).inner_le
  have hlt := hwraps.2.2.2.2
  omega

end MtprotoProxy
