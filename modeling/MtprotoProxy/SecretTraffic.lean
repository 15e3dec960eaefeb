/-
# Handshakes and traffic on the secret store

`ext_format_remote_ip`, `ext_metrics_attach_secret_to_connection` and
`tcp_rpcs_note_connection_traffic` of `net/net-tcp-rpc-ext-server.c`: what an accepted
handshake and the bytes of its connection leave in the store.

Of a connection these functions read its peer address and `D->extra_int2`, the id of
the secret it was accepted under.
-/
import MtprotoProxy.SecretStore

namespace MtprotoProxy

open CLib

/-- The peer address of a connection, with the text `inet_ntop` gives for the IPv6
form (`none`: it fails). -/
structure PeerAddr where
  remoteIp : UInt32
  remoteIpv6 : Bytes
  ntop6 : Option Bytes

/-- `inet_ntop (AF_INET, …)` of an address in host order: four decimal numbers. -/
def inetNtop4 (ip : UInt32) : Bytes :=
  [46].intercalate ([ip >>> 24, ip >>> 16, ip >>> 8, ip].map (fun x => fmtNat (x &&& 255).toNat))

/-- `ext_format_remote_ip`. -/
def extFormatRemoteIp (C : PeerAddr) : Bytes :=
  if C.remoteIp ≠ 0 then inetNtop4 C.remoteIp
  else if C.remoteIpv6 = List.replicate 16 0 then []
  else C.ntop6.getD []

/-- The fields an accepted handshake writes to the entry of its secret. -/
def noteSeen (now : TimeT) (C : PeerAddr) (E : ExtSecretEntry) : ExtSecretEntry :=
  let ipbuf := cstr (extFormatRemoteIp C)
  { E with
    lastIp := if ipbuf ≠ [] then extSanitizeIp ipbuf else E.lastIp
    lastSeenAt := now.val }

/-- `ext_secret_metrics[id].connections++`. -/
def ExtSecretMetric.countConnection (m : ExtSecretMetric) : ExtSecretMetric :=
  { m with connections := m.connections + 1 }

/-- `ext_metrics_attach_secret_to_connection`: the new `D->extra_int2` and the store. -/
def extMetricsAttachSecretToConnection (now : TimeT) (C : PeerAddr) (extraInt2 secretId : ℤ)
    (s : ExtStore) : ℤ × ExtStore :=
  if secretId ≤ 0 ∨ extraInt2 = secretId then (extraInt2, s)
  else
    let s₁ :=
      if secretId < s.extSecretMetricsCap then
        s.setMetric secretId (s.metric secretId).countConnection
      else s
    let s₂ :=
      match extFindIdxByIdLocked s₁ secretId with
      | none => s₁
      | some idx => s₁.modifyEntry idx (noteSeen now C)
    (secretId, { s₂ with extTotalConnections := s₂.extTotalConnections + 1 })

/-- The value `__sync_fetch_and_add` adds for a byte count: nothing unless it is
positive. -/
def countedBytes (n : ℤ) : Int64 := if 0 < n then Int64.ofInt n else 0

/-- The two counters `tcp_rpcs_note_connection_traffic` increments in a cell. -/
def ExtSecretMetric.countTraffic (m : ExtSecretMetric) (bytesIn bytesOut : ℤ) :
    ExtSecretMetric :=
  { m with
    bytesIn := m.bytesIn + countedBytes bytesIn
    bytesOut := m.bytesOut + countedBytes bytesOut }

/-- `tcp_rpcs_note_connection_traffic` for a connection with `D->extra_int2 = secretId`. -/
def tcpRpcsNoteConnectionTraffic (secretId bytesIn bytesOut : ℤ) (s : ExtStore) : ExtStore :=
  if bytesIn ≤ 0 ∧ bytesOut ≤ 0 then s
  else if 0 < secretId ∧ secretId < s.extSecretMetricsCap then
    { s.setMetric secretId ((s.metric secretId).countTraffic bytesIn bytesOut) with
      extTotalBytesIn := s.extTotalBytesIn + countedBytes bytesIn
      extTotalBytesOut := s.extTotalBytesOut + countedBytes bytesOut }
  else s

/-! ## What an accepted handshake can do -/

/-- **What `ext_metrics_attach_secret_to_connection` can do**: nothing, or count the
connection and touch at most the entry of the secret. -/
theorem extMetricsAttach_cases (now : TimeT) (C : PeerAddr) (extraInt2 secretId : ℤ)
    (s : ExtStore) :
    extMetricsAttachSecretToConnection now C extraInt2 secretId s = (extraInt2, s) ∨
      (0 < secretId ∧ ∃ s' : ExtStore,
        extMetricsAttachSecretToConnection now C extraInt2 secretId s = (secretId, s') ∧
        (s'.extSecrets = s.extSecrets ∨
          ∃ idx, s'.extSecrets = s.extSecrets.modify idx (noteSeen now C)) ∧
        s'.extSecretNextId = s.extSecretNextId ∧ s'.extSecretCap = s.extSecretCap ∧
        s'.extSecretStateFile = s.extSecretStateFile ∧
        s'.extTotalBytesIn = s.extTotalBytesIn ∧ s'.extTotalBytesOut = s.extTotalBytesOut ∧
        s'.extTotalConnections = s.extTotalConnections + 1 ∧
        s'.extSecretMetrics =
          if secretId < s.extSecretMetricsCap then
            s.extSecretMetrics.set secretId.toNat (s.metric secretId).countConnection
          else s.extSecretMetrics) := by
  unfold extMetricsAttachSecretToConnection
  by_cases hskip : secretId ≤ 0 ∨ extraInt2 = secretId
  · exact Or.inl (if_pos hskip)
  · right
    rw [if_neg hskip]
    refine ⟨by omega, _, rfl, ?_⟩
    set s₁ :=
      if secretId < s.extSecretMetricsCap then
        s.setMetric secretId (s.metric secretId).countConnection
      else s with hs₁
    have hent : s₁.extSecrets = s.extSecrets := by rw [hs₁]; split <;> rfl
    have hmet : s₁.extSecretMetrics =
        if secretId < s.extSecretMetricsCap then
          s.extSecretMetrics.set secretId.toNat (s.metric secretId).countConnection
        else s.extSecretMetrics := by
      rw [hs₁]
      split <;> rfl
    have hrest : s₁.extSecretNextId = s.extSecretNextId ∧ s₁.extSecretCap = s.extSecretCap ∧
        s₁.extSecretStateFile = s.extSecretStateFile ∧
        s₁.extTotalBytesIn = s.extTotalBytesIn ∧ s₁.extTotalBytesOut = s.extTotalBytesOut ∧
        s₁.extTotalConnections = s.extTotalConnections := by
      rw [hs₁]
      split <;> exact ⟨rfl, rfl, rfl, rfl, rfl, rfl⟩
    obtain ⟨hnext, hcap, hfile, hin, hout, hconn⟩ := hrest
    cases extFindIdxByIdLocked s₁ secretId with
    | none => exact ⟨Or.inl hent, hnext, hcap, hfile, hin, hout, by rw [← hconn], hmet⟩
    | some idx =>
      refine ⟨Or.inr ⟨idx, ?_⟩, hnext, hcap, hfile, hin, hout, ?_, hmet⟩
      · rw [← hent]
        rfl
      · rw [← hconn]
        rfl

/-- Counting traffic touches counters only. -/
theorem tcpRpcsNoteConnectionTraffic_cases (secretId bytesIn bytesOut : ℤ) (s : ExtStore) :
    tcpRpcsNoteConnectionTraffic secretId bytesIn bytesOut s = s ∨
      (0 < secretId ∧ secretId < s.extSecretMetricsCap ∧
        tcpRpcsNoteConnectionTraffic secretId bytesIn bytesOut s =
          { s with
            extSecretMetrics := s.extSecretMetrics.set secretId.toNat
              ((s.metric secretId).countTraffic bytesIn bytesOut)
            extTotalBytesIn := s.extTotalBytesIn + countedBytes bytesIn
            extTotalBytesOut := s.extTotalBytesOut + countedBytes bytesOut }) := by
  unfold tcpRpcsNoteConnectionTraffic
  by_cases hnone : bytesIn ≤ 0 ∧ bytesOut ≤ 0
  · exact Or.inl (if_pos hnone)
  · rw [if_neg hnone]
    by_cases hid : 0 < secretId ∧ secretId < s.extSecretMetricsCap
    · exact Or.inr ⟨hid.1, hid.2, if_pos hid⟩
    · exact Or.inl (if_neg hid)

end MtprotoProxy
