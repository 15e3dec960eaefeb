/-
# The TLS domains and the ClientHello

The registered proxy domains of `net/net-tcp-rpc-ext-server.c`
(`tcp_rpc_add_proxy_domain`, `get_domain_info`), what the proxy reads out of a ClientHello
(`get_sni_domain_info`, the scan of the cipher suites), and the ServerHello it answers
with.

The positions in the buffers are natural numbers: a length read from two bytes is never
negative, and the buffers hold at most 4096 bytes.
-/
import MtprotoProxy.ReplayCache

namespace MtprotoProxy

open CLib

/-! ## The registered domains -/

/-- `struct domain_info`; `target` is `target.s_addr`. -/
structure DomainInfo where
  domain : Bytes
  target : UInt32
  targetIpv6 : Bytes
  serverHelloEncryptedSize : ℤ
  useRandomEncryptedSize : Bool
  isReversedExtensionOrder : Bool
  deriving DecidableEq

/-- `DOMAIN_HASH_MOD`. -/
def domainHashMod : ℕ := 257

/-- `get_domain_info_bucket`. -/
def getDomainInfoBucket (domain : Bytes) : ℕ :=
  (domain.foldl (fun hash b => hash * 239017 + UInt32.ofNat b.toNat) (0 : UInt32)).toNat
    % domainHashMod

/-- `domains`, `allow_only_tls` and `default_domain_info`.  The first domain that is added
sets the other two together. -/
structure ProxyDomains where
  domains : ℕ → List DomainInfo
  allowOnlyTls : Bool
  defaultDomainInfo : Option DomainInfo
  coupled : allowOnlyTls = defaultDomainInfo.isSome

/-- The variables at process start. -/
def ProxyDomains.empty : ProxyDomains := ⟨fun _ => [], false, none, rfl⟩

/-- `tcp_rpc_add_proxy_domain`, with what `tcp_rpc_init_proxy_domains` finds out about
the domain before the first connection. -/
def tcpRpcAddProxyDomain (info : DomainInfo) (d : ProxyDomains) : ProxyDomains where
  domains := Function.update d.domains (getDomainInfoBucket info.domain)
    (info :: d.domains (getDomainInfoBucket info.domain))
  allowOnlyTls := true
  defaultDomainInfo := some (d.defaultDomainInfo.getD info)
  coupled := rfl

/-- `get_domain_info`. -/
def getDomainInfo (d : ProxyDomains) (domain : Bytes) : Option DomainInfo :=
  (d.domains (getDomainInfoBucket domain)).find? (fun info => info.domain = domain)

/-! ## Reading a ClientHello -/

/-- `read_length` at position `pos`. -/
def readLength (response : Bytes) (pos : ℕ) : ℕ :=
  (byteAt response pos).toNat * 256 + (byteAt response (pos + 1)).toNat

/-- The loop of `get_sni_domain_info` over the extensions; a round moves `pos` by at
least four bytes. -/
def sniLoop (d : ProxyDomains) (request : Bytes) (len : ℕ) : ℕ → ℕ → Option DomainInfo
  | 0, _ => none
  | fuel + 1, pos =>
    if len < pos + 4 then none
    else
      let extensionId := readLength request pos
      let extensionLength := readLength request (pos + 2)
      if len < pos + 4 + extensionLength then none
      else if extensionId = 0 then
        if len < pos + 9 then none
        else if readLength request (pos + 4) + 2 ≠ extensionLength then none
        else if byteAt request (pos + 6) ≠ 0 then none
        else if readLength request (pos + 7) + 5 ≠ extensionLength then none
        else
          let domain := slice request (pos + 9) (extensionLength - 5)
          if 0 ∈ domain then none else getDomainInfo d domain
      else sniLoop d request len fuel (pos + 4 + extensionLength)

/-- `get_sni_domain_info`; `none` is `NULL`. -/
def getSniDomainInfo (d : ProxyDomains) (request : Bytes) (len : ℕ) : Option DomainInfo :=
  if len < 78 then none
  else
    let cipherSuitesLength := readLength request 76
    if len < 78 + (cipherSuitesLength + 4) then none
    else sniLoop d request len len (78 + cipherSuitesLength + 4)

/-- The loop that skips GREASE cipher suites: the length that is left, and the position. -/
def skipGrease (hello : Bytes) : ℕ → ℕ → ℕ × ℕ
  | n + 2, pos =>
    if (byteAt hello pos &&& 0x0f) = 0x0a ∧ (byteAt hello (pos + 1) &&& 0x0f) = 0x0a then
      skipGrease hello n (pos + 2)
    else (n + 2, pos)
  | n, pos => (n, pos)

/-- The search for a supported cipher suite: `cipher_suite_id`. -/
def cipherSuiteId (hello : Bytes) (readLen : ℕ) : Option UInt8 :=
  let cipherSuitesLength := readLength hello 76
  if readLen < 78 + cipherSuitesLength then none
  else
    let (left, pos) := skipGrease hello cipherSuitesLength 78
    if left ≤ 1 ∨ byteAt hello pos ≠ 0x13 ∨ byteAt hello (pos + 1) < 0x01 ∨
        0x03 < byteAt hello (pos + 1) then none
    else some (byteAt hello (pos + 1))

/-! ## The ServerHello -/

/-- What the random generators give for one ServerHello. -/
structure ServerRandomness where
  rand : ℕ
  publicKey : { b : Bytes // b.length = 32 }
  randBytes : ℕ → UInt8

/-- `get_domain_server_hello_encrypted_size`. -/
def getDomainServerHelloEncryptedSize (r : ServerRandomness) (info : DomainInfo) : ℤ :=
  if info.useRandomEncryptedSize then
    info.serverHelloEncryptedSize + ((r.rand >>> 1) &&& 1 : ℕ) - (r.rand &&& 1 : ℕ)
  else info.serverHelloEncryptedSize

/-- The `key_share` extension of the response. -/
def keyShareExtension (r : ServerRandomness) : Bytes :=
  [0x00, 0x33, 0x00, 0x24, 0x00, 0x1d, 0x00, 0x20] ++ r.publicKey.val

/-- The `supported_versions` extension of the response. -/
def supportedVersionsExtension : Bytes := [0x00, 0x2b, 0x00, 0x02, 0x03, 0x04]

/-- The two extensions in the order of the domain. -/
def serverExtensions (r : ServerRandomness) (info : DomainInfo) : Bytes :=
  if info.isReversedExtensionOrder then supportedVersionsExtension ++ keyShareExtension r
  else keyShareExtension r ++ supportedVersionsExtension

/-- `response_buffer`, with `serverRandom` in its bytes 11 to 42. -/
def responseBuffer (r : ServerRandomness) (info : DomainInfo) (hello serverRandom : Bytes)
    (suite : UInt8) : Bytes :=
  let size := getDomainServerHelloEncryptedSize r info
  [0x16, 0x03, 0x03, 0x00, 0x7a, 0x02, 0x00, 0x00, 0x76, 0x03, 0x03] ++ serverRandom ++ [0x20]
    ++ slice hello 44 32 ++ [0x13, suite, 0x00, 0x00, 0x2e] ++ serverExtensions r info
    ++ [0x14, 0x03, 0x03, 0x00, 0x01, 0x01, 0x17, 0x03, 0x03]
    ++ [UInt8.ofInt (size.tdiv 256), UInt8.ofInt (size.tmod 256)]
    ++ (List.range size.toNat).map r.randBytes

/-- The ServerHello for a ClientHello that was accepted under `secret`: its random is the
HMAC of the client random and the response with a zero random.  `none` is the assertion
on the room for the extensions. -/
def serverHello (hmac : Bytes → Bytes → Bytes) (r : ServerRandomness) (info : DomainInfo)
    (secret : Secret) (hello : Bytes) (suite : UInt8) : Option Bytes :=
  let responseSize := 138 + getDomainServerHelloEncryptedSize r info
  let needed : ℤ := if info.isReversedExtensionOrder then 127 else 126
  if responseSize < needed then none
  else
    let zeroed := responseBuffer r info hello (List.replicate 32 0) suite
    some (responseBuffer r info hello (hmac secret.val (clientRandomOf hello ++ zeroed)) suite)

end MtprotoProxy
