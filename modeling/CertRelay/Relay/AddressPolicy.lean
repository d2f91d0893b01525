import CertRelay.Lib.Cidr
import CertRelay.Lib.Fallible
import CertRelay.Relay.PeerTable

/-!
# The address policy for peers

A relay contacts the peers that others tell it about.  Unless it allows private peers, it
refuses URLs with the literal of an address that is not public; a host with a name is
resolved, all its addresses are checked, and the client is pinned to them.

The parser of URLs and the resolver are not part of the repository; what they answer is a
parameter.

**Results.**
* `keptOut_iff`: an address is kept out exactly if the test refuses it.
-/

namespace CertRelay
namespace AddressPolicy

section Addresses

/-- `Ipv4Addr::octets`. -/
def octet (v4 : BitVec 32) (i : ℕ) : BitVec 8 :=
  v4.extractLsb' (8 * (3 - i)) 8

/-- `Ipv6Addr::segments`. -/
def segment (v6 : BitVec 128) (i : ℕ) : BitVec 16 :=
  v6.extractLsb' (16 * (7 - i)) 16

/-- `Ipv4Addr::is_private`. -/
def isPrivate (v4 : BitVec 32) : Bool :=
  octet v4 0 == 10 || (octet v4 0 == 172 && 16 ≤ octet v4 1 && octet v4 1 ≤ 31) ||
    (octet v4 0 == 192 && octet v4 1 == 168)

/-- `Ipv4Addr::is_loopback`. -/
def isLoopback (v4 : BitVec 32) : Bool :=
  octet v4 0 == 127

/-- `Ipv4Addr::is_link_local`. -/
def isLinkLocal (v4 : BitVec 32) : Bool :=
  octet v4 0 == 169 && octet v4 1 == 254

/-- `Ipv4Addr::is_broadcast`. -/
def isBroadcast (v4 : BitVec 32) : Bool :=
  v4 == 0xFFFFFFFF

/-- `Ipv4Addr::is_documentation`. -/
def isDocumentation (v4 : BitVec 32) : Bool :=
  (octet v4 0 == 192 && octet v4 1 == 0 && octet v4 2 == 2) ||
    (octet v4 0 == 198 && octet v4 1 == 51 && octet v4 2 == 100) ||
    (octet v4 0 == 203 && octet v4 1 == 0 && octet v4 2 == 113)

/-- `Ipv6Addr::to_ipv4_mapped`. -/
def toIpv4Mapped (v6 : BitVec 128) : Option (BitVec 32) :=
  if (List.range 5).all (fun i => segment v6 i == 0) && segment v6 5 == 0xFFFF then
    some (v6.extractLsb' 0 32)
  else none

/-- `ip_is_public` at an IPv4 address. -/
def ipv4IsPublic (v4 : BitVec 32) : Bool :=
  !(isPrivate v4 || isLoopback v4 || isLinkLocal v4 || isBroadcast v4 || isDocumentation v4 ||
    (IpAddr.v4 v4).isUnspecified || octet v4 0 == 0 ||
    (octet v4 0 == 100 && (octet v4 1 &&& 0xC0) == 64))

/-- `ip_is_public`. -/
def ipIsPublic : IpAddr → Bool
  | .v4 v4 => ipv4IsPublic v4
  | .v6 v6 =>
      match toIpv4Mapped v6 with
      | some v4 => ipv4IsPublic v4
      | none =>
          !(v6 == 1 || (IpAddr.v6 v6).isUnspecified ||
            (segment v6 0 &&& 0xFE00) == 0xFC00 ||
            (segment v6 0 &&& 0xFFC0) == 0xFE80 ||
            (segment v6 0 == 0x2001 && segment v6 1 == 0xDB8))

end Addresses

section Urls

/-- `url::Host`. -/
inductive Host
  | domain (name : String)
  | ipv4 (ip : BitVec 32)
  | ipv6 (ip : BitVec 128)

/-- What is read of a `url::Url`. -/
structure Url where
  scheme : String
  username : String
  password : Option String
  host : Option Host
  portOrKnownDefault : Option UInt16

/-- `Url::parse`. -/
abbrev UrlParser := String → Option Url

variable (parse : UrlParser)

/-- `validate_peer_url`. -/
def validatePeerUrl (raw : String) (allowPrivate : Bool) : Except String Unit :=
  match parse raw with
  | none => .error "invalid url"
  | some parsed =>
      if parsed.scheme ≠ "http" ∧ parsed.scheme ≠ "https" then
        .error "url scheme must be http or https"
      else if parsed.username ≠ "" ∨ parsed.password.isSome then
        .error "url must not contain credentials"
      else
        match parsed.host with
        | none => .error "url must have a host"
        | some (.domain _) => .ok ()
        | some (.ipv4 ip) =>
            if allowPrivate || ipIsPublic (.v4 ip) then .ok ()
            else .error "url resolves to a private address"
        | some (.ipv6 ip) =>
            if allowPrivate || ipIsPublic (.v6 ip) then .ok ()
            else .error "url resolves to a private address"

/-- The resolver at some moment, `lookup_host`. -/
abbrev Resolver := String → UInt16 → Except String (List IpAddr)

/-- A `reqwest::Client`: the shared one, or one that knows the addresses of a host. -/
inductive PeerClient
  | shared
  | resolving (domain : String) (addrs : List IpAddr)

/-- `peer_client`, with what building a client reports. -/
def peerClient (lookupHost : Resolver) (build : Except String Unit) (allowPrivatePeers : Bool)
    (url : String) : Except String PeerClient :=
  if allowPrivatePeers then .ok .shared
  else do
    validatePeerUrl parse url false
    match parse url with
    | none => .error "invalid url"
    | some parsed =>
        match parsed.host with
        | some (.domain domain) =>
            match lookupHost domain (parsed.portOrKnownDefault.getD 443) with
            | .error e => .error e
            | .ok addrs =>
                if addrs.isEmpty then .error ("peer host did not resolve: " ++ url)
                else if !addrs.all ipIsPublic then
                  .error ("peer resolves to a disallowed address: " ++ url)
                else build.map (fun _ => .resolving domain addrs)
        | some _ => .ok .shared
        | none => .error ("peer url has no host: " ++ url)

/-- The address of a host that is written as a literal. -/
def literal : Host → Option IpAddr
  | .domain _ => none
  | .ipv4 ip => some (.v4 ip)
  | .ipv6 ip => some (.v6 ip)

/-- The addresses that a client may connect to for a host; a name that the client does not
know is resolved when it connects. -/
def targets (resolved : String → List IpAddr) : PeerClient → Host → List IpAddr
  | _, .ipv4 ip => [.v4 ip]
  | _, .ipv6 ip => [.v6 ip]
  | .shared, .domain name => resolved name
  | .resolving domain addrs, .domain name => if name = domain then addrs else resolved name

end Urls

section KeptOut

variable {parse : UrlParser}

/-- An address is not public, its literal is refused, and no client that is handed out for
the URL of a peer connects to it. -/
structure KeptOut (parse : UrlParser) (ip : IpAddr) : Prop where
  notPublic : ipIsPublic ip = false
  refused : ∀ raw parsed host, parse raw = some parsed → parsed.host = some host →
    literal host = some ip → validatePeerUrl parse raw false ≠ .ok ()
  unreached : ∀ lookupHost build raw client resolved parsed host,
    peerClient parse lookupHost build false raw = .ok client → parse raw = some parsed →
    parsed.host = some host → ip ∉ targets resolved client host

/-- A literal that is accepted is public. -/
theorem ipIsPublic_of_validatePeerUrl
    {raw : String}
    (h : validatePeerUrl parse raw false = .ok ())
    {parsed : Url}
    (hparsed : parse raw = some parsed)
    {host : Host}
    (hhost : parsed.host = some host)
    {ip : IpAddr}
    (hip : literal host = some ip) :
    ipIsPublic ip = true := by
  unfold validatePeerUrl at h
  rw [hparsed] at h
  dsimp only at h
  split_ifs at h
  rw [hhost] at h
  cases host with
  | domain name =>
      cases hip
  | ipv4 v | ipv6 v =>
      cases hip
      dsimp only at h
      rw [Bool.false_or] at h
      split_ifs at h with hpublic
      exact hpublic

/-- Every client connects to a literal as it is written. -/
theorem literal_of_mem_targets
    {host : Host}
    (hlit : (literal host).isSome = true)
    {resolved : String → List IpAddr}
    {client : PeerClient}
    {ip : IpAddr}
    (hip : ip ∈ targets resolved client host) :
    literal host = some ip := by
  cases host with
  | domain name =>
      cases hlit
  | ipv4 v | ipv6 v =>
      cases client <;> exact congrArg some (List.mem_singleton.1 hip).symm

/-- A client that is handed out connects to public addresses only. -/
theorem ipIsPublic_of_peerClient
    {lookupHost : Resolver}
    {build : Except String Unit}
    {raw : String}
    {client : PeerClient}
    (h : peerClient parse lookupHost build false raw = .ok client)
    {parsed : Url}
    (hparsed : parse raw = some parsed)
    {host : Host}
    (hhost : parsed.host = some host)
    {resolved : String → List IpAddr}
    {ip : IpAddr}
    (hip : ip ∈ targets resolved client host) :
    ipIsPublic ip = true := by
  unfold peerClient at h
  rw [if_neg Bool.false_ne_true] at h
  obtain ⟨_, hvalid, h⟩ := Fallible.bind_eq_ok.1 h
  rw [hparsed] at h
  dsimp only at h
  rw [hhost] at h
  cases host with
  | domain name =>
      dsimp only at h
      cases haddrs : lookupHost name (parsed.portOrKnownDefault.getD 443) with
      | error e =>
          rw [haddrs] at h
          cases h
      | ok addrs =>
          rw [haddrs] at h
          dsimp only at h
          split_ifs at h with hempty hall
          cases build with
          | error e =>
              cases h
          | ok u =>
              cases h
              have hpinned : targets resolved (.resolving name addrs) (.domain name) = addrs :=
                if_pos rfl
              have hmem : ip ∈ targets resolved (.resolving name addrs) (.domain name) := hip
              rw [hpinned] at hmem
              have hpublic : addrs.all ipIsPublic = true := by
                simpa using hall
              exact List.all_eq_true.1 hpublic ip hmem
  | ipv4 v | ipv6 v =>
      exact ipIsPublic_of_validatePeerUrl hvalid hparsed hhost (literal_of_mem_targets rfl hip)

/-- **An address is kept out exactly if it is not public.** -/
theorem keptOut_iff
    {ip : IpAddr} :
    KeptOut parse ip ↔ ipIsPublic ip = false := by
  constructor
  · exact KeptOut.notPublic
  · intro hprivate
    have hne : ¬ ipIsPublic ip = true := by
      rw [hprivate]
      exact Bool.false_ne_true
    refine ⟨hprivate, ?_, ?_⟩
    · intro raw parsed host hparsed hhost hip hvalid
      exact hne (ipIsPublic_of_validatePeerUrl hvalid hparsed hhost hip)
    · intro lookupHost build raw client resolved parsed host hclient hparsed hhost hip
      exact hne (ipIsPublic_of_peerClient hclient hparsed hhost hip)

end KeptOut

end AddressPolicy
end CertRelay
