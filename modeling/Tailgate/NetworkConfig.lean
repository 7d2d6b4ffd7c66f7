import Mathlib.Tactic

/-!
# Network configurations

A `NetworkConfig` is what a node knows of its tailnet: itself, its peers, how
names are resolved and which DERP region is its home. The types are plain records
with the program's fields and defaults; addresses and prefixes are parsed.
-/

namespace Tailgate

inductive AddressFamily
  | ipv4
  | ipv6
  deriving DecidableEq

/-- An address: its family and its bytes, four or sixteen, most significant
first. -/
structure IpAddress where
  family : AddressFamily := .ipv4
  bytes : List ℕ := [0, 0, 0, 0]
  deriving DecidableEq

structure IpRange where
  first : IpAddress
  last : IpAddress
  deriving DecidableEq

/-- The leading bits of addresses. -/
structure Ipv4Prefix where
  network : ℕ := 0
  prefixLength : ℕ := 0
  deriving DecidableEq

/-- A grant of application capabilities: which peers have it, towards which of
the node's addresses, and the names it confers. -/
structure CapabilityPresenceGrant where
  sources : List IpRange := []
  destinations : List IpRange := []
  names : List String := []
  deriving DecidableEq

abbrev NamedCapabilityFilters := List (String × List CapabilityPresenceGrant)

structure UserProfile where
  id : ℕ := 0
  loginName : String := ""
  displayName : String := ""
  profilePicUrl : String := ""
  deriving DecidableEq

/-- A route of the resolver: the queries under a suffix go to some
resolvers. -/
structure DnsRoute where
  suffix : String
  resolvers : List String
  deriving DecidableEq

/-- **A peer** as the map describes it. -/
structure PeerConfig where
  nodeId : ℕ := 0
  ownerId : ℕ := 0
  name : String := ""
  address : String := ""
  addresses : List String := []
  key : String := ""
  discoKey : String := ""
  /-- Where it may be reached directly, the best first. -/
  endpoints : List String := []
  allowedPrefixes : List Ipv4Prefix := []
  derpRegion : ℤ := 0
  derpCode : String := ""
  derpHost : String := ""
  operatingSystem : String := ""
  clientVersion : String := ""
  owner : String := ""
  peerApi4Port : ℤ := 0
  capabilities : List String := []
  peerApi6Port : ℤ := 0
  wireIngress : Bool := false
  ingressEnabled : Bool := false
  online : Bool := false
  exitNodeOption : Bool := false
  lastSeen : String := ""
  keyExpiry : String := ""
  deriving DecidableEq

/-- **What a node knows of its tailnet.** -/
structure NetworkConfig where
  selfNodeId : ℕ := 0
  capabilityFilters : NamedCapabilityFilters := []
  selfKey : String := ""
  selfAddress : String := ""
  selfAddresses : List String := []
  selfName : String := ""
  selfMachineAuthorized : Bool := false
  domain : String := ""
  magicDnsDomain : String := ""
  tailnetDisplayName : String := ""
  accountName : String := ""
  accountDisplayName : String := ""
  accountProfilePicUrl : String := ""
  capabilities : List String := []
  selfClientVersion : String := ""
  selfPeerApi4Port : ℤ := 0
  selfPeerApi6Port : ℤ := 0
  selfWireIngress : Bool := false
  selfIngressEnabled : Bool := false
  dnsResolver : String := ""
  dnsDomains : List String := []
  certDomains : List String := []
  dnsDefaultResolvers : List String := []
  dnsRoutes : List DnsRoute := []
  derpRegion : ℤ := 0
  derpHost : String := ""
  derpCode : String := ""
  stunHost : String := ""
  stunPort : ℤ := 3478
  userProfiles : List UserProfile := []
  peers : List PeerConfig := []
  removedPeerNodeIds : List ℕ := []
  deriving DecidableEq

namespace NetworkConfig

def sameIdentity (a b : NetworkConfig) : Bool :=
  a.domain == b.domain && a.selfNodeId == b.selfNodeId && a.selfKey == b.selfKey

end NetworkConfig

end Tailgate
