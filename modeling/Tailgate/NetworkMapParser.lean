import Mathlib.Data.String.Basic
import Tailgate.Addresses
import Tailgate.JsonValues
import Tailgate.Procedures
import Tailgate.SortUnique
import Tailgate.Throwing

/-!
# Reading network maps

`parse` builds a `NetworkConfig` from a full map of the control server and
`applyUpdate` changes one as an update says. Both throw on what they cannot make
sense of, and an update that throws has by then changed some of the
configuration. The DERP map is not kept: of each region the program keeps what
its peers, and the node itself, have been given.
-/

namespace Tailgate

open Procedure Json

inductive MapError
  | json (error : JsonError)
  | invalidArgument
  | outOfRange
  | capabilityFilter
  | noResolver
  | noRegion
  | noHost

instance : MonadLift (Except JsonError) (Except MapError) where
  monadLift
    | .ok a => .ok a
    | .error e => .error (.json e)

abbrev Configuring := EStateM MapError NetworkConfig

namespace NetworkMapParser

def stoi (text : String) : Except MapError ℤ :=
  match leadingInteger text with
  | none => .error .invalidArgument
  | some n => if -(2 ^ 31) ≤ n ∧ n < 2 ^ 31 then .ok n else .error .outOfRange

def stoull (text : String) : Except MapError ℕ :=
  match leadingInteger text with
  | none => .error .invalidArgument
  | some n => if n.natAbs < 2 ^ 64 then .ok (n % 2 ^ 64).toNat else .error .outOfRange

/-! ## What is read from a map -/

variable (node : Json)

def nodeId : Except JsonError ℕ := node.value "ID" asUnsigned 0

def timeText : Json → String
  | .string text => text
  | _ => ""

def stringArray (object : Json) (name : String) : Except JsonError (List String) :=
  match object.find name with
  | some (.array elements) => elements.mapM asString
  | _ => .ok []

def keyText (value : Json) (label : String) : Option String :=
  match value with
  | .string text => some text
  | .object _ =>
    let texts := ["String", "Public", "Key", "Value"].filterMap fun field =>
      match value.find field with
      | some (.string text) => some text
      | _ => none
    match texts.head?, value.find "Raw32" with
    | some text, _ => some text
    | none, some (.string raw) => some (label ++ raw)
    | none, _ => none
  | _ => none

/-- How good an endpoint is; the lower, the better, and from a hundred on it
is of no use. -/
def endpointPreference (endpoint : String) : ℕ :=
  match Endpoint.tryParse endpoint with
  | none => 100
  | some parsed => if Ipv4Address.isPrivate parsed.address then 1 else 0

def usableEndpoints (endpoints : List String) : List String :=
  (endpoints.filter fun endpoint => endpointPreference endpoint < 100).insertionSort
    fun left right => endpointPreference left ≤ endpointPreference right

def derpHostOf : List Json → Except JsonError String
  | [] => .ok ""
  | node :: nodes => do
    let stunOnly ← node.value "STUNOnly" asBool false
    if !stunOnly && node.contains "HostName" then do
      let name ← node.field "HostName"
      name.asString
    else
      derpHostOf nodes

def derpHost (region : Json) : Except JsonError String := do
  let nodes ← region.field "Nodes"
  derpHostOf nodes.elements

def regionCode (region : Json) (id : ℤ) : Except JsonError String :=
  region.value "RegionCode" asString ("derp-" ++ toString id)

def stunEndpointOf : List Json → Except JsonError (String × ℤ)
  | [] => .ok ("", 3478)
  | node :: nodes => do
    let port ← node.value "STUNPort" asInt 3478
    if port < 0 then
      stunEndpointOf nodes
    else do
      let ipv4 ← node.value "IPv4" asString ""
      if ipv4 ≠ "" ∧ ipv4 ≠ "none" then
        pure (ipv4, port)
      else do
        let hostname ← node.value "HostName" asString ""
        if hostname ≠ "" then pure (hostname, port) else stunEndpointOf nodes

def stunEndpoint (region : Json) : Except JsonError (String × ℤ) := do
  let nodes ← region.field "Nodes"
  stunEndpointOf nodes.elements

def resolverAddress (resolver : Json) : Except JsonError (Option String) :=
  if resolver.contains "Addr" then do
    let address ← resolver.field "Addr"
    let text ← address.asString
    pure (some text)
  else
    pure none

variable (dns : Json)

def dnsResolvers : Except JsonError (List String) := do
  let routes ← dns.field "Routes"
  let found ← routes.items.mapM fun (_, route) =>
    match route with
    | .array resolvers => resolvers.mapM resolverAddress
    | _ => .ok []
  pure (found.flatten.filterMap id)

def resolverArray (resolvers : Json) : Except JsonError (List String) :=
  match resolvers with
  | .array elements => do
    let addresses ← elements.mapM fun resolver => resolver.value "Addr" asString ""
    pure (addresses.filter (· ≠ ""))
  | _ => .ok []

variable (map : Json)

def arrayUnder (name : String) : Option (List Json) :=
  match map.find name with
  | some (.array elements) => some elements
  | _ => none

def findProfile (userId : ℕ) : List Json → Except JsonError (Option Json)
  | [] => .ok none
  | profile :: profiles => do
    let id ← profile.value "ID" asUnsigned 0
    if id = userId then pure (some profile) else findProfile userId profiles

def findUserProfile (userId : ℕ) : Except JsonError (Option Json) :=
  match arrayUnder map "UserProfiles" with
  | none => .ok none
  | some profiles => do
    let found ← findProfile userId profiles
    match found with
    | some profile => pure (some profile)
    | none => pure profiles.head?

def capMap : Option (List (String × Json)) :=
  match map.find "Node" with
  | some (.object node) =>
    match (object node).find "CapMap" with
    | some (.object fields) => some fields
    | _ => none
  | _ => none

def tailnetDisplayName : String :=
  match (capMap map).bind (·.lookup "tailnet-display-name") with
  | some (.array (.string name :: _)) => name
  | _ => ""

def capabilities : List String := ((capMap map).getD []).map Prod.fst

def trimTrailingDot (value : String) : String :=
  if value.toList.getLast? = some '.' then .ofList value.toList.dropLast else value

def magicDnsDomainFromNodeName (nodeName : String) : String :=
  textAfter '.' (trimTrailingDot nodeName)

/-! ## Accounts -/

def setAccount (profile : Json) : Configuring Unit := do
  let login ← profile.value "LoginName" asString ""
  modify fun c => { c with accountName := login }
  let display ← profile.value "DisplayName" asString ""
  modify fun c => { c with accountDisplayName := display }
  let picture ← profile.value "ProfilePicURL" asString ""
  modify fun c => { c with accountProfilePicUrl := picture }

def setHumanAccount : List Json → Configuring Unit
  | [] => pure ()
  | candidate :: candidates => do
    let login ← candidate.value "LoginName" asString ""
    if textHas '@' login then
      setAccount candidate
    else
      setHumanAccount candidates

def nodeUser : Except JsonError ℕ :=
  match map.find "Node" with
  | some (.object node) => (object node).value "User" asUnsigned 0
  | _ => .ok 0

/-- The account of the node. The account of a node that is tagged is no
person's; if the map has one, that is shown. -/
def applyAccountMetadata : Configuring Unit := do
  whenever (tailnetDisplayName map ≠ "") do
    modify fun c => { c with tailnetDisplayName := tailnetDisplayName map }
  let userId ← nodeUser map
  let profile ← findUserProfile map userId
  match profile with
  | none => pure ()
  | some profile => do
    setAccount profile
    let c ← get
    whenever (textHas '@' c.accountName = false) do
      setHumanAccount ((arrayUnder map "UserProfiles").getD [])

def readProfile (source : Json) : Except JsonError (Option UserProfile) := do
  let id ← source.value "ID" asUnsigned 0
  if id = 0 then
    pure none
  else do
    let loginName ← source.value "LoginName" asString ""
    let displayName ← source.value "DisplayName" asString ""
    let profilePicUrl ← source.value "ProfilePicURL" asString ""
    pure (some { id, loginName, displayName, profilePicUrl })

/-- Put an element in place of the first with some property, or at the
end. -/
def replaceOrAppend {α : Type} (p : α → Bool) (new : α) (old : List α) : List α :=
  if old.any p then
    old.takeWhile (fun a => !p a) ++ new :: (old.dropWhile fun a => !p a).drop 1
  else
    old ++ [new]

def mergeProfile (profiles : List UserProfile) (source : Json) :
    Except JsonError (List UserProfile) := do
  let profile ← readProfile source
  match profile with
  | none => pure profiles
  | some profile => pure (replaceOrAppend (fun p => p.id == profile.id) profile profiles)

def mergeProfiles (profiles : List UserProfile) (sources : List Json) :
    Except JsonError (List UserProfile) :=
  sources.foldlM mergeProfile profiles

def mergeUserProfiles : Configuring Bool := do
  match arrayUnder map "UserProfiles" with
  | none => pure false
  | some sources => do
    let c ← get
    let profiles ← mergeProfiles c.userProfiles sources
    modify fun c => { c with userProfiles := profiles }
    pure true

def ownerName (profiles : List UserProfile) (ownerId : ℕ) : String :=
  match profiles.find? (fun p => p.id == ownerId) with
  | none => ""
  | some profile => if profile.displayName = "" then profile.loginName else profile.displayName

def refreshPeerOwners (c : NetworkConfig) : NetworkConfig :=
  { c with
    peers := c.peers.map fun peer =>
      let owner := ownerName c.userProfiles peer.ownerId
      if owner = "" then peer else { peer with owner } }

/-! ## The node itself -/

def peerApiPorts : List Json → ℤ × ℤ → Except JsonError (ℤ × ℤ)
  | [], ports => .ok ports
  | service :: services, ports => do
    let protocol ← service.value "Proto" asString ""
    if protocol = "peerapi4" then do
      let port ← service.value "Port" asInt 0
      peerApiPorts services (port, ports.2)
    else if protocol = "peerapi6" then do
      let port ← service.value "Port" asInt 0
      peerApiPorts services (ports.1, port)
    else
      peerApiPorts services ports

def applyHostInfoMetadata : Configuring Unit := do
  match node.find "Hostinfo" with
  | some (.object hostInfo) => do
    let version ← (object hostInfo).value "IPNVersion" asString ""
    modify fun c => { c with selfClientVersion := version }
    let wireIngress ← (object hostInfo).value "WireIngress" asBool false
    modify fun c => { c with selfWireIngress := wireIngress }
    let ingressEnabled ← (object hostInfo).value "IngressEnabled" asBool false
    modify fun c =>
      { c with selfIngressEnabled := ingressEnabled, selfPeerApi4Port := 0, selfPeerApi6Port := 0 }
    let ports ← peerApiPorts ((arrayUnder (object hostInfo) "Services").getD []) (0, 0)
    modify fun c => { c with selfPeerApi4Port := ports.1, selfPeerApi6Port := ports.2 }
  | _ => pure ()

def applySelfAddresses : Configuring Unit := do
  let texts ← stringArray node "Addresses"
  let addresses := texts.map (textBefore '/')
  let ipv4 := addresses.find? fun address => (Ipv4Address.tryParse address).isSome
  modify fun c =>
    { c with
      selfAddress := ipv4.getD (addresses.head?.getD "")
      selfAddresses := addresses }

/-- The resolvers to ask by default: those of the map, or else those to fall
back on. -/
def defaultResolvers : Except JsonError (List String) := do
  let resolvers ← dns.value "Resolvers" pure (.array [])
  let found ← resolverArray resolvers
  if found = [] then do
    let fallback ← dns.value "FallbackResolvers" pure (.array [])
    resolverArray fallback
  else
    pure found

def dnsRoute (route : String × Json) : Except JsonError DnsRoute := do
  let resolvers ← resolverArray route.2
  pure { suffix := route.1, resolvers }

def dnsRoutes : Except JsonError (List DnsRoute) := do
  let routes ← dns.field "Routes"
  routes.items.mapM dnsRoute

def applyDnsConfig : Configuring Unit := do
  let domains ← stringArray dns "Domains"
  modify fun c => { c with dnsDomains := domains }
  let certDomains ← stringArray dns "CertDomains"
  modify fun c => { c with certDomains }
  let resolvers ← defaultResolvers dns
  modify fun c => { c with dnsDefaultResolvers := resolvers }
  let routes ← dnsRoutes dns
  modify fun c => { c with dnsRoutes := routes }

/-! ## Peers -/

def applyDerpMetadata (regions : Json) (peer : PeerConfig) : Except MapError PeerConfig :=
  if peer.derpRegion = 0 then
    .ok peer
  else
    match regions.find (toString peer.derpRegion) with
    | none => .ok peer
    | some region => do
      let derpCode ← regionCode region peer.derpRegion
      let derpHost ← derpHost region
      pure { peer with derpCode, derpHost }

def applyPeerHostInfo (peer : PeerConfig) : Except MapError PeerConfig :=
  match node.find "Hostinfo" with
  | some (.object hostInfo) => do
    let operatingSystem ← (object hostInfo).value "OS" asString ""
    let clientVersion ← (object hostInfo).value "IPNVersion" asString ""
    let wireIngress ← (object hostInfo).value "WireIngress" asBool false
    let ingressEnabled ← (object hostInfo).value "IngressEnabled" asBool false
    let ports ← peerApiPorts ((arrayUnder (object hostInfo) "Services").getD [])
      (peer.peerApi4Port, peer.peerApi6Port)
    pure
      { peer with
        operatingSystem, clientVersion, wireIngress, ingressEnabled
        peerApi4Port := ports.1
        peerApi6Port := ports.2 }
  | _ => .ok peer

def peerRegion : Except MapError (Option ℤ) := do
  let derp ← node.value "DERP" asString ""
  if textHas ':' derp then do
    let region ← stoi (textAfterLast ':' derp)
    pure (some region)
  else
    pure none

def applyPeerRegion (node regions : Json) (peer : PeerConfig) : Except MapError PeerConfig := do
  let region ← peerRegion node
  match region with
  | none => pure peer
  | some derpRegion => applyDerpMetadata regions { peer with derpRegion }

def properPrefixes (texts : List String) : List Ipv4Prefix :=
  (texts.filterMap Ipv4Prefix.parse).filter fun p => p.prefixLength ≠ 0

def offersExit (texts : List String) : Bool :=
  (texts.filterMap Ipv4Prefix.parse).any fun p => p.prefixLength = 0

def peerIdentity (profiles : List UserProfile) : Except MapError PeerConfig := do
  let addressTexts ← stringArray node "Addresses"
  let nodeId ← nodeId node
  let name ← node.value "Name" asString ""
  let ownerId ← node.value "User" asUnsigned 0
  let addresses := addressTexts.map (textBefore '/')
  let ipv4 := addresses.find? fun address => !textHas ':' address
  let key ← node.value "Key" asString ""
  let discoKey ← node.value "DiscoKey" asString ""
  let online ← node.value "Online" asBool false
  let lastSeen ← node.value "LastSeen" asString ""
  let keyExpiry ← node.value "KeyExpiry" asString ""
  applyPeerHostInfo node
    { nodeId, name, ownerId, addresses, key, discoKey, online, lastSeen, keyExpiry
      owner := ownerName profiles ownerId
      address := ipv4.getD (addresses.head?.getD "") }

def applyPeerRoutes (peer : PeerConfig) : Except MapError PeerConfig := do
  let endpoints ← stringArray node "Endpoints"
  let allowed ← stringArray node "AllowedIPs"
  let addressTexts ← stringArray node "Addresses"
  pure
    { peer with
      endpoints := usableEndpoints endpoints
      exitNodeOption := offersExit (allowed ++ addressTexts)
      allowedPrefixes := properPrefixes (allowed ++ addressTexts) }

/-- **A peer of a map.** -/
def peer (node regions : Json) (profiles : List UserProfile) : Except MapError PeerConfig := do
  let identity ← peerIdentity node profiles
  let located ← applyPeerRegion node regions identity
  applyPeerRoutes node located

def peers (profiles : List UserProfile) : Except MapError (List PeerConfig) := do
  let derpMap ← map.field "DERPMap"
  let regions ← derpMap.field "Regions"
  let nodes ← map.field "Peers"
  let found ← nodes.elements.mapM fun node => do
    let addresses ← stringArray node "Addresses"
    if addresses = [] then
      pure none
    else do
      let peer ← peer node regions profiles
      pure (some peer)
  pure (found.filterMap id)

def findPeer (peers : List PeerConfig) (id : ℕ) : Option PeerConfig :=
  peers.find? fun peer => peer.nodeId == id

def modifyPeer (id : ℕ) (f : PeerConfig → PeerConfig) : List PeerConfig → List PeerConfig
  | [] => []
  | peer :: peers => if peer.nodeId = id then f peer :: peers else peer :: modifyPeer id f peers

/-! ## Capabilities -/

variable (aton : Aton)

/-- The ranges a rule lists. Of the sources, any may be meant, and a node
that has an attribute does not count. -/
def ranges (list : Json) (sources : Bool) : Except MapError (List IpRange) :=
  match list with
  | .array entries => do
    let found ← entries.mapM fun entry => do
      let text ← entry.asString
      if sources ∧ text = "*" then
        pure (["0.0.0.0/0", "::/0"].filterMap (IpRange.tryParse aton))
      else if sources ∧ "cap:".toList.isPrefixOf text.toList then
        pure []
      else
        match IpRange.tryParse aton text with
        | some range => pure [range]
        | none => throw .capabilityFilter
    pure found.flatten
  | _ => .error .capabilityFilter

def grantNames (source : Json) : Except MapError (List String) := do
  let caps ← match source.find "Caps" with
    | none => pure []
    | some .null => pure []
    | some caps => (caps.asStrings : Except MapError (List String))
  match source.find "CapMap" with
  | none => pure caps
  | some .null => pure caps
  | some (.object fields) => pure (caps ++ fields.map Prod.fst)
  | some _ => throw .capabilityFilter

def hasElements (j : Json) (key : String) : Bool := (j.find key).any fun value => !value.isEmpty

def ruleGrants (rule : Json) : Except MapError (List CapabilityPresenceGrant) :=
  match rule.find "CapGrant" with
  | none => .ok []
  | some grants =>
    if grants.isEmpty then
      .ok []
    else
      match grants with
      | .array sources =>
        if hasElements rule "SrcBits" || hasElements rule "DstPorts" then
          .error .capabilityFilter
        else do
          let srcIps ← rule.field "SrcIPs"
          let from_ ← ranges aton srcIps true
          sources.mapM fun source => do
            let dsts ← source.field "Dsts"
            let destinations ← ranges aton dsts false
            let names ← grantNames source
            pure { sources := from_, destinations, names }
      | _ => .error .capabilityFilter

def filterGrants (rules : Json) : Except MapError (List CapabilityPresenceGrant) :=
  match rules with
  | .array rules => do
    let found ← rules.mapM (ruleGrants aton)
    pure found.flatten
  | _ => .error .capabilityFilter

def eraseFilter (name : String) (filters : NamedCapabilityFilters) : NamedCapabilityFilters :=
  filters.filter fun f => f.1 ≠ name

def setFilter (name : String) (grants : List CapabilityPresenceGrant)
    (filters : NamedCapabilityFilters) : NamedCapabilityFilters :=
  filters.filter (fun f => f.1 < name) ++ (name, grants) :: filters.filter (fun f => name < f.1)

def updateFilter (filters : NamedCapabilityFilters) (update : String × Json) :
    Except MapError NamedCapabilityFilters :=
  if update.1 = "*" then
    pure filters
  else
    match update.2 with
    | .null => pure (eraseFilter update.1 filters)
    | rules => do
      let grants ← filterGrants aton rules
      pure (setFilter update.1 grants filters)

variable (map : Json)

def findPresent (key : String) : Option Json :=
  match map.find key with
  | some .null => none
  | value => value

variable (filters : NamedCapabilityFilters)

def updateBaseFilter : Except MapError NamedCapabilityFilters :=
  match findPresent map "PacketFilter" with
  | none => .ok filters
  | some rules => do
    let grants ← filterGrants aton rules
    pure (setFilter "base" grants filters)

/-- The filters once the named ones of a map are in place; they may all be
cleared first. -/
def updateNamedFilters : Except MapError NamedCapabilityFilters :=
  match findPresent map "PacketFilters" with
  | none => .ok filters
  | some (.object updates) =>
    match updates.lookup "*" with
    | some .null => updates.foldlM (updateFilter aton) []
    | _ => updates.foldlM (updateFilter aton) filters
  | some _ => .error .capabilityFilter

/-- **Take in the filters of a map.** -/
def applyCapabilityFilterUpdate : Configuring Bool := do
  let c ← get
  let based ← updateBaseFilter aton map c.capabilityFilters
  let filters ← updateNamedFilters aton map based
  let changed := (findPresent map "PacketFilter").isSome || (findPresent map "PacketFilters").isSome
  whenever (changed = true) do
    modify fun c => { c with capabilityFilters := filters }
  pure changed

def addressesOf (values : List String) (fallback : String) : List IpAddress :=
  match values.filterMap (IpAddress.tryParse aton) with
  | [] => (IpAddress.tryParse aton fallback).toList
  | found => found

/-- Whether a grant applies between some addresses: to the first of the
node's that is of the family of the peer's. -/
def grantApplies (destinations : List IpAddress) (grant : CapabilityPresenceGrant)
    (source : IpAddress) : Bool :=
  match destinations.find? fun value => value.family == source.family with
  | none => false
  | some destination =>
    grant.sources.any (·.contains source) && grant.destinations.any (·.contains destination)

def grantedCapabilities (c : NetworkConfig) (peer : PeerConfig) : List String :=
  let destinations := addressesOf aton c.selfAddresses c.selfAddress
  let sources := addressesOf aton peer.addresses peer.address
  let grants := (c.capabilityFilters.flatMap Prod.snd).filter fun grant =>
    sources.any (grantApplies destinations grant)
  (grants.flatMap CapabilityPresenceGrant.names).sortUnique

/-- **The peers with the capabilities the filters grant them.** -/
def refreshPeerCapabilities (c : NetworkConfig) : NetworkConfig :=
  { c with
    peers := c.peers.map fun peer =>
      { peer with capabilities := grantedCapabilities aton c peer } }

/-! ## Full maps -/

def setHomeRegion (region : Json) : Configuring Unit := do
  let c ← get
  let code ← regionCode region c.derpRegion
  modify fun c => { c with derpCode := code }
  let host ← derpHost region
  modify fun c => { c with derpHost := host }
  let stun ← stunEndpoint region
  modify fun c => { c with stunHost := stun.1, stunPort := stun.2 }

def applySelf (map node : Json) : Configuring Unit := do
  let id ← nodeId node
  modify fun c => { c with selfNodeId := id }
  let key ← node.value "Key" asString ""
  modify fun c => { c with selfKey := key }
  let name ← node.value "Name" asString ""
  modify fun c => { c with selfName := trimTrailingDot name }
  let authorized ← node.value "MachineAuthorized" asBool false
  modify fun c =>
    { c with
      selfMachineAuthorized := authorized
      magicDnsDomain := magicDnsDomainFromNodeName c.selfName
      capabilities := capabilities map }
  applyHostInfoMetadata node
  applySelfAddresses node

def peerTowards (peers : List PeerConfig) (address : ℕ) : Option PeerConfig :=
  peers.find? fun peer => peer.allowedPrefixes.any (·.contains address)

/-- The first of some resolvers that a peer reaches, with the region of that
peer. -/
def chooseResolver (peers : List PeerConfig) (resolvers : List String) : Option (String × ℤ) :=
  resolvers.findSome? fun text =>
    (Ipv4Address.tryParse text).bind fun address =>
      (peerTowards peers address).map fun peer => (text, peer.derpRegion)

def setResolver (dns : Json) : Configuring Unit := do
  let resolvers ← dnsResolvers dns
  let c ← get
  match chooseResolver c.peers resolvers with
  | some (dnsResolver, derpRegion) => modify fun c => { c with dnsResolver, derpRegion }
  | none => throw .noResolver

/-- Without a region from there, the home region is that of the first peer
with one. -/
def setRegion : Configuring Unit := do
  let c ← get
  if c.derpRegion = 0 then
    match c.peers.find? fun peer => peer.derpRegion ≠ 0 with
    | some peer => modify fun c => { c with derpRegion := peer.derpRegion }
    | none => throw .noRegion
  else
    pure ()

def requireHost : Configuring Unit := do
  let c ← get
  if c.derpHost = "" then throw .noHost else pure ()

def regionOf (id : ℤ) : Except JsonError Json := do
  let derpMap ← map.field "DERPMap"
  let regions ← derpMap.field "Regions"
  regions.field (toString id)

def readSelf : Configuring Json := do
  let domain ← map.value "Domain" asString ""
  modify fun c => { c with domain }
  let _ ← mergeUserProfiles map
  applyAccountMetadata map
  let node ← map.field "Node"
  applySelf map node
  let dns ← map.field "DNSConfig"
  applyDnsConfig dns
  pure dns

def readPeers : Configuring Unit := do
  let c ← get
  let peers ← peers map c.userProfiles
  modify fun c => { c with peers }
  let _ ← applyCapabilityFilterUpdate aton map
  modify (refreshPeerCapabilities aton)

def chooseRegion (map dns : Json) : Configuring Unit := do
  setResolver dns
  setRegion
  let c ← get
  let region ← regionOf map c.derpRegion
  setHomeRegion region
  requireHost

def readMap : Configuring Unit := do
  let dns ← readSelf map
  readPeers aton map
  chooseRegion map dns

/-- **Read a full map.** -/
def parse : Except MapError NetworkConfig :=
  match readMap aton map {} with
  | .ok _ c => .ok c
  | .error e _ => .error e

/-! ## Updates -/

def updateRegions : Json :=
  ((map.find "DERPMap").bind (·.find "Regions")).getD (.object [])

def updatedNode : Option Json :=
  match map.find "Node" with
  | some (.object node) => some (.object node)
  | _ => none

def updateName (node : Json) : Configuring Unit := do
  let name ← node.value "Name" asString ""
  modify fun c => { c with selfName := trimTrailingDot name }
  let c ← get
  let key ← node.value "Key" asString c.selfKey
  modify fun c =>
    { c with selfKey := key, magicDnsDomain := magicDnsDomainFromNodeName c.selfName }

def updateAuthorization (node : Json) : Configuring Unit := do
  let authorized ← node.value "MachineAuthorized" asBool false
  modify fun c => { c with selfMachineAuthorized := authorized }

/-- What an update says of the node. Its attributes are all there are, but
what else is missing is as it was. -/
def updateSelf (map node : Json) : Configuring Unit := do
  whenever (node.contains "Name" = true) (updateName node)
  whenever (node.contains "MachineAuthorized" = true) (updateAuthorization node)
  modify fun c => { c with capabilities := capabilities map }
  whenever (node.contains "Addresses" = true) (applySelfAddresses node)

def concernsSelf : Bool :=
  map.contains "Node" || (arrayUnder map "UserProfiles").isSome

def updateNode : Configuring Unit := do
  match updatedNode map with
  | some node => updateSelf map node
  | none => pure ()
  applyAccountMetadata map

def updateDomain : Configuring Unit := do
  let domain ← map.value "Domain" asString ""
  modify fun c => { c with domain }

def updateDns : Configuring Unit := do
  match map.find "DNSConfig" with
  | some (.object dns) => applyDnsConfig (.object dns)
  | _ => pure ()

def updateHomeRegion (regions : Json) : Configuring Unit := do
  let c ← get
  match regions.find (toString c.derpRegion) with
  | some region => setHomeRegion region
  | none => pure ()

def updateConfig : Configuring Unit := do
  let _ ← applyCapabilityFilterUpdate aton map
  whenever (map.contains "Domain" = true) (updateDomain map)
  let _ ← mergeUserProfiles map
  whenever (concernsSelf map = true) (updateNode map)
  updateDns map
  updateHomeRegion (updateRegions map)

def concernsConfig : Bool :=
  (findPresent map "PacketFilter").isSome || (findPresent map "PacketFilters").isSome ||
    map.contains "Domain" || concernsSelf map ||
    (match map.find "DNSConfig" with
      | some (.object _) => true
      | _ => false) ||
    !(updateRegions map).isEmpty

def removedPeers : Except JsonError (List ℕ) :=
  match map.find "PeersRemoved" with
  | none => .ok []
  | some ids => ids.elements.mapM asUInt64

variable (existing new : PeerConfig)

/-- A peer that replaces another takes from it what is known of the region,
if that is the same and nothing else is known of it. -/
def keepRegion : PeerConfig :=
  if new.derpRegion = existing.derpRegion ∧ new.derpCode = "" then
    { new with derpCode := existing.derpCode, derpHost := existing.derpHost }
  else
    new

def keepOwner : PeerConfig :=
  if new.owner = "" then { new with owner := existing.owner } else new

def keepKnown : PeerConfig :=
  keepOwner existing (keepRegion existing new)

def changePeer (regions : Json) (profiles : List UserProfile) (peers : List PeerConfig)
    (node : Json) : Except MapError (List PeerConfig) := do
  let new ← peer node regions profiles
  match findPeer peers new.nodeId with
  | none => pure (peers ++ [new])
  | some existing => pure (modifyPeer new.nodeId (fun _ => keepKnown existing new) peers)

def changePeers (profiles : List UserProfile) (peers : List PeerConfig) :
    Except MapError (List PeerConfig) :=
  match map.find "PeersChanged" with
  | none => .ok peers
  | some nodes => nodes.elements.foldlM (changePeer (updateRegions map) profiles) peers

/-- Change a peer if there is one with the identifier; whether one has been
changed comes with the peers. -/
def changeFound (id : ℕ) (f : PeerConfig → Except MapError PeerConfig)
    (state : List PeerConfig × Bool) : Except MapError (List PeerConfig × Bool) :=
  match findPeer state.1 id with
  | none => .ok state
  | some peer => do
    let new ← f peer
    pure (modifyPeer id (fun _ => new) state.1, true)

def onlineChange (state : List PeerConfig × Bool) (change : String × Json) :
    Except MapError (List PeerConfig × Bool) := do
  let id ← stoull change.1
  changeFound id (fun peer => do
    let online ← change.2.asBool
    pure { peer with online }) state

def peerSeenChange (now : String) (state : List PeerConfig × Bool) (change : String × Json) :
    Except MapError (List PeerConfig × Bool) := do
  let id ← stoull change.1
  changeFound id (fun peer => do
    let seen ← change.2.asBool
    pure { peer with lastSeen := if seen then now else "" }) state

def eachItem (key : String)
    (f : List PeerConfig × Bool → String × Json → Except MapError (List PeerConfig × Bool))
    (state : List PeerConfig × Bool) : Except MapError (List PeerConfig × Bool) :=
  match map.find key with
  | none => .ok state
  | some changes => changes.items.foldlM f state

def patchRegion (patch regions : Json) (peer : PeerConfig) : Except MapError PeerConfig :=
  match patch.find "DERPRegion" with
  | none => .ok peer
  | some value => do
    let derpRegion ← value.asInt
    applyDerpMetadata regions { peer with derpRegion, derpCode := "", derpHost := "" }

def patchEndpoints (patch : Json) (peer : PeerConfig) : Except MapError PeerConfig :=
  match patch.find "Endpoints" with
  | none => .ok peer
  | some value => do
    let endpoints ← value.asStrings
    pure { peer with endpoints := usableEndpoints endpoints }

def patchRest (patch : Json) (peer : PeerConfig) : PeerConfig :=
  { peer with
    key := ((patch.find "Key").bind (keyText · "nodekey:")).getD peer.key
    discoKey := ((patch.find "DiscoKey").bind (keyText · "discokey:")).getD peer.discoKey
    online := match patch.find "Online" with
      | some (.bool online) => online
      | _ => peer.online
    lastSeen := ((patch.find "LastSeen").map timeText).getD peer.lastSeen
    keyExpiry := ((patch.find "KeyExpiry").map timeText).getD peer.keyExpiry }

def patchPeer (patch regions : Json) (peer : PeerConfig) : Except MapError PeerConfig := do
  let withRegion ← patchRegion patch regions peer
  let withEndpoints ← patchEndpoints patch withRegion
  pure (patchRest patch withEndpoints)

def applyPatch (regions : Json) (state : List PeerConfig × Bool) (patch : Json) :
    Except MapError (List PeerConfig × Bool) := do
  let id ← patch.value "NodeID" asUnsigned 0
  changeFound id (patchPeer patch regions) state

def patchPeers (state : List PeerConfig × Bool) : Except MapError (List PeerConfig × Bool) :=
  match map.find "PeersChangedPatch" with
  | none => .ok state
  | some patches => patches.elements.foldlM (applyPatch (updateRegions map)) state

/-- The peers that leave, and those that stay, with what the update's regions
say of theirs. -/
def keptPeers (peers : List PeerConfig) :
    Except MapError (List ℕ × List PeerConfig) := do
  let described ← peers.mapM (applyDerpMetadata (updateRegions map))
  let removed ← removedPeers map
  pure (removed, described.filter fun peer => peer.nodeId ∉ removed)

/-- **What an update makes of the peers**: the ones that leave, the ones that
stay or are new, and whether an online state, a time or a patch has been
applied. -/
def updatePeers (now : String) (profiles : List UserProfile)
    (peers : List PeerConfig) : Except MapError (List ℕ × List PeerConfig × Bool) := do
  let (removed, kept) ← keptPeers map peers
  let changed ← changePeers map profiles kept
  let online ← eachItem map "OnlineChange" onlineChange (changed, false)
  let seen ← eachItem map "PeerSeenChange" (peerSeenChange now) online
  let patched ← patchPeers map seen
  pure (removed, patched)

/-- **Apply an update** that came at some time; whether it changed anything
is returned. -/
def applyUpdate (now : String) : Configuring Bool := do
  modify fun c => { c with removedPeerNodeIds := [] }
  let keepAlive ← map.value "KeepAlive" asBool false
  if keepAlive then
    pure false
  else do
    updateConfig aton map
    let c ← get
    let (removed, peers, found) ← updatePeers map now c.userProfiles c.peers
    modify fun c => refreshPeerCapabilities aton { c with peers, removedPeerNodeIds := removed }
    whenever ((arrayUnder map "UserProfiles").isSome = true) (modify refreshPeerOwners)
    pure (concernsConfig map || map.contains "PeersRemoved" || map.contains "PeersChanged" || found)

end NetworkMapParser

end Tailgate
