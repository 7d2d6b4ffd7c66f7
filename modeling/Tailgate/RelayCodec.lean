import Tailgate.Delegation
import Tailgate.FrameProtocol
import Tailgate.PeerPaths
import Tailgate.ResolverSelection
import Tailgate.WireGuardRouter

/-!
# What is in the frames of a relay

A node and its relay first exchange JSON texts: the challenge, the
authentication, the answer, and network maps. Afterwards most frames are binary.

Reading and writing texts and the cryptography are a library's (`RelayLibrary`).
What cannot be decoded is a `RelayError`, with the text of the exception where it
is the program's own.
-/

namespace Tailgate

open BigEndian

/-- What a library does for a relay. -/
structure RelayLibrary where
  parse : Bytes → Option Json
  dump : Json → Bytes
  x25519Shared : Bytes → Bytes → Bytes
  hmacBlake2s256 : Bytes → Bytes → Bytes
  /-- The response of the tailnet's resolver to a packet. -/
  tailnetDnsResponse : NetworkConfig → Bytes → Option Bytes

/-- **A library that knows the texts of some values**, and no secrets. -/
def RelayLibrary.knowing (values : List Json) : RelayLibrary where
  parse payload := values.find? fun value => value.text = payload
  dump value := value.text
  x25519Shared _ _ := .replicate 32 0
  hmacBlake2s256 _ _ := .replicate 32 0
  tailnetDnsResponse _ _ := none

inductive RelayError where
  | text
  | json (error : JsonError)
  | runtime (what : String)
  deriving DecidableEq

abbrev Decoding := Except RelayError

instance : MonadLift (Except JsonError) Decoding where
  monadLift
    | .ok a => .ok a
    | .error error => .error (.json error)

def hexDigit (digit : ℕ) : Char := Char.ofNat (if digit < 10 then 48 + digit else 87 + digit)

def bytesToHex (bytes : Bytes) : String :=
  String.ofList (bytes.flatMap fun byte =>
    [hexDigit (byte.toNat / 16), hexDigit (byte.toNat % 16)])

namespace ProtocolCodec

def parseJson (lib : RelayLibrary) (payload : Bytes) : Decoding Json :=
  if payload = [] then
    .error (.runtime "Relay JSON payload is empty.")
  else
    match lib.parse payload with
    | none => .error .text
    | some value => .ok value

def decodeBytes32 (value : Json) (name error : String) : Decoding Bytes := do
  let field ← value.field name
  let text ← field.asString
  match hexToBytes text.toList with
  | none => .error (.runtime "Invalid hexadecimal string.")
  | some bytes => if bytes.length = 32 then pure bytes else .error (.runtime error)

/-! ## Authentication -/

def maximumHostnameSize : ℕ := 253

def maximumOperatingSystemSize : ℕ := 64

def maximumOperatingSystemVersionSize : ℕ := 256

def fieldString (value : Json) (name : String) : Decoding String := do
  let field ← value.field name
  field.asString

end ProtocolCodec

structure Authentication where
  tailnet : String := ""
  nodeId : ℕ := 0
  hostname : String := ""
  operatingSystem : String := ""
  operatingSystemVersion : String := ""
  nodePublicKey : Bytes := []
  clientNonce : Bytes := []
  clientProof : Bytes := []

namespace ProtocolCodec

open Json

variable (lib : RelayLibrary) (config : NetworkConfig)

/-- **Read how a node authenticates.** -/
def decodeAuthentication (payload : Bytes) : Decoding Authentication := do
  let value ← parseJson lib payload
  let tailnet ← fieldString value "Tailnet"
  let nodeIdField ← value.field "NodeId"
  let nodeId ← nodeIdField.asUInt64
  let hostname ← fieldString value "Hostname"
  let operatingSystem ← fieldString value "OS"
  let operatingSystemVersion ← fieldString value "OSVersion"
  let nodePublicKey ← decodeBytes32 value "NodePublicKey"
    "Relay authentication has an invalid node public key."
  let clientNonce ← decodeBytes32 value "ClientNonce"
    "Relay authentication has an invalid client nonce."
  let clientProof ← decodeBytes32 value "ClientProof"
    "Relay authentication has an invalid client proof."
  if tailnet = "" ∨ nodeId = 0 ∨ hostname = "" ∨
      maximumHostnameSize < (textBytes hostname).length ∨
      maximumOperatingSystemSize < (textBytes operatingSystem).length ∨
      maximumOperatingSystemVersionSize < (textBytes operatingSystemVersion).length then
    .error (.runtime "Relay authentication is missing required fields.")
  else
    pure {
      tailnet, nodeId, hostname, operatingSystem, operatingSystemVersion, nodePublicKey
      clientNonce, clientProof }

def encodeChallenge (relayPublicKey serverNonce : Bytes) : Bytes :=
  lib.dump (.object [("RelayPublicKey", .string (bytesToHex relayPublicKey)),
    ("ServerNonce", .string (bytesToHex serverNonce))])

def encodeSession (tailnet relayHostName relayHostAddress : String)
    (serverProof : Bytes) : Bytes :=
  lib.dump (.object [("RelayHostAddress", .string relayHostAddress),
    ("RelayHostName", .string relayHostName), ("ServerProof", .string (bytesToHex serverProof)),
    ("Tailnet", .string tailnet)])

def encodeRejection (reason : String) : Bytes :=
  lib.dump (.object [("Reason", .string reason)])

def createProof (context : String)
    (privateKey publicKey serverNonce clientNonce : Bytes) : Bytes :=
  lib.hmacBlake2s256 (lib.x25519Shared privateKey publicKey)
    (textBytes context ++ serverNonce ++ clientNonce)

/-- **The proof of a node.** -/
def createClientProof : (privateKey publicKey serverNonce clientNonce : Bytes) → Bytes :=
  createProof lib "tailgate-relay-client-v1"

def createServerProof : (privateKey publicKey serverNonce clientNonce : Bytes) → Bytes :=
  createProof lib "tailgate-relay-server-v1"

/-! ## Network maps -/

def strings (texts : List String) : Json := .array (texts.map .string)

def encodePeer (peer : PeerConfig) : Json :=
  .object [
    ("Address", .string peer.address),
    ("Addresses", strings peer.addresses),
    ("AllowedPrefixes", .array (peer.allowedPrefixes.map fun p =>
      .object [("Bits", .number p.prefixLength), ("Network", .number p.network)])),
    ("Capabilities", strings peer.capabilities),
    ("ClientVersion", .string peer.clientVersion),
    ("DerpCode", .string peer.derpCode),
    ("DerpHost", .string peer.derpHost),
    ("DerpRegion", .number peer.derpRegion),
    ("DiscoKey", .string peer.discoKey),
    ("Endpoints", strings peer.endpoints),
    ("ExitNodeOption", .bool peer.exitNodeOption),
    ("Key", .string peer.key),
    ("Name", .string peer.name),
    ("NodeId", .number peer.nodeId),
    ("OS", .string peer.operatingSystem),
    ("Online", .bool peer.online),
    ("Owner", .string peer.owner),
    ("OwnerId", .number peer.ownerId),
    ("PeerApi4Port", .number peer.peerApi4Port),
    ("PeerApi6Port", .number peer.peerApi6Port)]

def encodeDnsRoute (route : DnsRoute) : Json :=
  .object [("Resolvers", strings route.resolvers), ("Suffix", .string route.suffix)]

def encodeUserProfile (profile : UserProfile) : Json :=
  .object [
    ("DisplayName", .string profile.displayName),
    ("Id", .number profile.id),
    ("LoginName", .string profile.loginName),
    ("ProfilePicUrl", .string profile.profilePicUrl)]

def networkConfigFields : List (String × Json) :=
  [ ("Capabilities", strings config.capabilities),
    ("DerpCode", .string config.derpCode),
    ("DerpHost", .string config.derpHost),
    ("DerpRegion", .number config.derpRegion),
    ("DnsDefaultResolvers", strings config.dnsDefaultResolvers),
    ("DnsDomains", strings config.dnsDomains),
    ("DnsResolver", .string config.dnsResolver),
    ("DnsRoutes", .array (config.dnsRoutes.map encodeDnsRoute)),
    ("Domain", .string config.domain),
    ("MagicDnsDomain", .string config.magicDnsDomain),
    ("Peers", .array (config.peers.map encodePeer)),
    ("SelfAddress", .string config.selfAddress),
    ("SelfAddresses", strings config.selfAddresses),
    ("SelfKey", .string config.selfKey),
    ("SelfName", .string config.selfName),
    ("SelfNodeId", .number config.selfNodeId),
    ("TailnetDisplayName", .string config.tailnetDisplayName),
    ("UserProfiles", .array (config.userProfiles.map encodeUserProfile))]

/-- **A network map, for the other side.** -/
def networkConfigJson : Json := .object (networkConfigFields config)

def encodeNetworkConfig : Bytes :=
  lib.dump (networkConfigJson config)

variable (source : Json)

def decodePrefix : Except JsonError Ipv4Prefix := do
  let network ← source.value "Network" (asWidth 32) 0
  let prefixLength ← source.value "Bits" (asWidth 8) 0
  pure { network, prefixLength }

def decodePeer : Except JsonError PeerConfig := do
  let nodeId ← source.value "NodeId" asUInt64 0
  let ownerId ← source.value "OwnerId" asUInt64 0
  let name ← source.value "Name" asString ""
  let address ← source.value "Address" asString ""
  let addresses ← source.value "Addresses" asStrings []
  let key ← source.value "Key" asString ""
  let discoKey ← source.value "DiscoKey" asString ""
  let endpoints ← source.value "Endpoints" asStrings []
  let derpRegion ← source.value "DerpRegion" asInt 0
  let derpCode ← source.value "DerpCode" asString ""
  let derpHost ← source.value "DerpHost" asString ""
  let operatingSystem ← source.value "OS" asString ""
  let clientVersion ← source.value "ClientVersion" asString ""
  let peerApi4Port ← source.value "PeerApi4Port" asInt 0
  let peerApi6Port ← source.value "PeerApi6Port" asInt 0
  let capabilities ← source.value "Capabilities" asStrings []
  let owner ← source.value "Owner" asString ""
  let online ← source.value "Online" asBool false
  let exitNodeOption ← source.value "ExitNodeOption" asBool false
  let prefixes ← source.value "AllowedPrefixes" pure (.array [])
  let allowedPrefixes ← prefixes.elements.mapM decodePrefix
  pure {
    nodeId, ownerId, name, address, addresses, key, discoKey, endpoints, derpRegion, derpCode
    derpHost, operatingSystem, clientVersion, peerApi4Port, peerApi6Port, capabilities, owner
    online, exitNodeOption, allowedPrefixes }

def decodeUserProfile : Except JsonError UserProfile := do
  let id ← source.value "Id" asUInt64 0
  let loginName ← source.value "LoginName" asString ""
  let displayName ← source.value "DisplayName" asString ""
  let profilePicUrl ← source.value "ProfilePicUrl" asString ""
  pure { id, loginName, displayName, profilePicUrl }

def decodeDnsRoute : Except JsonError DnsRoute := do
  let suffix ← source.value "Suffix" asString ""
  let resolvers ← source.value "Resolvers" asStrings []
  pure { suffix, resolvers }

def networkConfigOfJson (value : Json) : Except JsonError NetworkConfig := do
  let selfNodeId ← value.value "SelfNodeId" asUInt64 0
  let selfKey ← value.value "SelfKey" asString ""
  let selfAddressField ← value.field "SelfAddress"
  let selfAddress ← selfAddressField.asString
  let selfAddresses ← value.value "SelfAddresses" asStrings []
  let selfNameField ← value.field "SelfName"
  let selfName ← selfNameField.asString
  let domainField ← value.field "Domain"
  let domain ← domainField.asString
  let magicDnsDomain ← value.value "MagicDnsDomain" asString ""
  let tailnetDisplayName ← value.value "TailnetDisplayName" asString ""
  let capabilities ← value.value "Capabilities" asStrings []
  let dnsResolver ← value.value "DnsResolver" asString ""
  let dnsDomains ← value.value "DnsDomains" asStrings []
  let dnsDefaultResolvers ← value.value "DnsDefaultResolvers" asStrings []
  let derpRegion ← value.value "DerpRegion" asInt 0
  let derpHost ← value.value "DerpHost" asString ""
  let derpCode ← value.value "DerpCode" asString ""
  let profiles ← value.value "UserProfiles" pure (.array [])
  let userProfiles ← profiles.elements.mapM decodeUserProfile
  let routes ← value.value "DnsRoutes" pure (.array [])
  let dnsRoutes ← routes.elements.mapM decodeDnsRoute
  let peersField ← value.field "Peers"
  let peers ← peersField.elements.mapM decodePeer
  pure {
    selfNodeId, selfKey, selfAddress, selfAddresses, selfName, domain, magicDnsDomain
    tailnetDisplayName, capabilities, dnsResolver, dnsDomains, dnsDefaultResolvers, derpRegion
    derpHost, derpCode, userProfiles, dnsRoutes, peers }

/-- **Read a network map.** -/
def decodeNetworkConfig (payload : Bytes) : Decoding NetworkConfig := do
  let value ← parseJson lib payload
  let config ← networkConfigOfJson value
  if config.selfNodeId = 0 ∨ config.selfKey = "" ∨ config.selfAddress = "" ∨
      config.domain = "" then
    .error (.runtime "Relay network configuration is incomplete.")
  else
    pure config

end ProtocolCodec

/-! ## Binary payloads -/

structure PeerEndpoint where
  peer : Bytes
  endpoint : Endpoint

structure DerpAuthenticationResponse where
  requestId : ℕ
  clientInfo : Bytes

namespace ProtocolCodec

def decodePeerEndpoint (payload : Bytes) : Decoding PeerEndpoint :=
  if payload.length ≠ 32 + 4 + 2 then
    .error (.runtime "Relay peer endpoint has an invalid size.")
  else
    let address := value ((payload.drop 32).take 4)
    let port := value (payload.drop 36)
    if address = 0 ∨ port = 0 then
      .error (.runtime "Relay peer endpoint is unspecified.")
    else
      .ok { peer := payload.take 32, endpoint := { address, port } }

def encodeDerpChallenge (requestId : ℕ) (serverKey : Bytes) : Bytes :=
  bytes 8 requestId ++ serverKey

def decodeDerpResponse (payload : Bytes) : Decoding DerpAuthenticationResponse :=
  if payload.length ≤ 8 then
    .error (.runtime "Relay DERP response is truncated.")
  else
    .ok { requestId := value (payload.take 8), clientInfo := payload.drop 8 }

end ProtocolCodec

def DelegationAction.ofCode : ℕ → Option DelegationAction
  | 0 => some .prepare
  | 1 => some .release
  | 2 => some .acquire
  | 3 => some .commit
  | _ => none

def DelegationStatus.ofCode : ℕ → Option DelegationStatus
  | 0 => some .prepared
  | 1 => some .released
  | 2 => some .ready
  | 3 => some .committed
  | 4 => some .failed
  | _ => none

def DelegationFailure.ofCode : ℕ → Option DelegationFailure
  | 0 => some .none
  | 1 => some .staleGeneration
  | 2 => some .staleMap
  | 3 => some .invalidState
  | 4 => some .unknownRegion
  | 5 => some .leaseExpired
  -- not `DelegationFailure.none`
  | _ => Option.none

/-- The regions of a request: none is zero, and each is above the one before
it. -/
def decodeRegions (previous : ℕ) : Bytes → Option (List ℕ)
  | [] => some []
  | [_] => none
  | high :: low :: rest => do
    let region := high.toNat * 256 + low.toNat
    if region ≤ previous then
      none
    else
      let regions ← decodeRegions region rest
      some (region :: regions)

def decodeDelegationRequest (frame : Frame) : Option DelegationRequest :=
  let bytes := frame.payload
  if frame.type ≠ .delegation ∨ bytes.length < 26 then
    none
  else do
    let action ← DelegationAction.ofCode (bytes.getD 24 0).toNat
    let count := (bytes.getD 25 0).toNat
    if count = 0 ∨ bytes.length ≠ 26 + count * 2 then
      none
    else
      let generation := value (bytes.take 8)
      let requestId := value ((bytes.drop 8).take 8)
      let mapRevision := value ((bytes.drop 16).take 8)
      if generation = 0 ∨ requestId = 0 ∨ mapRevision = 0 then
        none
      else
        let regions ← decodeRegions 0 (bytes.drop 26)
        some { generation, requestId, mapRevision, action, regions }

def decodeDelegationReply (frame : Frame) : Option DelegationReply :=
  let bytes := frame.payload
  if frame.type ≠ .delegationReply ∨ bytes.length ≠ 26 then
    none
  else do
    let status ← DelegationStatus.ofCode (bytes.getD 24 0).toNat
    let failure ← DelegationFailure.ofCode (bytes.getD 25 0).toNat
    let generation := value (bytes.take 8)
    let requestId := value ((bytes.drop 8).take 8)
    let mapRevision := value ((bytes.drop 16).take 8)
    if generation = 0 ∨ requestId = 0 ∨ mapRevision = 0 ∨
        (status == .failed) ≠ (failure != .none) then
      none
    else
      some { generation, requestId, mapRevision, status, failure }

def encodeMapAcknowledgement (revision : ℕ) : Decoding Frame :=
  if revision = 0 then
    .error (.runtime "map revision must be nonzero")
  else
    .ok { type := .networkMapAck, payload := bytes 8 revision }

def decodeMapAcknowledgement (frame : Frame) : Option ℕ :=
  if frame.type ≠ .networkMapAck ∨ frame.payload.length ≠ 8 then
    none
  else
    let revision := value frame.payload
    if revision = 0 then none else some revision

/-! ## Pumps

A node asks to be called after a delay, in milliseconds, or not to be called
after all; the relay calls it with the number of the request. -/

def maximumPumpDelay : ℕ := 60000

def cancelDeadline : ℕ := 2 ^ 32 - 1

inductive PumpError where
  | invalidMessage
  | requestIdExhausted
  deriving DecidableEq

structure PumpSchedule where
  requestId : ℕ
  delay : Option ℕ

def tryDecodePumpSchedule (payload : Bytes) : Option PumpSchedule :=
  if payload.length ≠ 8 + 4 then
    none
  else
    let id := value (payload.take 8)
    let delay := value (payload.drop 8)
    if id = 0 ∨ delay ≠ cancelDeadline ∧ maximumPumpDelay < delay then
      none
    else
      some { requestId := id, delay := if delay ≠ cancelDeadline then some delay else none }

def encodePumpSchedule (schedule : PumpSchedule) : Except PumpError Frame :=
  if schedule.requestId = 0 ∨ schedule.delay.any (maximumPumpDelay < ·) then
    .error .invalidMessage
  else
    .ok {
      type := .pumpSchedule
      payload := bytes 8 schedule.requestId ++
        bytes 4 (schedule.delay.getD cancelDeadline) }

def tryDecodePumpReply (payload : Bytes) : Option ℕ :=
  if payload.length ≠ 8 then
    none
  else
    let id := value payload
    if id = 0 then none else some id

def encodePumpReply (requestId : ℕ) : Except PumpError Frame :=
  if requestId = 0 then
    .error .invalidMessage
  else
    .ok { type := .pump, payload := bytes 8 requestId }

end Tailgate
