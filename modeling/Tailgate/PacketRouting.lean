import Tailgate.BigEndian
import Tailgate.NetworkMapParser

/-!
# Packets and the peers they go to

For IPv4 the program looks at fixed places of a packet; `parseIpEnvelope` reads
either family more carefully, and for IPv6 follows the extension headers. A
packet goes to the peer whose prefixes fit its destination best, and to the exit
if there is none.
-/

namespace Tailgate

/-! ## Headers -/

variable (packet : Bytes)

def read16 (offset : ℕ) : ℕ :=
  (packet.getD offset 0).toNat * 256 + (packet.getD (offset + 1) 0).toNat

def readOctets (offset size : ℕ) : List ℕ :=
  ((packet.drop offset).take size).map UInt8.toNat

namespace Ipv4Packet

def headerSize : ℕ := 20

variable (packet : Bytes)

def hasHeader : Bool :=
  decide (headerSize ≤ packet.length) && (packet.getD 0 0).toNat / 16 == 4

def source : Option ℕ :=
  if hasHeader packet then some (Ipv4Address.ofOctets (readOctets packet 12 4)) else none

def destination : Option ℕ :=
  if hasHeader packet then some (Ipv4Address.ofOctets (readOctets packet 16 4)) else none

def protocol : UInt8 := if hasHeader packet then packet.getD 9 0 else 0

end Ipv4Packet

structure IpEnvelope where
  source : IpAddress := {}
  destination : IpAddress := {}
  protocol : UInt8 := 0
  payloadOffset : ℕ := 0
  fragmented : Bool := false
  firstFragment : Bool := true
  fragmentProtocol : Option UInt8 := none

namespace IpEnvelope

def fragment : UInt8 := 44

/-- Whether another header follows: options for every hop, routing, the header
of a part, or options for the destination. -/
def isExtension (protocol : UInt8) : Bool := [0, 43, fragment, 60].contains protocol

def maximumExtensions : ℕ := 16

variable (packet : Bytes)

def readFragment (offset : ℕ) (result : IpEnvelope) : IpEnvelope :=
  let flags := read16 packet (offset + 2)
  { result with
    fragmentProtocol := some result.protocol
    firstFragment := flags &&& 0xfff8 == 0
    fragmented := flags &&& (0xfff8 ||| 1) != 0 }

def extensionLength (result : IpEnvelope) : ℕ :=
  if result.protocol = fragment then 8
  else ((packet.getD (result.payloadOffset + 1) 0).toNat + 1) * 8

def skipExtension (result : IpEnvelope) : IpEnvelope :=
  let offset := result.payloadOffset
  let next := { result with
    protocol := packet.getD offset 0
    payloadOffset := offset + extensionLength packet result }
  if result.protocol = fragment then readFragment packet offset next else next

/-- Go past the headers that follow, up to a part that is not the first: what
comes next is not in the packet then. -/
def skipExtensions (packet : Bytes) : ℕ → IpEnvelope → Option IpEnvelope
  | 0, result => if isExtension result.protocol then none else some result
  | n + 1, result =>
    if isExtension result.protocol then
      if packet.length - result.payloadOffset < 8 ∨
          packet.length - result.payloadOffset < extensionLength packet result then
        none
      else
        let next := skipExtension packet result
        if result.protocol = fragment ∧ !next.firstFragment then some next
        else skipExtensions packet n next
    else
      some result

def parseIpv4 : Option IpEnvelope :=
  let payloadOffset := (packet.getD 0 0).toNat % 16 * 4
  let flags := read16 packet 6
  if packet.length < 20 ∨ payloadOffset < 20 ∨ packet.length < payloadOffset ∨
      read16 packet 2 ≠ packet.length then
    none
  else
    some {
      source := { family := .ipv4, bytes := readOctets packet 12 4 }
      destination := { family := .ipv4, bytes := readOctets packet 16 4 }
      protocol := packet.getD 9 0
      payloadOffset
      firstFragment := flags &&& 0x1fff == 0
      fragmented := flags &&& (0x1fff ||| 0x2000) != 0 }

def parseIpv6 : Option IpEnvelope :=
  if packet.length < 40 ∨ read16 packet 4 + 40 ≠ packet.length then none
  else
    skipExtensions packet maximumExtensions {
      source := { family := .ipv6, bytes := readOctets packet 8 16 }
      destination := { family := .ipv6, bytes := readOctets packet 24 16 }
      protocol := packet.getD 6 0
      payloadOffset := 40 }

end IpEnvelope

/-- **Read the headers of a packet.** -/
def parseIpEnvelope : Option IpEnvelope :=
  if packet = [] then none
  else if (packet.getD 0 0).toNat / 16 = 4 then IpEnvelope.parseIpv4 packet
  else if (packet.getD 0 0).toNat / 16 = 6 then IpEnvelope.parseIpv6 packet
  else none

/-! ## Routes -/

variable (aton : Aton)

namespace PeerConfig

open NetworkMapParser

def matchesTarget (peer : PeerConfig) (nameOrAddress : String) : Bool :=
  let target := trimTrailingDot nameOrAddress
  let name := trimTrailingDot peer.name
  peer.address == target || name == target || textBefore '.' name == target ||
    peer.addresses.contains target

def hasAddress (peer : PeerConfig) (address : IpAddress) : Bool :=
  (peer.address :: peer.addresses).any fun text => IpAddress.tryParse aton text == some address

end PeerConfig

namespace NetworkConfig

variable (c : NetworkConfig) (destination : ℕ) (exitNode : Option ℕ)

/-- Consider a prefix of a peer: one that says nothing counts for the exit
only, and a longer one counts more. -/
def considerPrefix (index : ℕ) (best : Option (ℕ × ℕ)) (p : Ipv4Prefix) : Option (ℕ × ℕ) :=
  if p.prefixLength = 0 ∧ exitNode ≠ some index then best
  else if p.contains destination ∧ best.all (fun b => b.2 < p.prefixLength) then
    some (index, p.prefixLength)
  else
    best

def considerPeer (best : Option (ℕ × ℕ)) (peer : PeerConfig × ℕ) : Option (ℕ × ℕ) :=
  peer.1.allowedPrefixes.foldl (considerPrefix destination exitNode peer.2) best

/-- **The peer an IPv4 address is behind.** -/
def findRoute : Option ℕ :=
  match c.peers.zipIdx.foldl (considerPeer destination exitNode) none with
  | some (index, _) => some index
  | none => exitNode.filter fun index => c.peers[index]?.any (·.exitNodeOption)

def findPeerAddress (address : IpAddress) : Option ℕ :=
  match c.peers.zipIdx.filter fun peer => peer.1.hasAddress aton address with
  | [(_, index)] => some index
  | _ => none

def findExitNode (nameOrAddress : String) (requireOnline : Bool) : Option ℕ :=
  c.peers.findIdx? fun peer =>
    !(requireOnline && !peer.online) && peer.exitNodeOption && peer.matchesTarget nameOrAddress

end NetworkConfig

end Tailgate
