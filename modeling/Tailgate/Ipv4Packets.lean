import Tailgate.PacketRouting

/-!
# The packets the node reads and builds

The node builds queries to a resolver behind a peer and answers to the pings of
peers, and looks for the answers to its own. The checksum of a header is such
that its words add up to zero, which in this addition is the number of all ones.
-/

namespace Tailgate

open BigEndian Ipv4Packet List

/-! ## IPv4 -/

def checksumStep (sum word : ℕ) : ℕ :=
  (sum + word) % 2 ^ 16 + (sum + word) / 2 ^ 16

def wordSum : Bytes → ℕ → ℕ
  | [], sum => sum
  | [high], sum => checksumStep sum (high.toNat * 256)
  | high :: low :: rest, sum => wordSum rest (checksumStep sum (high.toNat * 256 + low.toNat))

/-- **The checksum of some bytes.** -/
def internetChecksum (data : Bytes) : ℕ :=
  2 ^ 16 - 1 - wordSum data 0 % 2 ^ 16

namespace Ipv4Packet

def headerBytes (size source destination : ℕ) (protocol : UInt8) (checksum : ℕ) : Bytes :=
  [0x45, 0] ++ bytes 2 size ++ [0, 0, 0, 0, 64, protocol] ++ bytes 2 checksum
    ++ bytes 4 source ++ bytes 4 destination

def header (size source destination : ℕ) (protocol : UInt8) : Bytes :=
  headerBytes size source destination protocol
    (internetChecksum (headerBytes size source destination protocol 0))

/-- **Build a packet.** -/
def build (source destination : ℕ) (protocol : UInt8) (payload : Bytes) : Bytes :=
  header (headerSize + payload.length) source destination protocol ++ payload

end Ipv4Packet

structure Ipv4UdpDatagram where
  source : ℕ
  destination : ℕ
  sourcePort : ℕ
  destinationPort : ℕ
  payload : Bytes
  deriving DecidableEq

namespace Ipv4UdpDatagram

def udpHeaderSize : ℕ := 8

def udpProtocol : UInt8 := 17

/-- **Build a UDP packet**, without a checksum of its own. -/
def build (source destination sourcePort destinationPort : ℕ) (payload : Bytes) : Bytes :=
  let udpLength := udpHeaderSize + payload.length
  header (headerSize + udpLength) source destination udpProtocol
    ++ bytes 2 sourcePort ++ bytes 2 destinationPort
    ++ bytes 2 udpLength ++ [0, 0] ++ payload

/-- **Read a UDP packet.** -/
def parse (packet : Bytes) : Option Ipv4UdpDatagram :=
  if !hasHeader packet || packet.getD 9 0 != udpProtocol then
    none
  else
    let ipv4HeaderSize := (packet.getD 0 0).toNat % 16 * 4
    if ipv4HeaderSize < headerSize ∨ packet.length < ipv4HeaderSize + udpHeaderSize then
      none
    else
      let udpLength := read16 packet (ipv4HeaderSize + 4)
      if udpLength < udpHeaderSize ∨ packet.length < ipv4HeaderSize + udpLength then
        none
      else
        some {
          source := Ipv4Address.ofOctets (readOctets packet 12 4)
          destination := Ipv4Address.ofOctets (readOctets packet 16 4)
          sourcePort := read16 packet ipv4HeaderSize
          destinationPort := read16 packet (ipv4HeaderSize + 2)
          payload :=
            (packet.drop (ipv4HeaderSize + udpHeaderSize)).take (udpLength - udpHeaderSize) }

end Ipv4UdpDatagram

/-! ## Packets that are read back -/

variable {sum word : ℕ}

theorem checksumStep_spec (hs : sum ≤ 65535) (hw : word ≤ 65535) :
    checksumStep sum word ≤ 65535 ∧ checksumStep sum word % 65535 = (sum + word) % 65535
      ∧ (0 < sum ∨ 0 < word → 0 < checksumStep sum word) := by
  unfold checksumStep
  omega

theorem word_le (high low : UInt8) : high.toNat * 256 + low.toNat ≤ 65535 := by
  have := high.toNat_lt
  have := low.toNat_lt
  omega

/-- The words of some bytes are added up. -/
theorem exists_wordSum : ∀ data : Bytes, ∃ total, ∀ sum ≤ 65535, wordSum data sum ≤ 65535
    ∧ wordSum data sum % 65535 = (sum + total) % 65535 ∧ (0 < sum → 0 < wordSum data sum)
  | [] => ⟨0, fun _ hs => ⟨hs, rfl, id⟩⟩
  | [high] => by
    have hw : high.toNat * 256 ≤ 65535 := (Nat.le_add_right ..).trans (word_le high high)
    refine ⟨high.toNat * 256, fun sum hs => ?_⟩
    obtain ⟨hle, heq, hpos⟩ := checksumStep_spec hs hw
    exact ⟨hle, heq, fun h => hpos (.inl h)⟩
  | high :: low :: rest => by
    obtain ⟨total, hrest⟩ := exists_wordSum rest
    refine ⟨high.toNat * 256 + low.toNat + total, fun sum hs => ?_⟩
    obtain ⟨hle, heq, hpos⟩ := checksumStep_spec hs (word_le high low)
    obtain ⟨hle', heq', hpos'⟩ := hrest _ hle
    refine ⟨hle', ?_, fun h => hpos' (hpos (.inl h))⟩
    rw [wordSum, heq', Nat.add_mod, heq, ← Nat.add_mod, Nat.add_assoc]

theorem read_bytes {n : ℕ} (h : n < 2 ^ 16) :
    (UInt8.ofNat (n / 256 ^ 1)).toNat * 256 + (UInt8.ofNat (n / 256 ^ 0)).toNat = n := by
  rw [UInt8.toNat_ofNat', UInt8.toNat_ofNat']
  omega

theorem wordSum_headerBytes (size source destination : ℕ) (protocol : UInt8) {c : ℕ}
    (hc : c < 2 ^ 16) :
    wordSum (headerBytes size source destination protocol c) 0
      = wordSum (bytes 4 source ++ bytes 4 destination)
        (checksumStep (wordSum (bytes 2 size ++ [0, 0, 0, 0, 64, protocol]) 0x4500) c) := by
  have hfirst : checksumStep 0 ((0x45 : UInt8).toNat * 256 + (0 : UInt8).toNat) = 0x4500 := by
    decide
  simp only [headerBytes, bytes, cons_append, nil_append, wordSum]
  rw [hfirst, read_bytes hc]

/-- **The checksum of a header is zero.** -/
theorem internetChecksum_header (size source destination : ℕ) (protocol : UInt8) :
    internetChecksum (header size source destination protocol) = 0 := by
  unfold header internetChecksum
  rw [wordSum_headerBytes (c := 0) _ _ _ _ (by decide), wordSum_headerBytes _ _ _ _ (by omega)]
  -- the words in front of the checksum, and those behind it
  obtain ⟨_, hfront⟩ := exists_wordSum (bytes 2 size ++ [0, 0, 0, 0, 64, protocol])
  obtain ⟨_, hback⟩ := exists_wordSum (bytes 4 source ++ bytes 4 destination)
  obtain ⟨hx, -, hpos⟩ := hfront 0x4500 (by decide)
  generalize wordSum (bytes 2 size ++ [0, 0, 0, 0, 64, protocol]) 0x4500 = x at hx hpos ⊢
  obtain ⟨hy, _, -⟩ := checksumStep_spec hx (Nat.zero_le 65535)
  obtain ⟨hle, hmod, -⟩ := hback _ hy
  generalize wordSum (bytes 4 source ++ bytes 4 destination) (checksumStep x 0) = y at hle hmod ⊢
  obtain ⟨hz, _, hzpos⟩ := checksumStep_spec hx (show 2 ^ 16 - 1 - y % 2 ^ 16 ≤ 65535 by omega)
  obtain ⟨_, _, hspos⟩ := hback _ hz
  have hlast := hspos (hzpos (.inl (hpos (by decide))))
  omega

namespace Ipv4UdpDatagram

/-- **A packet is read back as it was built.** -/
theorem parse_build (source destination sourcePort destinationPort : ℕ) (payload : Bytes)
    (hsource : source < 2 ^ 32) (hdestination : destination < 2 ^ 32)
    (hsourcePort : sourcePort < 2 ^ 16) (hdestinationPort : destinationPort < 2 ^ 16)
    (hsize : payload.length ≤ 65507) :
    parse (build source destination sourcePort destinationPort payload)
        = some ⟨source, destination, sourcePort, destinationPort, payload⟩
      ∧ internetChecksum
        ((build source destination sourcePort destinationPort payload).take headerSize) = 0 := by
  constructor
  · unfold build header headerBytes parse
    generalize internetChecksum _ = c
    simp [bytes, hasHeader, read16, readOctets, headerSize, udpProtocol, udpHeaderSize,
      Ipv4Address.ofOctets]
    omega
  · unfold build
    rw [append_assoc, append_assoc, append_assoc, append_assoc,
      take_left' (by simp [header, headerBytes, headerSize])]
    exact internetChecksum_header ..

theorem parse_build_short : parse (build 1 2 53 1024 [7]) = some ⟨1, 2, 53, 1024, [7]⟩
      ∧ internetChecksum ((build 1 2 53 1024 [7]).take headerSize) = 0 :=
  parse_build 1 2 53 1024 [7] (by decide) (by decide) (by decide) (by decide) (by decide)

end Ipv4UdpDatagram

/-! ## Pings inside the tunnel -/

structure TsmpPong where
  token : Bytes
  peerApiPort : ℕ

namespace TsmpPacket

def tsmpIpProtocol : UInt8 := 99

def pingType : UInt8 := 'p'.toNat.toUInt8

def pongType : UInt8 := 'o'.toNat.toUInt8

def tokenSize : ℕ := 8

def pingPayloadSize : ℕ := 1 + tokenSize

def pongPayloadSize : ℕ := pingPayloadSize + 2

variable (packet : Bytes)

/-- Where the payload starts, if the packet is one of this protocol and no fragment. -/
def payloadOffset : Option ℕ :=
  if hasHeader packet && protocol packet == tsmpIpProtocol then
    let offset := (packet.getD 0 0).toNat % 16 * 4
    if (packet.getD 6 0).toNat % 64 ≠ 0 ∨ packet.getD 7 0 ≠ 0 then none
    else if headerSize ≤ offset ∧ offset ≤ packet.length then some offset
    else none
  else if 40 ≤ packet.length ∧ (packet.getD 0 0).toNat / 16 = 6 ∧
      packet.getD 6 0 = tsmpIpProtocol then
    some 40
  else
    none

def buildIpv6Response (request payload : Bytes) : Bytes :=
  [0x60, 0, 0, 0] ++ bytes 2 payload.length ++ [tsmpIpProtocol, 64]
    ++ (request.drop 24).take 16 ++ (request.drop 8).take 16 ++ payload

def buildPing (source destination : ℕ) (token : Bytes) : Bytes :=
  build source destination tsmpIpProtocol (pingType :: token)

/-- **The answer to a packet**, if it is a ping. -/
def buildPong (peerApiPort : ℕ) : Option Bytes := do
  let offset ← payloadOffset packet
  if packet.length < offset + pingPayloadSize ∨ packet.getD offset 0 ≠ pingType then
    none
  else
    let payload := pongType :: (packet.drop (offset + 1)).take tokenSize
      ++ bytes 2 peerApiPort
    if (packet.getD 0 0).toNat / 16 = 4 then do
      let source ← source packet
      let destination ← destination packet
      some (build destination source tsmpIpProtocol payload)
    else
      some (buildIpv6Response packet payload)

/-- **Read an answer.** -/
def parsePong : Option TsmpPong := do
  let offset ← payloadOffset packet
  if packet.length < offset + pingPayloadSize ∨ packet.getD offset 0 ≠ pongType then
    none
  else
    some {
      token := (packet.drop (offset + 1)).take tokenSize
      peerApiPort :=
        if offset + pongPayloadSize ≤ packet.length then read16 packet (offset + pingPayloadSize)
        else 0 }

end TsmpPacket

end Tailgate
