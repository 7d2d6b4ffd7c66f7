import Tailgate.PacketRouting
import Tailgate.SealedBoxes

/-!
# Disco messages

Nodes look for direct paths with pings, pongs and lists of endpoints, sealed with
the disco keys of the two nodes. With a public key of low order there is no
secret. `sharedKey` is all zeros then, and the packet is sealed or opened with
that.
-/

namespace Tailgate

open List

variable {Secret : Type}

structure Disco where
  privateKey : Bytes := []
  publicKey : Bytes := []
  nodePublic : Bytes := []

namespace Disco

inductive MessageType where
  | ping
  | pong
  | callMeMaybe
  deriving DecidableEq

structure Message where
  type : MessageType
  transaction : Bytes := .replicate 12 0
  sender : Bytes := []
  sourceEndpoint : Option Endpoint := none
  endpoints : List Endpoint := []
  deriving DecidableEq

def magic : Bytes := [0x54, 0x53, 0xf0, 0x9f, 0x92, 0xac]

def headerSize : ℕ := magic.length + 32

def nonceSize : ℕ := 24

def macSize : ℕ := 16

def pingType : UInt8 := 0x01

def pongType : UInt8 := 0x02

def callMeMaybeType : UInt8 := 0x03

def protocolVersion : UInt8 := 0

def messageHeaderSize : ℕ := 2

def transactionSize : ℕ := 12

def endpointSize : ℕ := 18

def derpMagicIpv4Address : ℕ := Ipv4Address.ofOctets [127, 3, 3, 40]

variable (B : SealedBoxes Secret) (d : Disco)

def make (privateKey nodePublicKey : Bytes) : Disco where
  privateKey
  publicKey := B.publicKey privateKey
  nodePublic := nodePublicKey

/-- **The secret that two nodes share**, all zeros if they share none. -/
def sharedKey (privateKey publicKey : Bytes) : Secret :=
  (B.agree privateKey publicKey).getD B.zero

/-! ## Sending -/

def sealMessage (nonce recipient message : Bytes) : Bytes :=
  magic ++ d.publicKey ++ nonce ++ B.sealBox (sharedKey B d.privateKey recipient) nonce message

def endpointBytes (endpoint : Endpoint) : Bytes :=
  .replicate 10 0 ++ [0xff, 0xff]
    ++ (Ipv4Address.octets endpoint.address).map UInt8.ofNat ++ BigEndian.bytes 2 endpoint.port

/-- **A ping.** -/
def buildPing (nonce recipient transaction : Bytes) : Bytes :=
  sealMessage B d nonce recipient ([pingType, protocolVersion] ++ transaction ++ d.nodePublic)

/-- **A pong**, which says where the ping came from. -/
def buildPong (nonce recipient transaction : Bytes) (source : Endpoint) : Bytes :=
  sealMessage B d nonce recipient
    ([pongType, protocolVersion] ++ transaction ++ endpointBytes source)

/-- **A list of endpoints.** -/
def buildCallMeMaybe (nonce recipient : Bytes) (endpoints : List Endpoint) : Bytes :=
  sealMessage B d nonce recipient
    ([callMeMaybeType, protocolVersion] ++ endpoints.flatMap endpointBytes)

/-! ## Receiving -/

variable (packet : Bytes)

def isDiscoPacket : Bool :=
  decide (headerSize ≤ packet.length) && packet.take magic.length == magic

def senderOf : Bytes :=
  (packet.drop magic.length).take 32

def nonceOf : Bytes :=
  (packet.drop headerSize).take nonceSize

def boxOf : Bytes :=
  packet.drop (headerSize + nonceSize)

def ipv4Mapped (plaintext : Bytes) (offset : ℕ) : Bool :=
  ((plaintext.drop offset).take 10).all (· == 0)
    && plaintext.getD (offset + 10) 0 == 0xff && plaintext.getD (offset + 11) 0 == 0xff

def readEndpoint (plaintext : Bytes) (offset : ℕ) : Endpoint where
  address := Ipv4Address.ofOctets (readOctets plaintext (offset + 12) 4)
  port := read16 plaintext (offset + 16)

/-- Read some endpoints, without those that have no IPv4 address or no
port. -/
def readEndpoints (plaintext : Bytes) : ℕ → ℕ → List Endpoint
  | 0, _ => []
  | n + 1, offset =>
    let rest := readEndpoints plaintext n (offset + endpointSize)
    if ipv4Mapped plaintext offset && (readEndpoint plaintext offset).port != 0 then
      readEndpoint plaintext offset :: rest
    else
      rest

def parsePing (type : MessageType) (sender plaintext : Bytes) : Option Message :=
  let endpointOffset := messageHeaderSize + transactionSize
  if plaintext.length < endpointOffset then
    none
  else
    some {
      type
      transaction := (plaintext.drop messageHeaderSize).take transactionSize
      sender
      sourceEndpoint :=
        if type = .pong ∧ endpointOffset + endpointSize ≤ plaintext.length ∧
            ipv4Mapped plaintext endpointOffset then
          some (readEndpoint plaintext endpointOffset)
        else
          none }

def parseCallMeMaybe (sender plaintext : Bytes) : Option Message :=
  let size := plaintext.length - messageHeaderSize
  if size % endpointSize ≠ 0 then
    none
  else
    some {
      type := .callMeMaybe
      sender
      endpoints := readEndpoints plaintext (size / endpointSize) messageHeaderSize }

def parsePlaintext (sender plaintext : Bytes) : Option Message :=
  if plaintext.getD 1 0 ≠ protocolVersion then none
  else if plaintext.getD 0 0 = pingType then parsePing .ping sender plaintext
  else if plaintext.getD 0 0 = pongType then parsePing .pong sender plaintext
  else if plaintext.getD 0 0 = callMeMaybeType then parseCallMeMaybe sender plaintext
  else none

/-- **Read a packet.** -/
def parse (packet : Bytes) : Option Message :=
  if !isDiscoPacket packet ||
      decide (packet.length < headerSize + nonceSize + macSize + messageHeaderSize) then
    none
  else do
    let sender := senderOf packet
    let shared := sharedKey B d.privateKey sender
    let plaintext ← B.openBox shared (nonceOf packet) (boxOf packet)
    parsePlaintext sender plaintext

/-! ## What is accepted -/

variable {packet plaintext sender : Bytes} {message : Message}

theorem sender_of_parsePing {type : MessageType}
    (h : parsePing type sender plaintext = some message) : message.sender = sender := by
  dsimp only [parsePing] at h
  split at h
  · cases h
  · cases h
    rfl

theorem sender_of_parseCallMeMaybe
    (h : parseCallMeMaybe sender plaintext = some message) : message.sender = sender := by
  dsimp only [parseCallMeMaybe] at h
  split at h
  · cases h
  · cases h
    rfl

theorem sender_of_parsePlaintext
    (h : parsePlaintext sender plaintext = some message) : message.sender = sender := by
  unfold parsePlaintext at h
  split_ifs at h
  · exact sender_of_parsePing h
  · exact sender_of_parsePing h
  · exact sender_of_parseCallMeMaybe h

/-- **A packet that is accepted was opened** with the secret of the receiver
and the sender the packet names, or with zeros. -/
theorem exists_of_parse {B : SealedBoxes Secret} {d : Disco} (h : parse B d packet = some message) :
    isDiscoPacket packet ∧ message.sender = senderOf packet ∧
      ∃ plaintext, B.openBox (sharedKey B d.privateKey message.sender) (nonceOf packet)
        (boxOf packet) = some plaintext := by
  unfold parse at h
  split at h
  · cases h
  · rename_i hpk
    simp only [Bool.or_eq_true, Bool.not_eq_true', not_or, Bool.not_eq_false] at hpk
    obtain ⟨plaintext, hop, hpa⟩ := Option.bind_eq_some_iff.mp h
    have hsn := sender_of_parsePlaintext hpa
    rw [hsn]
    exact ⟨hpk.1, rfl, plaintext, hop⟩

theorem length_senderOf (h : isDiscoPacket packet) : (senderOf packet).length = 32 := by
  have hlen : headerSize ≤ packet.length := by
    simp only [isDiscoPacket, Bool.and_eq_true, decide_eq_true_eq] at h
    exact h.1
  simp [senderOf, headerSize, magic] at hlen ⊢
  omega

/-! ## Packets of others

Whoever can name a key and seal a box can put a packet together. -/

def packetOf (sender nonce box : Bytes) : Bytes :=
  magic ++ sender ++ nonce ++ box

section

variable {nonce box : Bytes}

theorem senderOf_packetOf (hsn : sender.length = 32) :
    senderOf (packetOf sender nonce box) = sender := by
  simp [senderOf, packetOf, magic, ← hsn]

theorem nonceOf_packetOf (hsn : sender.length = 32) (hnc : nonce.length = 24) :
    nonceOf (packetOf sender nonce box) = nonce := by
  have hdr : (packetOf sender nonce box).drop headerSize = nonce ++ box := by
    unfold packetOf
    rw [append_assoc]
    exact drop_left' (by simp [headerSize, hsn])
  rw [nonceOf, hdr]
  exact take_left' hnc

theorem boxOf_packetOf (hsn : sender.length = 32) (hnc : nonce.length = 24) :
    boxOf (packetOf sender nonce box) = box := by
  exact drop_left' (by simp [headerSize, nonceSize, hsn, hnc])

theorem isDiscoPacket_packetOf (hsn : sender.length = 32) :
    isDiscoPacket (packetOf sender nonce box) := by
  simp [isDiscoPacket, packetOf, headerSize, hsn]

theorem parse_packetOf {B : SealedBoxes Secret} {d : Disco} {plaintext : Bytes}
    (hsn : sender.length = 32) (hnc : nonce.length = 24) (hbox : 18 ≤ box.length)
    (hop : B.openBox (sharedKey B d.privateKey sender) nonce box = some plaintext) :
    parse B d (packetOf sender nonce box) = parsePlaintext sender plaintext := by
  have hlen : ¬(packetOf sender nonce box).length
      < headerSize + nonceSize + macSize + messageHeaderSize := by
    simp [packetOf, headerSize, nonceSize, macSize, messageHeaderSize, hsn, hnc]
    omega
  unfold parse
  rw [senderOf_packetOf hsn, nonceOf_packetOf hsn hnc, boxOf_packetOf hsn hnc]
  simp [isDiscoPacket_packetOf hsn, hlen, hop]

end

def shortPing : Bytes := [pingType, protocolVersion] ++ replicate 12 0

end Disco

end Tailgate
