import Tailgate.PacketRouting
import Tailgate.WireGuardTunnel

/-!
# The WireGuard router

The router has one tunnel for all peers. A packet to be sent goes to the peer
whose addresses fit it; it is encrypted if there is a session, and waits for one
otherwise. Most methods are about one peer, what the router keeps of it together
with what the tunnel does, a `Link`. A peer that is not in the last configuration
is inactive.
-/

namespace Tailgate

open Procedure WireGuard PeerReference

/-! ## Keys -/

def unhexDigit (c : Char) : Option ℕ :=
  if '0' ≤ c ∧ c ≤ '9' then some (c.toNat - 48)
  else if 'a' ≤ c ∧ c ≤ 'f' then some (c.toNat - 87)
  else if 'A' ≤ c ∧ c ≤ 'F' then some (c.toNat - 55)
  else none

def hexToBytes : List Char → Option Bytes
  | [] => some []
  | [_] => none
  | high :: low :: rest => do
    let high ← unhexDigit high
    let low ← unhexDigit low
    let bytes ← hexToBytes rest
    some (UInt8.ofNat (16 * high + low) :: bytes)

def parseNodeKey (text : String) : Option Bytes :=
  if "nodekey:".toList <+: text.toList then
    (hexToBytes (text.toList.drop 8)).filter fun bytes => bytes.length = 32
  else
    none

/-! ## One peer -/

structure TransportPacket where
  peer : Bytes := []
  payload : Bytes := []
  control : Bool := false
  expectResponse : Bool := true
  handshake : Bool := false

structure ReceiveResult where
  source : Bytes := []
  outbound : List TransportPacket := []
  plaintext : List Bytes := []
  sessionEstablished : Bool := false
  accepted : Bool := false

/-- What the router keeps of a peer. -/
structure RouterPeer where
  config : PeerConfig := {}
  publicKey : Bytes := []
  tunnelPeer : ℕ := 0
  active : Bool := true
  /-- The packets that wait for a session, the oldest first. -/
  pending : List Bytes := []
  pendingBytes : ℕ := 0
  /-- The packets that were to be sent. The program does not keep this. -/
  submitted : List Bytes := []
  /-- Those of them that have been encrypted. The program does not keep
  this. -/
  encrypted : List Bytes := []

namespace RouterPeer

def maximumPendingPackets : ℕ := 1024

def maximumPendingBytes : ℕ := 4 * 1024 * 1024

def makeRoom (size : ℕ) : List Bytes → ℕ → List Bytes × ℕ
  | [], bytes => ([], bytes)
  | oldest :: rest, bytes =>
    if maximumPendingPackets ≤ rest.length + 1 ∨ maximumPendingBytes < bytes + size then
      makeRoom size rest (bytes - oldest.length)
    else
      (oldest :: rest, bytes)

def queue (plaintext : Bytes) (peer : RouterPeer) : RouterPeer :=
  let (pending, pendingBytes) := makeRoom plaintext.length peer.pending peer.pendingBytes
  if plaintext.length ≤ maximumPendingBytes then
    { peer with
      pending := pending ++ [plaintext]
      pendingBytes := pendingBytes + plaintext.length }
  else
    { peer with pending, pendingBytes }

def dequeue (plaintext : Bytes) (peer : RouterPeer) : RouterPeer :=
  { peer with
    pending := peer.pending.drop 1
    pendingBytes := peer.pendingBytes - plaintext.length }

def wrap (peer : RouterPeer) (payload : Bytes) (control : Bool)
    (expectResponse : Bool := true) (handshake : Bool := false) : TransportPacket where
  peer := peer.publicKey
  payload
  control
  expectResponse
  handshake

end RouterPeer

/-- A peer, and what the tunnel does for it. -/
structure Link where
  peer : RouterPeer := {}
  reference : PeerReference := {}

namespace Link

abbrev Linking := EStateM TunnelError Link

def tunnel {α : Type} (x : Peering α) : Linking α :=
  within reference (fun reference l => { l with reference }) x

def modifyPeer (f : RouterPeer → RouterPeer) : Linking Unit :=
  modify fun l => { l with peer := f l.peer }

def hasSession (now : UInt32) : Linking Bool := do
  let l ← get
  pure (l.reference.hasSession now)

variable (lib : Library) (now : UInt32)

def encryptSubmitted (plaintext : Bytes) : Linking TransportPacket := do
  let payload ← tunnel (encrypt lib now plaintext)
  modifyPeer fun peer => { peer with encrypted := peer.encrypted ++ [plaintext] }
  let l ← get
  pure (l.peer.wrap payload false)

def flushPending (lib : Library) (now : UInt32) : List Bytes → Linking (List TransportPacket)
  | [] => pure []
  | plaintext :: rest => do
    if ← hasSession now then do
      modifyPeer (RouterPeer.dequeue plaintext)
      let packet ← encryptSubmitted lib now plaintext
      let packets ← flushPending lib now rest
      pure (packet :: packets)
    else
      pure []

/-- **Encrypt the packets that wait.** -/
def flush : Linking (List TransportPacket) := do
  let l ← get
  flushPending lib now l.peer.pending

def initiate (handshake : Bool) : Linking (List TransportPacket) := do
  let l ← get
  let message ← tunnel (createHandshake lib now l.peer.tunnelPeer)
  pure [l.peer.wrap message true true handshake]

/-- **Ask for a session.** -/
def start : Linking (List TransportPacket) := do
  tunnel (PeerReference.modifyPeer fun peer => { peer with active := true })
  if ← hasSession now then
    pure []
  else do
    match ← tunnel (PeerReference.updateTimers now) with
    | .sendHandshake => initiate lib now true
    | _ => pure []

/-- **Send a packet**, or let it wait. -/
def send (plaintext : Bytes) : Linking (List TransportPacket) := do
  modifyPeer fun peer => { peer with submitted := peer.submitted ++ [plaintext] }
  if ← hasSession now then do
    let packet ← encryptSubmitted lib now plaintext
    pure [packet]
  else do
    modifyPeer (RouterPeer.queue plaintext)
    start lib now

/-- **What a packet of the peer's has brought**: if a session has been
established, packets need not wait any longer. -/
def receive (received : ReceivedPacket) : Linking ReceiveResult := do
  let l ← get
  let reply := if received.reply ≠ [] then [l.peer.wrap received.reply true false] else []
  let pending ← if received.sessionEstablished then flush lib now else pure []
  pure {
    source := l.peer.publicKey
    outbound := reply ++ pending
    plaintext := if received.plaintext ≠ [] then [received.plaintext] else []
    sessionEstablished := received.sessionEstablished
    accepted := true }

def receiveFrom (lib : Library) (turns : ℕ) (now : UInt32) (packet : Bytes) :
    Linking ReceiveResult := do
  let l ← get
  match ← tunnel (processPacket lib turns now l.peer.tunnelPeer packet) with
  | none => pure { source := l.peer.publicKey }
  | some received => receive lib now received

def updateTimers : Linking (List TransportPacket) := do
  match ← tunnel (PeerReference.updateTimers now) with
  | .sendHandshake => initiate lib now false
  | .sendKeepalive => do
    let payload ← tunnel (encrypt lib now [])
    let l ← get
    pure [l.peer.wrap payload true false]
  | .none => pure []

end Link

/-! ## All peers -/

/-- **The router.** -/
structure WireGuardRouter where
  tunnel : WireGuardTunnel := {}
  peers : List RouterPeer := []
  routes : List ℕ := []
  /-- The destinations that have been reported as unreachable. -/
  reportedUnroutableDestinations : List (ℕ × ℕ) := []
  exitNode : String := ""

namespace WireGuardRouter

abbrev Routing := EStateM TunnelError WireGuardRouter

def atTunnel {α : Type} (x : WireGuardTunnel.Tunneling α) : Routing α :=
  within tunnel (fun tunnel r => { r with tunnel }) x

def put (r : WireGuardRouter) (i : ℕ) (l : Link) : WireGuardRouter :=
  { r with
    peers := r.peers.set i l.peer
    tunnel := { peers := r.tunnel.peers.set l.peer.tunnelPeer l.reference } }

def link? (r : WireGuardRouter) (i : ℕ) : Option Link := do
  let peer ← r.peers[i]?
  let reference ← r.tunnel.peers[peer.tunnelPeer]?
  some { peer, reference }

def atLink {α : Type} (i : ℕ) (x : Link.Linking α) : Routing α := fun r =>
  match r.link? i with
  | none => .error .invalidPeer r
  | some l =>
    match x l with
    | .ok a l => .ok a (r.put i l)
    | .error e l => .error e (r.put i l)

variable (lib : Library) (now : UInt32)

def updatePeer (config : PeerConfig) : Routing Unit := do
  match parseNodeKey config.key with
  | none => pure ()
  | some publicKey => do
    let r ← get
    match r.peers.findIdx? fun peer => peer.publicKey = publicKey with
    | none => do
      let tunnelPeer ← atTunnel (WireGuardTunnel.addPeer lib publicKey)
      modify fun r => { r with
        peers := r.peers ++ [{ config, publicKey, tunnelPeer }]
        routes := r.routes ++ [r.peers.length] }
    | some i =>
      modify fun r => { r with
        peers := r.peers.modify i fun peer => { peer with config, active := true }
        routes := r.routes ++ [i] }

/-- **A new configuration.** -/
def updatePeers (configs : List PeerConfig) (exitNode : String) : Routing Unit := do
  modify fun r => { r with
    exitNode
    peers := r.peers.map fun peer => { peer with active := false }
    routes := [] }
  configs.forM (updatePeer lib)

def routeConfigs (r : WireGuardRouter) : List PeerConfig :=
  r.routes.filterMap fun i => (r.peers[i]?).map RouterPeer.config

def exitRoute (r : WireGuardRouter) : Option ℕ :=
  if r.exitNode = "" then none
  else NetworkConfig.findExitNode { peers := r.routeConfigs } r.exitNode true

/-- **The peer a packet goes to.** -/
def findRoute (aton : Aton) (packet : Bytes) (r : WireGuardRouter) :
    Option ℕ :=
  let network : NetworkConfig := { peers := r.routeConfigs }
  let route := match Ipv4Packet.destination packet with
    | some destination => network.findRoute destination r.exitRoute
    | none =>
      match parseIpEnvelope packet with
      | some envelope =>
        if envelope.destination.family = AddressFamily.ipv6 then
          network.findPeerAddress aton envelope.destination
        else
          none
      | none => none
  route.bind fun index => r.routes[index]?

def findPeer (key : Bytes) (r : WireGuardRouter) : Option ℕ :=
  r.peers.findIdx? fun peer => peer.active && peer.publicKey == key

def findTunnelPeer (tunnelPeer : ℕ) (r : WireGuardRouter) : Option ℕ :=
  r.peers.findIdx? fun peer => peer.active && peer.tunnelPeer == tunnelPeer

/-- **Send a packet** to the peer it goes to. -/
def send (aton : Aton) (lib : Library) (now : UInt32)
    (plaintext : Bytes) : Routing (List TransportPacket) := do
  let r ← get
  match r.findRoute aton plaintext with
  | none => do
    let destination := (Ipv4Packet.destination plaintext).getD 0
    let version := (plaintext.getD 0 0).toNat / 16
    modify fun r => { r with
      reportedUnroutableDestinations := r.reportedUnroutableDestinations.insert
        (version, destination) }
    pure []
  | some i => atLink i (Link.send lib now plaintext)

def sendTo (peer plaintext : Bytes) : Routing (List TransportPacket) := do
  let r ← get
  match r.findPeer peer with
  | none => pure []
  | some i => atLink i (Link.send lib now plaintext)

def start (peer : Bytes) : Routing (List TransportPacket) := do
  let r ← get
  match r.findPeer peer with
  | none => pure []
  | some i => atLink i (Link.start lib now)

/-- **Receive a packet** that is said to be a peer's. -/
def receiveFrom (lib : Library) (turns : ℕ) (now : UInt32) (source packet : Bytes) :
    Routing ReceiveResult := do
  let r ← get
  match r.findPeer source with
  | none => pure {}
  | some i => atLink i (Link.receiveFrom lib turns now packet)

/-- **Receive a packet** from anyone. -/
def receive (lib : Library) (turns : ℕ) (now : UInt32) (packet : Bytes) :
    Routing ReceiveResult := do
  match ← atTunnel (WireGuardTunnel.processAny lib turns now packet) with
  | none => pure {}
  | some received => do
    let r ← get
    match r.findTunnelPeer received.peer with
    | none => pure {}
    | some i => atLink i (Link.receive lib now received)

def updateTimersOf (lib : Library) (now : UInt32) : List ℕ → Routing (List TransportPacket)
  | [] => pure []
  | i :: routes => do
    let packets ← atLink i (Link.updateTimers lib now)
    let rest ← updateTimersOf lib now routes
    pure (packets ++ rest)

/-- **Look after the time.** -/
def updateTimers : Routing (List TransportPacket) := do
  let r ← get
  updateTimersOf lib now r.routes

end WireGuardRouter

end Tailgate
