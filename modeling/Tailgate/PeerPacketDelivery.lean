import Tailgate.DnsForwarder
import Tailgate.LocalServices
import Tailgate.PingTracker
import Tailgate.SessionPackets

/-!
# What the host gets from a peer

The runtime of a node keeps what is for the node itself and delivers the rest to
the host. Nobody compares the source address with the prefixes of the peer
(`spoofed_packet_delivered`). `MaySend` says what WireGuard asks for, and
`delivered_permitted` that it is true as far as the peers keep to it. `network`,
`exitNode` and `delivered` of a `ReceivingNode` are not in the program.
-/

namespace Tailgate

open Procedure WireGuard Ipv4Address List

/-! ## The runtime -/

/-- Where a packet goes. -/
inductive NodeDelivery where
  | host (packet : Bytes)
  | peer (key packet : Bytes)

structure NodeReceiveResult where
  hostAvailable : Bool := true
  dns : Option DnsReply := none
  ping : Option PingResult := none

/-- **The runtime of a node.** -/
structure NodeRuntime where
  services : LocalServices := {}
  network : NetworkConfig := {}
  dns : DnsForwarder := {}
  pings : PingTracker := {}
  /-- The port of the API for peers, if pings are answered. -/
  peerApiPort : Option ℕ := some 0

namespace NodeRuntime

def setNetworkConfig (aton : Aton) (ntoa : List ℕ → String)
    (starts : StackStart) (config : NetworkConfig) : EStateM Unit NodeRuntime Unit := do
  within services (fun services runtime => { runtime with services })
    (LocalServices.setNetworkConfig aton ntoa starts config)
  modify fun runtime => { runtime with network := config }

/-- **A packet of a peer's.** -/
def handlePeerPacket (ntoa : List ℕ → String) (peer packet : Bytes) (now : ℕ)
    (hostAvailable : Bool) (runtime : NodeRuntime) :
    NodeReceiveResult × List NodeDelivery × NodeRuntime :=
  match runtime.services.handlePeerPacket ntoa peer packet with
  | (true, services) => ({}, [], { runtime with services })
  | (false, services) =>
    let runtime := { runtime with services }
    match runtime.peerApiPort.bind (TsmpPacket.buildPong packet) with
    | some pong => ({}, [.peer peer pong], runtime)
    | none =>
      match TsmpPacket.parsePong packet with
      | some pong =>
        let (ping, pings) := runtime.pings.completeTsmp pong.token pong.peerApiPort now
        ({ ping }, [], { runtime with pings })
      | none =>
        match runtime.dns.completePacket packet with
        | (some reply, dns) => ({ dns := some reply }, [], { runtime with dns })
        | (none, dns) => ({ hostAvailable }, [.host packet], { runtime with dns })

/-- The host gets no other packet than the one that has come. -/
theorem eq_of_host_mem {ntoa : List ℕ → String} {peer packet delivered : Bytes} {now : ℕ}
    {hostAvailable : Bool} {runtime : NodeRuntime}
    (h : .host delivered ∈ (runtime.handlePeerPacket ntoa peer packet now hostAvailable).2.1) :
    delivered = packet := by
  unfold handlePeerPacket at h
  split at h
  · cases h
  dsimp only at h
  split at h
  · simp at h
  split at h
  · cases h
  split at h
  · cases h
  · simpa using h

end NodeRuntime

/-! ## Runs -/

/-- **A peer may send packets with a source address**: it has a prefix that
the address matches, or it is the exit. -/
def NetworkConfig.MaySend (network : NetworkConfig) (exitNode : String) (key : Bytes)
    (source : ℕ) : Prop :=
  (∃ peer ∈ network.peers, parseNodeKey peer.key = some key ∧
      ∃ p ∈ peer.allowedPrefixes, p.Matches source) ∨
    (exitNode ≠ "" ∧ ∃ i ∈ network.findExitNode exitNode true, ∃ peer ∈ network.peers[i]?,
      parseNodeKey peer.key = some key)

instance (network : NetworkConfig) (exitNode : String) (key : Bytes) (source : ℕ) :
    Decidable (network.MaySend exitNode key source) :=
  inferInstanceAs (Decidable (_ ∨ _))

/-- A delivery and the map it met. -/
structure HostDelivery where
  peer : Bytes
  packet : Bytes
  /-- The network map that the router had been given last. -/
  network : NetworkConfig
  exitNode : String

/-- **A delivery is permitted**: if the packet is an IPv4 packet, its peer may
send it. -/
def HostDelivery.Permitted (delivery : HostDelivery) : Prop :=
  ∀ source ∈ Ipv4Packet.source delivery.packet,
    delivery.network.MaySend delivery.exitNode delivery.peer source

/-- **What takes part in receiving.** -/
structure ReceivingNode where
  session : Session := { configured := true }
  runtime : NodeRuntime := {}
  network : NetworkConfig := {}
  exitNode : String := ""
  received : List NodeReceiveResult := []
  delivered : List HostDelivery := []

namespace ReceivingNode

/-- **A new network map**, for the session first. -/
def updateNetwork (aton : Aton) (ntoa : List ℕ → String) (lib : Library)
    (starts : StackStart) (network : NetworkConfig) (exitNode : String) (n : ReceivingNode) :
    ReceivingNode :=
  match Session.updatePeers lib network.peers exitNode n.session with
  | .ok _ session =>
    { n with
      session, network, exitNode
      runtime := after (NodeRuntime.setNetworkConfig aton ntoa starts network) n.runtime }
  | .error _ session => { n with session, network, exitNode }

/-- **Give the next packet of a peer's to the runtime.** -/
def handleNext (ntoa : List ℕ → String) (now : ℕ) (hostAvailable : Bool) (n : ReceivingNode) :
    ReceivingNode :=
  match n.session.wireGuardEvents with
  | [] => n
  | event :: events =>
    match event.plaintext with
    | [] => { n with session := { n.session with wireGuardEvents := events } }
    | packet :: rest =>
      let (result, deliveries, runtime) :=
        n.runtime.handlePeerPacket ntoa event.peer packet now hostAvailable
      { n with
        session := { n.session with
          wireGuardEvents := { event with plaintext := rest } :: events }
        runtime
        received := n.received ++ [result]
        delivered := n.delivered ++ deliveries.filterMap fun
          | .host packet => some {
              peer := event.peer, packet, network := n.network, exitNode := n.exitNode }
          | .peer _ _ => none }

variable {Secret : Type}

inductive Event (Secret : Type) where
  | updateNetwork (lib : Library) (starts : StackStart) (network : NetworkConfig)
      (exitNode : String)
  | packet (B : SealedBoxes Secret) (io : Session.Inputs) (lib : Library) (turns : ℕ)
      (now : UInt32) (derpSource : Option Bytes) (directSource : Option Endpoint)
      (derpConnection : Option ℕ) (packet : Bytes)
  | handleNext (now : ℕ) (hostAvailable : Bool)
  /-- Queries are forwarded, pings are sent, or the port changes. -/
  | other (dns : DnsForwarder) (pings : PingTracker) (peerApiPort : Option ℕ)

def next (aton : Aton) (ntoa : List ℕ → String) (n : ReceivingNode) :
    Event Secret → ReceivingNode
  | .updateNetwork lib starts network exitNode =>
    n.updateNetwork aton ntoa lib starts network exitNode
  | .packet B io lib turns now derpSource directSource derpConnection packet =>
    { n with session := after (Session.processPacket B io lib turns now derpSource directSource
        derpConnection packet) n.session }
  | .handleNext now hostAvailable => n.handleNext ntoa now hostAvailable
  | .other dns pings peerApiPort =>
    { n with runtime := { n.runtime with dns, pings, peerApiPort } }

/-- **A node that receives.** -/
def receiving (Secret : Type) (aton : Aton) (ntoa : List ℕ → String) :
    TransitionSystem ReceivingNode (Event Secret) where
  init n := ∃ disco, n = { session := { configured := true, disco } }
  step n event n' := n' = n.next aton ntoa event

/-- **What waits for the runtime** has source addresses that its peer may use. -/
def Fair (network : NetworkConfig) (exitNode : String) (events : List SessionWireGuardEvent) :
    Prop :=
  ∀ event ∈ events, ∀ packet ∈ event.plaintext, ∀ source ∈ Ipv4Packet.source packet,
    network.MaySend exitNode event.peer source

instance (network : NetworkConfig) (exitNode : String) (events : List SessionWireGuardEvent) :
    Decidable (Fair network exitNode events) :=
  inferInstanceAs (Decidable (∀ event ∈ events, _))

/-- **The peers keep to their addresses**: what they put into their sessions has
source addresses that they may use when it arrives, and no map takes an address
from a peer while a packet of it waits. -/
def Honest (n : ReceivingNode) : Event Secret → Prop
  | .updateNetwork _ _ network exitNode => Fair network exitNode n.session.wireGuardEvents
  | .packet B io lib turns now derpSource directSource derpConnection packet =>
    Fair n.network n.exitNode (after (Session.processPacket B io lib turns now derpSource
      directSource derpConnection packet) n.session).wireGuardEvents
  | _ => True

instance (n : ReceivingNode) : (event : Event Secret) → Decidable (Honest n event)
  | .updateNetwork .. => inferInstanceAs (Decidable (Fair _ _ _))
  | .packet .. => inferInstanceAs (Decidable (Fair _ _ _))
  | .handleNext .. => .isTrue trivial
  | .other .. => .isTrue trivial

variable {aton : Aton} {ntoa : List ℕ → String} {n : ReceivingNode}

/-- What waits is permitted, and so is what was delivered. -/
structure Kept (n : ReceivingNode) : Prop where
  waiting : Fair n.network n.exitNode n.session.wireGuardEvents
  permitted : ∀ delivery ∈ n.delivered, delivery.Permitted

theorem Kept.handleNext (h : Kept n) (now : ℕ) (hostAvailable : Bool) :
    Kept (n.handleNext ntoa now hostAvailable) := by
  unfold ReceivingNode.handleNext
  cases hev : n.session.wireGuardEvents with
  | nil => exact h
  | cons event events =>
    have hw := h.waiting
    rw [hev] at hw
    obtain ⟨hhead, htail⟩ := forall_mem_cons.mp hw
    cases hpl : event.plaintext with
    | nil =>
      dsimp only
      rw [hpl]
      exact ⟨htail, h.permitted⟩
    | cons packet rest =>
      dsimp only
      rw [hpl] at hhead ⊢
      refine ⟨forall_mem_cons.mpr ⟨(forall_mem_cons.mp hhead).2, htail⟩, fun delivery hdl => ?_⟩
      rcases mem_append.mp hdl with hdl | hdl
      · exact h.permitted delivery hdl
      · obtain ⟨given, hgv, heq⟩ := mem_filterMap.mp hdl
        cases given with
        | host =>
          cases heq
          rw [NodeRuntime.eq_of_host_mem hgv]
          exact (forall_mem_cons.mp hhead).1
        | peer => cases heq

/-- **One step.** -/
theorem Kept.next (h : Kept n) {event : Event Secret} (hh : Honest n event) :
    Kept (n.next aton ntoa event) := by
  cases event with
  | updateNetwork lib starts network exitNode =>
    have hsm := (Session.leaves_updatePeers lib network.peers exitNode).after_eq n.session
    show Kept (n.updateNetwork aton ntoa lib starts network exitNode)
    unfold updateNetwork Procedure.after at *
    split at hsm
    all_goals
      next hrun =>
      rw [hrun]
      exact ⟨hsm ▸ hh, h.permitted⟩
  | packet => exact ⟨hh, h.permitted⟩
  | other => exact ⟨h.waiting, h.permitted⟩
  | handleNext now hostAvailable => exact h.handleNext now hostAvailable

/-- **What the host gets is permitted if the peers keep to their addresses.** In every run in
which they do, the host gets no IPv4 packet from a peer that may not send it by the map that
the router was given last. -/
theorem delivered_permitted (h : ((receiving Secret aton ntoa).restrict Honest).Reachable n) :
    ∀ delivery ∈ n.delivered, delivery.Permitted := by
  refine (TransitionSystem.invariant (P := Kept) ?_ ?_ h).permitted
  · rintro _ ⟨_, rfl⟩
    exact ⟨fun _ hev => absurd hev not_mem_nil, fun _ hdl => absurd hdl not_mem_nil⟩
  · rintro _ _ _ hk ⟨hh, rfl⟩
    exact hk.next hh

/-! ## A peer in the name of another -/

def twoPeers : NetworkConfig where
  peers := [
    { key := "nodekey:" ++ .ofList (.replicate 64 '7')
      allowedPrefixes := [⟨ofOctets [100, 64, 0, 2], 32⟩] },
    { key := "nodekey:" ++ .ofList (.replicate 64 '8')
      allowedPrefixes := [⟨ofOctets [100, 64, 0, 3], 32⟩] }]

/-- The first of them establishes a session and sends a packet with a source
address. -/
def sends (source : ℕ) : List (Event (Option (UInt8 × UInt8))) :=
  let key := .replicate 32 0x77
  let packet := Ipv4UdpDatagram.build source (ofOctets [100, 64, 0, 1]) 1 2 [0]
  [.updateNetwork plain .ready twoPeers "",
    .packet SealedBoxes.Small.boxes {} plain 8192 1000 (some key) none none (plainInitiation 7),
    .packet SealedBoxes.Small.boxes {} plain 8192 2000 (some key) none none
      (plainTransport 7 0 packet),
    .handleNext 0 true, .handleNext 0 true]

def sent (source : ℕ) : ReceivingNode :=
  (sends source).foldl (next (fun _ => none) LocalServices.plainNtoa) {}

def nextIf (n : ReceivingNode) (event : Event (Option (UInt8 × UInt8))) : Option ReceivingNode :=
  if Honest n event then some (n.next (fun _ => none) LocalServices.plainNtoa event) else none

theorem delivered_permitted_own : ∃ n, ((receiving (Option (UInt8 × UInt8)) (fun _ => none)
      LocalServices.plainNtoa).restrict Honest).Reachable n ∧ n.delivered.length = 1 ∧
        ∀ delivery ∈ n.delivered, delivery.Permitted := by
  have hsp (n event n') (h : nextIf n event = some n') : ((receiving _ (fun _ => none)
      LocalServices.plainNtoa).restrict Honest).step n event n' := by
    unfold nextIf at h
    split_ifs at h with hh
    exact ⟨hh, (Option.some.inj h).symm⟩
  have hrun : ((sends (ofOctets [100, 64, 0, 2])).foldlM nextIf {}).map
      (fun n => n.delivered.length) = some 1 := by
    decide +kernel
  obtain ⟨n, hn, hone⟩ := Option.map_eq_some_iff.mp hrun
  have hre := TransitionSystem.Reachable.of_foldlM hsp (.init ⟨{}, rfl⟩) hn
  exact ⟨n, hre, hone, delivered_permitted hre⟩

/-- **The host gets a packet in the name of another peer.** -/
theorem spoofed_packet_delivered :
    (receiving (Option (UInt8 × UInt8)) (fun _ => none) LocalServices.plainNtoa).Reachable
        (sent (ofOctets [100, 64, 0, 3])) ∧
      ∃ delivery ∈ (sent (ofOctets [100, 64, 0, 3])).delivered, delivery.peer = replicate 32 0x77 ∧
        Ipv4Packet.source delivery.packet = some (ofOctets [100, 64, 0, 3]) ∧
        ¬delivery.network.MaySend delivery.exitNode delivery.peer (ofOctets [100, 64, 0, 3]) := by
  have hin : (receiving (Option (UInt8 × UInt8)) (fun _ => none)
      LocalServices.plainNtoa).Reachable {} := .init ⟨{}, rfl⟩
  exact ⟨hin.of_foldl (fun _ _ => rfl) (sends _), by decide +kernel⟩

end ReceivingNode

end Tailgate
