import Tailgate.NodeBackend

/-!
# The hosted backend

A hosted node reaches its peers through a relay, over one authenticated stream.
It is installed at the start and whenever `Recovery` has a new connection, and
*retired* when it fails or when the node is told to. A `Hosting` is the node, its
world, and the events of the call under way. `history` records how the stream
came to be replaced.
-/

namespace Tailgate

open Procedure

structure HostedClient where
  active : Bool := false
  /-- The configuration the relay has been sent, or has sent. -/
  network : NetworkConfig := {}
  mapRevision : ℕ := 0

inductive TransportEvent
  | resumed (live : Bool)
  | replaced (live : Bool)
  deriving DecidableEq

/-- **A hosted node.** -/
structure HostedNode where
  stream : Bool := false
  ready : Bool := false
  client : HostedClient := {}
  network : NetworkConfig := {}
  exitNode : String := ""
  relayName : String := ""
  recovery : Recovery := {}
  nextHeartbeat : ℕ := 0
  nextProbe : ℕ := 0
  nextMaintenance : ℕ := 0
  /-- What has been done about the stream, the latest last. -/
  history : List TransportEvent := []

structure Hosting where
  node : HostedNode
  world : World
  result : NodeEvents := {}

namespace HostedNode

abbrev Proc := EStateM Fault Hosting

def heartbeatInterval : ℕ := 20000

def maintenanceInterval : ℕ := 1000

def directProbeInterval : ℕ := 5000

def drawn {α : Type} (x : EStateM Fault World α) : Proc α :=
  within Hosting.world (fun w h => { h with world := w }) x

def update (f : HostedNode → HostedNode) : Proc Unit := modify fun h => { h with node := f h.node }

def report (f : NodeEvents → NodeEvents) : Proc Unit :=
  modify fun h => { h with result := f h.result }

def queue : Proc Unit := do
  let full ← drawn World.isFull
  let h ← get
  if h.node.stream = true ∧ full = true then throw .system else pure ()

/-- Installs a stream. The relay is given the current configuration, never
the one the connection was made with. -/
def replaceTransport (connection : ConnectionResult) : Proc Unit := do
  let h ← get
  if connection.network.sameIdentity h.node.network = false then throw (.node .identityChanged)
  else do
    update fun n => { n with
      stream := true
      ready := false
      client := { active := true, network := n.network, mapRevision := 1 } }
    queue
    queue

def start (connection : ConnectionResult) (exitNode relayName : String) : Proc Unit := do
  let h ← get
  let busy ← drawn World.isBusy
  if h.node.stream = true then throw .logic
  else if busy = true then throw .system
  else do
    let heartbeat ← drawn World.now
    let probe ← drawn World.now
    let maintenance ← drawn World.now
    update fun n => { n with
      exitNode := exitNode
      relayName := relayName
      network := connection.network
      recovery := n.recovery.configure connection.reconnect
      nextHeartbeat := heartbeat + heartbeatInterval
      nextProbe := probe
      nextMaintenance := maintenance }
    replaceTransport connection

def retireTransport : Proc Unit := update fun n => { n with stream := false, ready := false }

def stopRecovery : Proc Unit := update fun n => { n with recovery := n.recovery.cancel }

def failed : Proc Unit := do
  let now ← drawn World.now
  update fun n => { n with recovery := n.recovery.failed now }

def resumeRecovery : Proc Unit := do
  update fun n => { n with history := n.history ++ [.resumed n.stream] }
  failed

def requestDelegation : Proc Unit := do
  let h ← get
  if h.node.stream = false then throw .system else queue

def changeNetwork (networkInterface : String) : Proc Unit := do
  retireTransport
  let now ← drawn World.now
  update fun n => { n with recovery := n.recovery.changeNetwork networkInterface now }

variable (network : NetworkConfig)

def updateNetworkMap (outbound : Bool) : Proc Unit := do
  let h ← get
  if h.node.client.active = false ∨ network.sameIdentity h.node.client.network = false then
    throw .client
  else update fun n => { n with
    client := { n.client with
      network := network
      mapRevision := if outbound then n.client.mapRevision + 1 else n.client.mapRevision } }

def updateNetwork : Proc Unit := do
  let h ← get
  if network.sameIdentity h.node.network = false then throw (.node .identityChanged)
  else do
    updateNetworkMap network true
    queue
    update fun n => { n with network := network }

def receiveFrame : RelayFrame → Proc Unit
  | .networkMap network => do
    updateNetworkMap network false
    updateNetwork network
    report fun r => { r with networkChanged := true }
  | .networkMapAck revision => do
    let h ← get
    if h.node.client.mapRevision < revision then throw .system
    else report fun r => { r with appliedMapRevision := some revision }
  | .delegationReply reply =>
    report fun r => { r with delegationReplies := r.delegationReplies ++ [reply] }
  | .dataPathReady => do
    report fun r => { r with dataPathReady := true }
    update fun n => { n with ready := true }
  | .heartbeat => do
    queue
    let now ← drawn World.now
    update fun n => { n with nextHeartbeat := now + heartbeatInterval }
  | .other => queue
  | .malformed => throw .system
  | .invalid => throw .protocol

def transportFailed : Fault → Proc Unit
  | .system => do
    report fun r => { r with transportFailure := true }
    retireTransport
    failed
  | fault => throw fault

def handle : Reception → Proc Unit
  | .frames frames => frames.forM receiveFrame
  | .lost => throw .system
  | .undecodable => throw .protocol

def recover : Proc Unit := do
  let turn ← drawn World.turn
  let replacement ← modifyGet fun h =>
    let polled := h.node.recovery.pollAt turn
    (polled.1, { h with node := { h.node with
      recovery := polled.2
      history :=
        match polled.1 with
        | .ok (some _) => h.node.history ++ [.replaced h.node.stream]
        | _ => h.node.history } })
  match replacement with
  | .error _ => throw .system
  | .ok none => pure ()
  | .ok (some connection) => replaceTransport connection

def receive : Proc Unit := do
  let h ← get
  if h.node.stream = false then pure ()
  else tryCatch (drawn World.reception >>= handle) transportFailed

def queueDue (due : Bool) (f : HostedNode → HostedNode) : Proc Unit :=
  if due = true then do
    queue
    update f
  else pure ()

/-- Queues what is due: heartbeats, and when the local side is looked after,
timers, probes and the packets of the local services. -/
def upkeep (processLocal : Bool) : Proc Unit := do
  let now ← drawn World.now
  let h ← get
  let packets ← drawn World.localPackets
  queueDue (decide (h.node.nextHeartbeat ≤ now))
    fun n => { n with nextHeartbeat := now + heartbeatInterval }
  queueDue (processLocal && decide (h.node.nextMaintenance ≤ now))
    fun n => { n with nextMaintenance := now + maintenanceInterval }
  queueDue (processLocal && decide (h.node.nextProbe ≤ now))
    fun n => { n with nextProbe := now + directProbeInterval }
  (List.range (if processLocal then packets else 0)).forM fun _ => queue

def flush : Proc Unit := do
  let h ← get
  if h.node.stream = false then pure ()
  else do
    let broken ← drawn World.isBroken
    if broken = true then transportFailed .system else pure ()

def poll (processLocal : Bool) : Proc Unit := do
  recover
  receive
  upkeep processLocal
  flush

def pollTransport : Proc NodeEvents := do
  report fun _ => {}
  poll false
  let h ← get
  pure h.result

def updateFromSession : Proc Unit := do
  updateNetwork network
  report fun r => { r with networkChanged := true }

def wait : Proc NodeEvents := do
  report fun _ => {}
  poll true
  let session ← drawn World.session
  session.networkMaps.forM updateFromSession
  (List.range session.packets).forM fun _ => queue
  poll true
  let h ← get
  pure h.result

end HostedNode

end Tailgate
