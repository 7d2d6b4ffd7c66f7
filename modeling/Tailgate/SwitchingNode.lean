import Tailgate.HostedNode
import Tailgate.NativeNode
import Tailgate.TransitionMoves
import Tailgate.TransitionSystem

/-!
# The node that switches

A `SwitchingNode` has both backends and puts packets on the path of the
*selected* one. The coordinator decides how a switch proceeds, and the node
carries out the actions it queues, taken all at once and carried out one by one;
those of another generation are skipped.

The methods are procedures on a `Switching`, the node and its world. When a call
throws, the actions it had taken and not come to are lost, which `interrupted`
notes.
-/

namespace Tailgate

open Procedure HostedNode NativeNode

/-- **A node with both backends.** -/
structure SwitchingNode where
  native : NativeNode
  hosted : HostedNode
  /-- The attempts to connect to the relay of a switch. -/
  preparation : Recovery := {}
  transition : TransitionCoordinator
  selected : NodeMode
  exitNode : String := ""
  relayName : String := ""
  relayOptions : Option ConnectionOptions := none
  preparedRelay : Option ConnectionResult := none
  /-- The revision of the configuration the relay has applied. -/
  appliedMap : ℕ := 0
  preparationGeneration : ℕ := 0
  /-- Whether an exception has cut the carrying out of actions short. -/
  interrupted : Bool := false

structure Switching where
  node : SwitchingNode
  world : World

namespace SwitchingNode

open TransitionCoordinator (Input)

abbrev Proc := EStateM Fault Switching

def new (native : NativeNode) (hosted : HostedNode) (initial : NodeMode) (exitNode : String) :
    SwitchingNode where
  native := native
  hosted := hosted
  transition := .new initial
  selected := initial
  exitNode := exitNode

def drawn {α : Type} (x : EStateM Fault World α) : Proc α :=
  within Switching.world (fun w s => { s with world := w }) x

def update (f : SwitchingNode → SwitchingNode) : Proc Unit :=
  modify fun s => { s with node := f s.node }

def onNative {α : Type} (x : NativeNode.Proc α) : Proc α :=
  within (fun s => s.node.native) (fun n s => { s with node := { s.node with native := n } }) x

def onHosted {α : Type} (x : HostedNode.Proc α) : Proc α :=
  within (fun s => { node := s.node.hosted, world := s.world })
    (fun h s => { s with node := { s.node with hosted := h.node }, world := h.world }) x

def tell (input : Input) : Proc Unit := do
  let now ← drawn World.now
  update fun n => { n with transition := n.transition.step now input }

variable (n : SwitchingNode)

def network : NetworkConfig :=
  match n.selected with
  | .native => n.native.network
  | .hosted => n.hosted.network

def toUint16 (region : ℤ) : ℕ := (region % 65536).toNat

/-- The DERP regions of the configuration: the home region and those of the
peers. -/
def regions : List ℕ :=
  toUint16 n.network.derpRegion ::
    (n.network.peers.filter fun peer => 0 < peer.derpRegion).map fun peer =>
      toUint16 peer.derpRegion

/-! ## Carrying out actions -/

def prepareRelay (options : ConnectionOptions) : Proc Unit := do
  let now ← drawn World.now
  update fun n => { n with preparation := (n.preparation.configure options).failed now }

def dropRelay : Proc Unit :=
  update fun n => { n with preparation := n.preparation.cancel, preparedRelay := none }

def select (mode : NodeMode) : Proc Unit := update fun n => { n with selected := mode }

/-- Starts the hosted backend with the relay of the switch, which there may
be none of any more. -/
def activateHosted : Proc Unit := do
  let s ← get
  match s.node.preparedRelay with
  | none => tell (.cancel .preparationFailed)
  | some relay => do
    onHosted (start { relay with network := s.node.native.network } s.node.exitNode
      s.node.relayName)
    update fun n => { n with preparedRelay := none }

def relayUnreachable : Fault → Proc Unit
  | .system => tell .relayFailed
  | fault => throw fault

def carryOut (action : TransitionAction) : Proc Unit := do
  let s ← get
  match action.kind with
  | .prepareNative => do
    onHosted stopRecovery
    onNative (setDerpEnabled false)
    update fun n => { n with preparationGeneration := action.generation }
  | .prepareHosted => do
    prepareRelay (s.node.relayOptions.getD {})
    update fun n => { n with preparationGeneration := action.generation }
  | .suspendNative => onNative (setDerpEnabled false)
  | .activateNative => do
    onNative (setDerpEnabled true)
    if s.node.transition.status.phase = .failed then select .native else pure ()
  | .activateHosted => activateHosted
  | .selectNative => select .native
  | .selectHosted => select .hosted
  | .retireNative => do
    onNative (setDerpEnabled false)
    onNative suspendNetwork
    if s.node.selected = .hosted then onHosted resumeRecovery else pure ()
  | .retireHosted => do
    dropRelay
    onHosted stopRecovery
    onHosted retireTransport
  | .recoverHosted => do
    onHosted resumeRecovery
    select .hosted
  | .delegation => tryCatch (onHosted requestDelegation) relayUnreachable

/-- Carries out an action that has been taken, unless its generation is
over. -/
def applyAction (action : TransitionAction) : Proc Unit := do
  let s ← get
  if action.generation ≠ s.node.transition.status.generation then pure () else carryOut action

def takeActions : Proc (List TransitionAction) :=
  modifyGet fun s =>
    (s.node.transition.takeActions.1,
      { s with node := { s.node with transition := s.node.transition.takeActions.2 } })

def interrupt (fault : Fault) : Proc Unit := do
  update fun n => { n with interrupted := true }
  throw fault

def applyActions : Proc Unit := do
  let actions ← takeActions
  tryCatch (actions.forM applyAction) interrupt

/-! ## What happens -/

def reconcileMap : Proc Unit := do
  let s ← get
  if s.node.hosted.stream = false then pure ()
  else do
    tell (.mapChanged s.node.hosted.client.mapRevision s.node.regions)
    tell (.mapApplied s.node.appliedMap)

def observeMap : Option ℕ → Proc Unit
  | none => pure ()
  | some revision => do
    update fun n => { n with appliedMap := revision }
    tell (.mapApplied revision)

def observe (result : NodeEvents) : Proc Unit := do
  observeMap result.appliedMapRevision
  result.delegationReplies.forM fun reply => tell (.reply reply)
  if result.transportFailure = true then tell .relayFailed else pure ()

def pollPreparation : Proc Unit := do
  let turn ← drawn World.turn
  let candidate ← modifyGet fun s =>
    let polled := s.node.preparation.pollAt turn
    (polled.1, { s with node := { s.node with preparation := polled.2 } })
  match candidate with
  | .error _ => throw .system
  | .ok none => pure ()
  | .ok (some relay) => do
    update fun n => { n with preparedRelay := some relay }
    let s ← get
    tell (.prepared s.node.preparationGeneration true)

def pollNative : Proc Unit := do
  let bound ← drawn World.isBound
  let s ← get
  if bound = true then tell (.prepared s.node.preparationGeneration true) else pure ()

def adoptHosted : Proc Unit := do
  let s ← get
  onNative (NativeNode.updateNetwork s.node.hosted.network)

def pollPassive : Proc NodeEvents := do
  let s ← get
  if s.node.selected = .native ∧ s.node.hosted.stream = true then do
    let passive ← onHosted pollTransport
    observe passive
    if passive.networkChanged = true then do
      adoptHosted
      reconcileMap
      pure passive
    else pure passive
  else pure {}

def observeOwnership : Proc Unit := do
  let changes ← drawn World.linkChanges
  onNative (link changes)
  let s ← get
  if s.node.native.ownershipReady = true then
    tell (.nativeReady s.node.transition.status.generation)
  else pure ()

/-- Sees to the candidate of the switch under way, by the status there was
when the round began. -/
def pollCandidate (status : TransitionStatus) : Proc Unit :=
  if status.phase = .preparing then
    match status.desired with
    | .hosted => pollPreparation
    | .native => pollNative
  else pure ()

def advance (result : NodeEvents) : Proc NodeEvents := do
  applyActions
  let s ← get
  pollCandidate s.node.transition.status
  let passive ← pollPassive
  observeOwnership
  tell .poll
  applyActions
  pure (result.merge passive)

def waitActive : Proc NodeEvents := do
  let s ← get
  match s.node.selected with
  | .native => do
    let session ← drawn World.session
    onNative (wait session)
  | .hosted => onHosted wait

def shareNetwork : Proc Unit := do
  let s ← get
  match s.node.selected with
  | .hosted => adoptHosted
  | .native =>
    if s.node.hosted.stream = true then
      onHosted (updateNetwork s.node.native.network)
    else pure ()

def reconcileNetwork (changed : Bool) : Proc Unit :=
  if changed = true then do
    shareNetwork
    reconcileMap
  else pure ()

/-! ## The calls -/

/-- The map revision a switch starts with: the one the relay has been sent,
or the first one a new relay will be. -/
def startingRevision : NodeMode → ℕ
  | .native => n.hosted.client.mapRevision
  | .hosted => 1

/-- The coordinator of a new switch learns which configuration the relay has
applied; a new relay has applied none. -/
def recordMap : NodeMode → Proc Unit
  | .native => do
    let s ← get
    tell (.mapApplied s.node.appliedMap)
  | .hosted => update fun n => { n with appliedMap := 0 }

def beginTransition (desired : NodeMode) : Proc Bool := do
  let now ← drawn World.now
  let s ← get
  match s.node.transition.begin now desired (s.node.startingRevision desired) s.node.regions
      true with
  | .error _ => throw .argument
  | .ok (accepted, transition) => do
    update fun n => { n with transition := transition }
    recordMap desired
    applyActions
    pure accepted

def setRelay (relay : Option ConnectionOptions) : SwitchingNode :=
  match relay with
  | none => { n with relayOptions := none }
  | some relay =>
    let name := relay.tlsServerName.getD relay.connectAddress
    { n with
      relayOptions := some { relay with network := n.network, exitNode := n.exitNode }
      relayName := .ofList (name.toList.takeWhile (· ≠ '.')) }

/-- Asks for a switch. Returns whether the mode is or will be the one asked
for. -/
def requestMode (desired : NodeMode) (relay : Option ConnectionOptions) : Proc Bool := do
  let s ← get
  if desired = s.node.selected ∧ s.node.transition.status.phase = .idle then pure true
  else if desired = .hosted ∧ relay = none then throw (.node .invalidTransportOptions)
  else if s.node.transition.active = true then pure false
  else do
    update fun n => n.setRelay relay
    beginTransition desired

def cancelTransition (reason : TransitionFailure) : Proc Unit := do
  dropRelay
  tell (.cancel reason)
  applyActions

def enterNetwork (networkInterface : String) : Proc Unit := do
  onNative changeNetwork
  let s ← get
  onNative (setDerpEnabled (s.node.selected == .native))
  if s.node.selected = .hosted then onHosted (changeNetwork networkInterface)
  else pure ()

def changeNetwork (networkInterface : Option String) : Proc Unit := do
  dropRelay
  onNative (setDerpEnabled false)
  onNative suspendNetwork
  onHosted stopRecovery
  onHosted retireTransport
  tell (.abort .cancelled)
  match networkInterface with
  | none => pure ()
  | some networkInterface => enterNetwork networkInterface

def updateHosted (network : NetworkConfig) : Proc Unit := do
  let s ← get
  if s.node.hosted.stream = true then onHosted (updateNetwork network) else pure ()

def updateNetwork (network : NetworkConfig) : Proc Unit := do
  onNative (NativeNode.updateNetwork network)
  updateHosted network
  reconcileMap
  applyActions

def wait : Proc NodeEvents := do
  let result ← advance {}
  let completed ← waitActive
  observe completed
  reconcileNetwork completed.networkChanged
  advance (result.merge completed)

inductive Call
  | requestMode (desired : NodeMode) (relay : Option ConnectionOptions)
  | cancelTransition (reason : TransitionFailure)
  | changeNetwork (networkInterface : Option String)
  | updateNetwork (network : NetworkConfig)
  | wait
  deriving DecidableEq

def perform : Call → Proc Unit
  | .requestMode desired relay => do let _ ← requestMode desired relay
  | .cancelTransition reason => cancelTransition reason
  | .changeNetwork networkInterface => changeNetwork networkInterface
  | .updateNetwork network => updateNetwork network
  | .wait => do let _ ← wait

structure Event where
  call : Call
  world : World := {}

def step (e : Event) : SwitchingNode :=
  match perform e.call { node := n, world := e.world } with
  | .ok _ s => s.node
  | .error _ s => s.node

/-- A hosted backend as a node is made with it: new, or started with a
connection. -/
inductive Fresh : HostedNode → Prop
  | new : Fresh {}
  | started {connection : ConnectionResult} {exitNode relayName : String} {world : World}
      {h : Hosting} (hs : start connection exitNode relayName
        { node := {}, world := world } = .ok () h) : Fresh h.node

/-- **A switching node under arbitrary calls**, in arbitrary worlds. -/
def system : TransitionSystem SwitchingNode Event where
  init n := ∃ native hosted initial exitNode, Fresh hosted ∧ n = new native hosted initial exitNode
  step n e n' := n' = n.step e

theorem reachable_foldl {n : SwitchingNode} (h : system.Reachable n) (es : List Event) :
    system.Reachable (es.foldl step n) :=
  h.of_foldl (fun _ _ => rfl) es

/-! ## A node alone in its tailnet -/

def homeNetwork : NetworkConfig := { selfNodeId := 1, derpRegion := 1, derpHost := "derp1" }

def homeRelay : ConnectionResult := { network := homeNetwork }

def startNative : SwitchingNode :=
  new { started := true, network := homeNetwork, derpEnabled := true } {} .native ""

theorem reachable_startNative : system.Reachable startNative :=
  .init ⟨_, _, _, _, .new, rfl⟩

def startedHosting : Hosting :=
  match start homeRelay "" "" { node := {}, world := {} } with
  | .ok _ h => h
  | .error _ h => h

def startHosted : SwitchingNode :=
  new { started := true, network := homeNetwork } startedHosting.node .hosted ""

theorem reachable_startHosted : system.Reachable startHosted := by
  have hstart : start homeRelay "" "" { node := {}, world := {} }
      = .ok () startedHosting := rfl
  exact .init ⟨_, _, _, _, .started hstart, rfl⟩

end SwitchingNode

end Tailgate
