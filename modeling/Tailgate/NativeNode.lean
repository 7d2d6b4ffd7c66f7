import Tailgate.NodeBackend

/-!
# The native backend

A native node reaches its peers itself: over UDP, and through DERP
connections it authenticates with its key. What is modelled is what the
switching between backends looks at – the configuration, the DERP connections
and whether they may be open – with the packet path left out.
-/

namespace Tailgate

open Procedure

namespace DerpConnections

def ensured (region : ℤ) (host : String) : EStateM Fault DerpConnections Unit := fun c =>
  match c.ensure region host with
  | .ok (_, c') => .ok () c'
  | .error failure => .error (.node failure) c

def applyNetworkMap (config : NetworkConfig) : EStateM Fault DerpConnections Unit := do
  ensured config.derpRegion config.derpHost
  config.peers.forM fun peer =>
    if peer.derpRegion ≠ 0 ∧ peer.derpHost ≠ "" then ensured peer.derpRegion peer.derpHost
    else pure ()

end DerpConnections

structure NativeNode where
  started : Bool := false
  network : NetworkConfig := {}
  derps : DerpConnections := {}
  homeDerp : ℕ := 0
  derpEnabled : Bool := false

namespace NativeNode

abbrev Proc := EStateM Fault NativeNode

def setDerpEnabled (enabled : Bool) : Proc Unit :=
  modify fun n => { n with derpEnabled := enabled, derps := n.derps.setEnabled enabled }

def suspendNetwork : Proc Unit :=
  modify fun n => { n with derps := n.derps.setEnabled false }

/-- Moves to another interface: the DERP connections connect anew if they are
wanted. -/
def changeNetwork : Proc Unit :=
  modify fun n => { n with derps := n.derps.setEnabled n.derpEnabled }

def updateNetwork (network : NetworkConfig) : Proc Unit := do
  let n ← get
  if n.started = false then throw .logic
  else if network.sameIdentity n.network = false then throw (.node .identityChanged)
  else do
    within NativeNode.derps (fun d n => { n with derps := d })
      (DerpConnections.applyNetworkMap network)
    modify fun n => { n with network := network }

def connected (n : NativeNode) : Bool :=
  n.started && (n.derps.entries[n.homeDerp]?).any (·.connected)

/-- Whether the node owns all the DERP connections its configuration asks
for. -/
def ownershipReady (n : NativeNode) : Bool :=
  n.connected && n.network.peers.all fun peer =>
    decide (peer.derpRegion ≤ 0) ||
      (n.derps.entries.find? fun d => d.region == peer.derpRegion).any (·.connected)

def link (changes : List (ℤ × Bool)) : Proc Unit :=
  modify fun n =>
    { n with derps := changes.foldl (fun d change => d.setConnected change.1 change.2) n.derps }

/-- Waits for what the session brings. Only configurations concern the
switching. -/
def wait (session : SessionWait) : Proc NodeEvents := do
  let n ← get
  if n.started = false then throw .logic
  else do
    session.networkMaps.forM updateNetwork
    pure { networkChanged := !session.networkMaps.isEmpty }

end NativeNode

end Tailgate
