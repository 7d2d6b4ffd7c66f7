import Tailgate.Delegation
import Tailgate.DerpConnections
import Tailgate.Procedures
import Tailgate.Recovery

/-!
# What a node meets

The two backends of a node, native and hosted, are driven by one loop and report
`NodeEvents`. What they meet while a call runs – the clock, the sockets, the
relay, threads – is a `World`, a list of answers that are drawn one after the
other. Answers that are not listed are the uneventful ones.
-/

namespace Tailgate

open Procedure

inductive Fault
  /-- A system error, the one kind that is handled on the way. -/
  | system
  | node (failure : NodeFailure)
  /-- An error of the hosted client: the relay changed the identity. -/
  | client
  | protocol
  | logic
  | argument

structure NodeEvents where
  transportFailure : Bool := false
  delegationReplies : List DelegationReply := []
  /-- The map revision the relay has applied, when it said so. -/
  appliedMapRevision : Option ℕ := none
  networkChanged : Bool := false
  dataPathReady : Bool := false

def NodeEvents.merge (destination source : NodeEvents) : NodeEvents where
  transportFailure := destination.transportFailure || source.transportFailure
  delegationReplies := destination.delegationReplies ++ source.delegationReplies
  appliedMapRevision := source.appliedMapRevision.or destination.appliedMapRevision
  networkChanged := destination.networkChanged || source.networkChanged
  dataPathReady := destination.dataPathReady || source.dataPathReady

inductive RelayFrame
  | networkMap (network : NetworkConfig)
  | networkMapAck (revision : ℕ)
  | delegationReply (reply : DelegationReply)
  | dataPathReady
  | heartbeat
  | other
  | malformed
  | invalid
  deriving DecidableEq

inductive Reception
  | frames (frames : List RelayFrame)
  | lost
  | undecodable
  deriving DecidableEq

structure SessionWait where
  networkMaps : List NetworkConfig := []
  packets : ℕ := 0

/-- **The answers a call draws from its surroundings**, each list in the order
of the drawing. -/
structure World where
  clock : List ℕ := []
  completions : List (Option (Option ConnectionResult)) := []
  receptions : List Reception := []
  full : List Bool := []
  broken : List Bool := []
  sessions : List SessionWait := []
  busy : List Bool := []
  bound : List Bool := []
  links : List (List (ℤ × Bool)) := []
  /-- How many packets the local services have to send. -/
  locals : List ℕ := []
  /-- Whether a thread that is to be started is refused. -/
  refused : List Bool := []

namespace World

def draw {α : Type} (answers : World → List α) (put : List α → World → World) (default : α) :
    EStateM Fault World α :=
  modifyGet fun w => ((answers w).headD default, put (answers w).tail w)

def now : EStateM Fault World ℕ := draw clock (fun l w => { w with clock := l }) 0

def completion : EStateM Fault World (Option (Option ConnectionResult)) :=
  draw completions (fun l w => { w with completions := l }) none

def reception : EStateM Fault World Reception :=
  draw receptions (fun l w => { w with receptions := l }) (.frames [])

def isFull : EStateM Fault World Bool := draw full (fun l w => { w with full := l }) false

def isBroken : EStateM Fault World Bool := draw broken (fun l w => { w with broken := l }) false

def session : EStateM Fault World SessionWait :=
  draw sessions (fun l w => { w with sessions := l }) {}

def isBusy : EStateM Fault World Bool := draw busy (fun l w => { w with busy := l }) false

def isBound : EStateM Fault World Bool := draw bound (fun l w => { w with bound := l }) false

def linkChanges : EStateM Fault World (List (ℤ × Bool)) :=
  draw links (fun l w => { w with links := l }) []

def localPackets : EStateM Fault World ℕ := draw locals (fun l w => { w with locals := l }) 0

def isRefused : EStateM Fault World Bool := draw refused (fun l w => { w with refused := l }) false

def turn : EStateM Fault World Recovery.Turn := do
  let completed ← completion
  let retryAt ← now
  let now ← now
  let refused ← isRefused
  pure { completed, retryAt, now, refused }

end World

end Tailgate
