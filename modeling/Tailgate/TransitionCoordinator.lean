import Tailgate.Delegation
import Tailgate.SortUnique

/-!
# The transition coordinator

`TransitionCoordinator` is the policy by which a node switches between reaching
its tailnet itself (*native*) and through a relay (*hosted*). It is told what
happened and queues the *actions* its owner is to carry out, in an order in which
the DERP connections are never open on both sides. Times are in milliseconds.
-/

namespace Tailgate

inductive NodeMode
  | native
  | hosted
  deriving DecidableEq

/-- How far a switch has come. -/
inductive TransitionPhase
  | idle
  | preparing
  | awaitingMap
  | preparingDelegation
  | releasing
  | activating
  | committing
  | draining
  | failed
  deriving DecidableEq

inductive TransitionFailure
  | none
  | policyChanged
  | preparationFailed
  | timeout
  | cancelled
  | delegationRejected
  | rollbackFailed
  deriving DecidableEq

/-- What the owner is to do. -/
inductive TransitionActionKind
  | prepareNative
  | prepareHosted
  | activateNative
  | activateHosted
  | suspendNative
  | selectNative
  | selectHosted
  | retireNative
  | retireHosted
  | recoverHosted
  | delegation
  deriving DecidableEq

structure TransitionStatus where
  desired : NodeMode
  effective : NodeMode
  phase : TransitionPhase := .idle
  failure : TransitionFailure := .none
  generation : ℕ := 0
  rollingBack : Bool := false

/-- An action queued for the owner, stamped with the generation it belongs
to. -/
structure TransitionAction where
  kind : TransitionActionKind
  generation : ℕ
  /-- The request to send, for an action of kind `delegation`. -/
  delegation : Option DelegationRequest := none

/-- **The coordinator.** -/
structure TransitionCoordinator where
  status : TransitionStatus
  /-- The mode that was in effect when the current switch began. -/
  original : NodeMode
  mapRevision : ℕ := 0
  appliedRevision : ℕ := 0
  requestId : ℕ := 0
  pending : Option DelegationRequest := none
  regions : List ℕ := []
  deadline : Option ℕ := none
  actions : List TransitionAction := []
  /-- Whether ownership of the DERP connections has been touched. -/
  ownershipChanged : Bool := false
  relayAvailable : Bool := true

namespace TransitionCoordinator

def operationTimeout : ℕ := 15000

def drainInterval : ℕ := 400

def new (initial : NodeMode) : TransitionCoordinator where
  status := { desired := initial, effective := initial }
  original := initial

variable (c : TransitionCoordinator)

def active : Bool :=
  c.status.phase != .idle && c.status.phase != .failed

/-- The mode the current generation leads to: the one the switch started
from once it is rolling back, the one asked for before. -/
def target : NodeMode :=
  if c.status.rollingBack then c.original else c.status.desired

inductive BeginError
  | invalidArgument

def action (kind : TransitionActionKind) : TransitionCoordinator :=
  { c with actions := c.actions ++ [{ kind := kind, generation := c.status.generation }] }

variable (now : ℕ)

def request (action : DelegationAction) : TransitionCoordinator :=
  let pending : DelegationRequest :=
    { generation := c.status.generation, requestId := c.requestId + 1,
      mapRevision := c.mapRevision, action := action, regions := c.regions }
  { c with
    requestId := c.requestId + 1
    pending := some pending
    actions := c.actions ++
      [{ kind := .delegation, generation := c.status.generation, delegation := some pending }]
    deadline := some (now + operationTimeout) }

def prepareDelegation : TransitionCoordinator :=
  { c with status := { c.status with phase := .preparingDelegation } }.request now .prepare

/-- Asks for a switch to `desired`. Throws when the map revision or the
regions are missing; returns whether the switch was accepted. -/
def begin (desired : NodeMode) (mapRevision : ℕ) (regions : List ℕ) (policyUnchanged : Bool) :
    Except BeginError (Bool × TransitionCoordinator) :=
  if c.active then .ok (false, c)
  else if mapRevision = 0 ∨ regions = [] ∨ 0 ∈ regions then .error .invalidArgument
  else
    let c := { c with
      status := { c.status with
        desired := desired, failure := .none, rollingBack := false,
        generation := c.status.generation + 1 } }
    if !policyUnchanged then
      .ok (false,
        { c with status := { c.status with phase := .failed, failure := .policyChanged } })
    else if desired = c.status.effective then
      .ok (true, { c with status := { c.status with phase := .idle } })
    else
      let c := { c with
        original := c.status.effective
        mapRevision := mapRevision
        appliedRevision := 0
        regions := regions.sortUnique
        ownershipChanged := false
        relayAvailable := true
        pending := none
        status := { c.status with phase := .preparing }
        deadline := some (now + operationTimeout) }
      .ok (true, c.action (if desired = .native then .prepareNative else .prepareHosted))

/-- Gives a switch up, or starts undoing it when ownership of the DERP
connections has been touched. -/
def rollback (reason : TransitionFailure) : TransitionCoordinator :=
  if !c.active then c
  else
    let c := { c with actions := [], pending := none }
    if c.status.rollingBack then
      let c := (c.action .suspendNative).action .retireHosted
      let c := if c.original = .hosted then c.action .recoverHosted else c.action .activateNative
      { c with
        status := { c.status with
          effective := c.original, phase := .failed, failure := .rollbackFailed }
        deadline := none }
    else
      let c := { c with status := { c.status with failure := reason } }
      if !c.ownershipChanged then
        let c := c.action (if c.status.desired = .native then .retireNative else .retireHosted)
        { c with status := { c.status with phase := .failed }, deadline := none }
      else
        -- the new generation invalidates outstanding completions and replies
        let c := { c with
          status := { c.status with generation := c.status.generation + 1, rollingBack := true } }
        let c := c.action .suspendNative
        if !c.relayAvailable then
          let c := c.action .retireHosted
          if c.original = .hosted then
            let c := c.action .recoverHosted
            { c with
              status := { c.status with effective := c.original, phase := .failed }
              deadline := none }
          else
            let c := { c with status := { c.status with phase := .activating } }
            { c.action .activateNative with deadline := some (now + operationTimeout) }
        else c.prepareDelegation now

def prepared (now generation : ℕ) (success : Bool) : TransitionCoordinator :=
  if generation ≠ c.status.generation ∨ c.status.phase ≠ .preparing then c
  else if !success then c.rollback now .preparationFailed
  else if c.status.desired = .native ∧ c.relayAvailable = false then
    let c := { c with status := { c.status with phase := .activating }, ownershipChanged := true }
    { c.action .activateNative with deadline := some (now + operationTimeout) }
  else
    let c :=
      if c.status.desired = .hosted then
        { c.action .suspendNative with ownershipChanged := true }.action .activateHosted
      else c
    let c := { c with
      status := { c.status with phase := .awaitingMap }
      deadline := some (now + operationTimeout) }
    if c.appliedRevision = c.mapRevision then c.prepareDelegation now else c

def mapApplied (now revision : ℕ) : TransitionCoordinator :=
  if !c.active then c
  else
    let c := { c with appliedRevision := revision }
    if revision ≠ c.mapRevision then c
    else if c.status.phase = .awaitingMap then c.prepareDelegation now
    else c

def mapChanged (now revision : ℕ) (regions : List ℕ) : TransitionCoordinator :=
  if !c.active then c
  else
    let c := { c with
      mapRevision := revision, regions := regions.sortUnique, appliedRevision := 0 }
    if c.status.phase = .preparing ∨ c.status.phase = .draining then c
    else
      -- old replies cannot authorize either path under the new map
      let c := { c with
        status := { c.status with generation := c.status.generation + 1 }
        pending := none
        actions := [] }
      let c := c.action .suspendNative
      { c with
        status := { c.status with phase := .awaitingMap }
        deadline := some (now + operationTimeout) }

def abort (failure : TransitionFailure) : TransitionCoordinator :=
  if !c.active then c
  else { c with
    status := { c.status with
      generation := c.status.generation + 1, phase := .failed, failure := failure,
      rollingBack := false }
    pending := none
    actions := []
    deadline := none }

def commitSelection (selected : NodeMode) : TransitionCoordinator :=
  let c := { c with status := { c.status with effective := selected } }
  let c := c.action (if selected = .native then .selectNative else .selectHosted)
  if !c.relayAvailable then
    { c with
      status := { c.status with phase := .draining }
      deadline := some (now + drainInterval) }
  else { c with status := { c.status with phase := .committing } }.request now .commit

def accepts (reply : DelegationReply) : Bool :=
  c.active && reply.generation == c.status.generation &&
    match c.pending with
    | none => false
    | some pending =>
      reply.requestId == pending.requestId && reply.mapRevision == pending.mapRevision

def reply (reply : DelegationReply) : TransitionCoordinator :=
  if !c.accepts reply then c
  else if reply.status = .failed then c.rollback now .delegationRejected
  else
    match c.pending.map DelegationRequest.action, reply.status with
    | some .prepare, .prepared =>
      if c.target = .native then
        { c with status := { c.status with phase := .releasing } }.request now .release
      else { c with status := { c.status with phase := .activating } }.request now .acquire
    | some .release, .released =>
      let c := { c with
        ownershipChanged := true
        status := { c.status with phase := .activating }
        pending := none }
      { c.action .activateNative with deadline := some (now + operationTimeout) }
    | some .acquire, .ready => c.commitSelection now .hosted
    | some .commit, .committed =>
      { c with
        pending := none
        status := { c.status with phase := .draining }
        deadline := some (now + drainInterval) }
    | _, _ => c

def nativeReady (now generation : ℕ) : TransitionCoordinator :=
  if generation ≠ c.status.generation ∨ c.status.phase ≠ .activating ∨ c.target ≠ .native then c
  else c.commitSelection now .native

def relayFailed : TransitionCoordinator :=
  let c := { c with relayAvailable := false }
  if !c.active then c
  else
    let c : TransitionCoordinator := { c.action .retireHosted with pending := none }
    if c.status.phase = .preparing ∧ c.status.desired = .native then c
    else if c.status.desired = .native ∧ c.status.rollingBack = false then
      -- a dead relay cannot acknowledge; closing it ends its ownership
      let c := { c with
        ownershipChanged := true, status := { c.status with phase := .activating } }
      { c.action .activateNative with deadline := some (now + operationTimeout) }
    else c.rollback now .preparationFailed

def cancel (reason : TransitionFailure) : TransitionCoordinator :=
  c.rollback now reason

def finish : TransitionCoordinator :=
  let c := c.action (if c.status.effective = .native then .retireHosted else .retireNative)
  { c with
    status := { c.status with phase := if c.status.rollingBack then .failed else .idle }
    deadline := none
    pending := none }

def overdue : Bool :=
  match c.deadline with
  | none => false
  | some deadline => decide (deadline ≤ now)

def poll : TransitionCoordinator :=
  if !c.overdue now then c
  else if c.status.phase = .draining then c.finish
  else c.rollback now .timeout

def takeActions : List TransitionAction × TransitionCoordinator :=
  (c.actions, { c with actions := [] })

end TransitionCoordinator

end Tailgate
