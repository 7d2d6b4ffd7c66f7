import Mathlib.Tactic

/-!
# Delegation requests and replies

The messages by which a node and its relay hand the node's DERP connections over
to each other. A request belongs to a *generation*, one attempt at a handoff,
and a reply names the request it answers by its generation, identifier and
revision. The program counts these in 64 bits; they are natural numbers here.
-/

namespace Tailgate

/-- What a request asks for. -/
inductive DelegationAction
  | prepare
  | release
  | acquire
  | commit
  deriving DecidableEq

inductive DelegationStatus
  | prepared
  | released
  | ready
  | committed
  | failed
  deriving DecidableEq

inductive DelegationFailure
  | none
  | staleGeneration
  | staleMap
  | invalidState
  | unknownRegion
  | leaseExpired
  deriving DecidableEq

/-- A request of a node to its relay. -/
structure DelegationRequest where
  generation : ℕ
  /-- The identifier of the request, fresh for each one. -/
  requestId : ℕ
  /-- The revision of the network map the request was made against. -/
  mapRevision : ℕ
  action : DelegationAction
  regions : List ℕ
  deriving DecidableEq

/-- The reply of the relay to a request. -/
structure DelegationReply where
  generation : ℕ
  requestId : ℕ
  mapRevision : ℕ
  status : DelegationStatus
  failure : DelegationFailure
  deriving DecidableEq

def DelegationReply.Answers (reply : DelegationReply) (request : DelegationRequest) : Prop :=
  reply.generation = request.generation ∧ reply.requestId = request.requestId
    ∧ reply.mapRevision = request.mapRevision

def DelegationRequest.answer (request : DelegationRequest)
    (status : DelegationStatus) (failure : DelegationFailure) : DelegationReply where
  generation := request.generation
  requestId := request.requestId
  mapRevision := request.mapRevision
  status := status
  failure := failure

end Tailgate
