import Tailgate.QueuedEffects
import Tailgate.TransitionRequests

/-!
# A node and its relay

The coordinator of a node and the lease of its relay are joined by two channels
and by the owner of the coordinator, which carries out the actions it queues one
at a time and skips those of an earlier generation: a `Handoff` is all of this.
Messages are neither lost nor reordered while the session lives. An exception of
the owner ends the run, and one of the relay its session.
-/

namespace Tailgate

open Option

open TransitionCoordinator (Input)

/-- A relay session: the lease on the relay's side and the messages in
flight. -/
structure RelaySession where
  /-- The lease over the DERP connections the relay holds. -/
  lease : DelegationLease
  /-- The requests that have not reached the relay, oldest first. -/
  requests : List DelegationRequest := []
  /-- The replies that have not reached the node, oldest first. -/
  replies : List DelegationReply := []

/-- The session after the relay has handled something: what the lease has to
say is sent. -/
def RelaySession.update (r : RelaySession) (lease : DelegationLease) : RelaySession :=
  { r with lease := lease.takeOutput.2, replies := r.replies ++ lease.takeOutput.1 }

/-- **A node and its relay**, joined. -/
structure Handoff where
  transition : TransitionCoordinator
  /-- The actions its owner is carrying out, the next one first. -/
  batch : List TransitionAction := []
  /-- Whether the node's own DERP connections are enabled. -/
  nativeDerp : Bool
  /-- The connections of a relay session that is ready to start. -/
  preparedRelay : Option DerpConnections := none
  relay : Option RelaySession

namespace Handoff

def startHosted (derps : DerpConnections) : Handoff where
  transition := .new .hosted
  nativeDerp := false
  relay := some { lease := { derps := derps } }

def startNative : Handoff where
  transition := .new .native
  nativeDerp := true
  relay := none

inductive Event
  /-- The node's owner tells its coordinator something. -/
  | tell (now : ℕ) (input : Input)
  /-- A new relay session is ready to start over some connections. -/
  | prepareRelay (derps : DerpConnections)
  | dropRelay
  | takeActions
  | applyAction (now : ℕ)
  /-- The relay polls its lease, applies a map, adds a region, or a link of
  its changes. -/
  | relay (call : DelegationLease.Call)
  | deliverRequest (now : ℕ)
  | deliverReply (now : ℕ)

/-- Whether an input comes from the node's side: replies come over the
channel, and the owner aborts a switch only together with a change of network
that closes everything. -/
def external : Input → Bool
  | .abort _ => false
  | .reply _ => false
  | _ => true

def spontaneous : DelegationLease.Call → Bool
  | .accept _ _ => false
  | .takeOutput => false
  | _ => true

def applyAction (s : Handoff) (now : ℕ) (a : TransitionAction) : Option Handoff :=
  if a.generation ≠ s.transition.status.generation then some s
  else
    match a.kind with
    | .prepareNative => some { s with nativeDerp := false }
    | .prepareHosted => some s
    | .suspendNative => some { s with nativeDerp := false }
    | .activateNative => some { s with nativeDerp := true }
    | .activateHosted =>
      match s.preparedRelay, s.relay with
      | none, _ => some { s with transition := s.transition.cancel now .preparationFailed }
      -- a session that is already there makes the start throw
      | some _, some _ => none
      | some derps, none =>
        some { s with relay := some { lease := { derps := derps } }, preparedRelay := none }
    | .selectNative => some s
    | .selectHosted => some s
    | .retireNative => some { s with nativeDerp := false }
    | .retireHosted => some { s with preparedRelay := none, relay := none }
    | .recoverHosted => some s
    | .delegation =>
      match s.relay with
      | none => some { s with transition := s.transition.relayFailed now }
      | some r => some { s with
          relay := some { r with requests := r.requests ++ a.delegation.toList } }

def updateRelay (s : Handoff) (r : RelaySession)
    (result : Except LeaseError DelegationLease) : Handoff :=
  match result with
  | .ok lease => { s with relay := some (r.update lease) }
  | .error _ => { s with relay := none }

def step (s : Handoff) : Event → Option Handoff
  | .tell now input =>
    if s.batch ≠ [] ∨ external input = false then none
    else
      let s := if input = .relayFailed then { s with relay := none } else s
      some { s with transition := s.transition.step now input }
  | .prepareRelay derps =>
    if derps.enabled then some { s with preparedRelay := some derps } else none
  | .dropRelay => some { s with preparedRelay := none }
  | .takeActions =>
    if s.batch ≠ [] then none
    else some { s with
      batch := s.transition.takeActions.1, transition := s.transition.takeActions.2 }
  | .applyAction now =>
    match s.batch with
    | [] => none
    | a :: rest => applyAction { s with batch := rest } now a
  | .relay call =>
    match s.relay with
    | none => none
    | some r => if spontaneous call then some (s.updateRelay r (r.lease.call call)) else none
  | .deliverRequest now =>
    match s.relay with
    | none => none
    | some r =>
      match r.requests with
      | [] => none
      | request :: rest =>
        some (s.updateRelay { r with requests := rest } (r.lease.accept now request))
  | .deliverReply now =>
    match s.relay with
    | none => none
    | some r =>
      match r.replies, s.batch with
      | reply :: rest, [] => some { s with
          relay := some { r with replies := rest }
          transition := s.transition.reply now reply }
      | _, _ => none

def system : TransitionSystem Handoff Event where
  init s := s = startNative ∨
    ∃ derps : DerpConnections, derps.enabled = true ∧ s = startHosted derps
  step s e s' := s.step e = some s'

def relayDerp (s : Handoff) : Prop := ∃ r, s.relay = some r ∧ r.lease.derps.on

/-! ## What carrying out an action can do -/

def nativeAfter (native : Bool) : TransitionActionKind → Bool
  | .prepareNative => false
  | .suspendNative => false
  | .retireNative => false
  | .activateNative => true
  | _ => native

/-- **The outcomes of an action.** -/
inductive ApplyMove (s : Handoff) (now : ℕ) (a : TransitionAction) : Handoff → Prop
  | skipped (hgen : a.generation ≠ s.transition.status.generation) : ApplyMove s now a s
  | locally (hgen : a.generation = s.transition.status.generation)
      (hstart : a.kind ≠ .activateHosted) (hretire : a.kind ≠ .retireHosted)
      (hsend : a.kind ≠ .delegation) :
      ApplyMove s now a { s with nativeDerp := nativeAfter s.nativeDerp a.kind }
  | unstarted (hgen : a.generation = s.transition.status.generation)
      (hkind : a.kind = .activateHosted) :
      ApplyMove s now a { s with transition := s.transition.cancel now .preparationFailed }
  | started (derps : DerpConnections) (hgen : a.generation = s.transition.status.generation)
      (hkind : a.kind = .activateHosted) (hprep : s.preparedRelay = some derps)
      (hrelay : s.relay = none) :
      ApplyMove s now a { s with
        relay := some { lease := { derps := derps } }, preparedRelay := none }
  | retired (hgen : a.generation = s.transition.status.generation)
      (hkind : a.kind = .retireHosted) :
      ApplyMove s now a { s with preparedRelay := none, relay := none }
  | unsent (hgen : a.generation = s.transition.status.generation) (hkind : a.kind = .delegation)
      (hrelay : s.relay = none) :
      ApplyMove s now a { s with transition := s.transition.relayFailed now }
  | sent (r : RelaySession) (hgen : a.generation = s.transition.status.generation)
      (hkind : a.kind = .delegation) (hrelay : s.relay = some r) :
      ApplyMove s now a { s with
        relay := some { r with requests := r.requests ++ a.delegation.toList } }

theorem applyAction_move {s s' : Handoff} {now : ℕ} {a : TransitionAction}
    (h : s.applyAction now a = some s') : ApplyMove s now a s' := by
  unfold applyAction at h
  by_cases hgen : a.generation ≠ s.transition.status.generation
  · rw [if_pos hgen] at h
    cases h
    exact .skipped hgen
  rw [if_neg hgen] at h
  rw [not_not] at hgen
  cases hkind : a.kind with
  | activateHosted =>
    simp only [hkind] at h
    cases hprep : s.preparedRelay with
    | none =>
      have hm : ApplyMove s now a _ := .unstarted hgen hkind
      simp only [hprep, some.injEq] at h
      rw [hprep, h] at hm
      exact hm
    | some derps =>
      cases hrelay : s.relay with
      | none =>
        simp only [hprep, hrelay] at h
        cases h
        exact .started derps hgen hkind hprep hrelay
      | some => simp [hprep, hrelay] at h
  | retireHosted =>
    simp only [hkind] at h
    cases h
    exact .retired hgen hkind
  | delegation =>
    simp only [hkind] at h
    cases hrelay : s.relay with
    | none =>
      have hm : ApplyMove s now a _ := .unsent hgen hkind hrelay
      simp only [hrelay, some.injEq] at h
      rw [hrelay, h] at hm
      exact hm
    | some r =>
      simp only [hrelay] at h
      cases h
      exact .sent r hgen hkind hrelay
  | _ =>
    have hm : ApplyMove s now a _ := .locally hgen (by simp [hkind]) (by simp [hkind])
      (by simp [hkind])
    simp only [hkind, some.injEq] at h
    rw [← h]
    simpa [nativeAfter, hkind] using hm

/-! ## What an event can do -/

end Handoff

/-- **What the relay can do in its session.** -/
inductive RelaySession.Move (r : RelaySession) : RelaySession → Prop
  | quietly (l : DelegationLease) (hreq : l.request = r.lease.request)
      (hrep : l.reply = r.lease.reply) (hch : l.changedOwnership = r.lease.changedOwnership)
      (hen : l.derps.enabled = r.lease.derps.enabled) (hout : l.output = r.lease.output) :
      Move r (r.update l)
  | polled (now : ℕ) (l : DelegationLease) (h : r.lease.PollMove now l) : Move r (r.update l)
  | answered (now : ℕ) (request : DelegationRequest) (rest : List DelegationRequest)
      (l : DelegationLease) (hreq : r.requests = request :: rest)
      (h : r.lease.AnswerMove now request l) :
      Move r (.update { r with requests := rest } l)

variable {r : RelaySession} {l : DelegationLease}

theorem RelaySession.move_of_spontaneous {call : DelegationLease.Call}
    (hsp : Handoff.spontaneous call = true)
    (h : r.lease.call call = .ok l) : r.Move (r.update l) := by
  cases call with
  | accept | takeOutput => cases hsp
  | poll now => exact .polled now l (DelegationLease.poll_move h)
  | applyMap | link => cases h; exact .quietly _ rfl rfl rfl rfl rfl
  | ensure region host =>
    simp only [DelegationLease.call] at h
    cases hens : r.lease.derps.ensure region host with
    | error => rw [hens] at h; cases h; exact .quietly _ rfl rfl rfl rfl rfl
    | ok =>
      rw [hens] at h
      cases h
      exact .quietly _ rfl rfl rfl (DerpConnections.ensure_enabled hens) rfl

theorem RelaySession.moves_of_accept {now : ℕ} {req : DelegationRequest}
    {rest : List DelegationRequest} (hreq : r.requests = req :: rest)
    (h : r.lease.accept now req = .ok l) :
    Relation.ReflTransGen Move r (RelaySession.update { r with requests := rest } l) := by
  obtain ⟨l₁, hpl, han⟩ := DelegationLease.accept_move h
  obtain ⟨out, hout, han⟩ := han.drained
  -- what the poll said and what the answer said are sent together
  have hup : RelaySession.update { r with requests := rest } l
      = RelaySession.update { r.update l₁ with requests := rest } { l with output := out } := by
    simp [RelaySession.update, DelegationLease.takeOutput, hout]
  rw [hup]
  refine .tail (.single (.polled now l₁ (DelegationLease.poll_move hpl))) ?_
  exact .answered (r := r.update l₁) now req rest _ hreq han

namespace Handoff

/-- **The outcomes of an event.** -/
inductive StepMove (s : Handoff) : Event → Handoff → Prop
  | told (now : ℕ) (i : Input) (hbatch : s.batch = []) (hext : external i = true) :
      StepMove s (.tell now i) { s with transition := s.transition.step now i }
  /-- The session is lost, and the coordinator is told so. -/
  | lost (now : ℕ) (hbatch : s.batch = []) : StepMove s (.tell now .relayFailed)
      { s with relay := none, transition := s.transition.step now .relayFailed }
  | prepared (derps : DerpConnections) (h : derps.enabled = true) :
      StepMove s (.prepareRelay derps) { s with preparedRelay := some derps }
  | dropped : StepMove s .dropRelay { s with preparedRelay := none }
  | taken (hbatch : s.batch = []) : StepMove s .takeActions { s with
      batch := s.transition.actions, transition := { s.transition with actions := [] } }
  | applied (now : ℕ) (a : TransitionAction) (rest : List TransitionAction) {s' : Handoff}
      (hbatch : s.batch = a :: rest) (h : ApplyMove { s with batch := rest } now a s') :
      StepMove s (.applyAction now) s'
  | relayed (e : Event) (r r' : RelaySession) (hr : s.relay = some r)
      (h : Relation.ReflTransGen RelaySession.Move r r') :
      StepMove s e { s with relay := some r' }
  | ended (e : Event) : StepMove s e { s with relay := none }
  | replied (now : ℕ) (r : RelaySession) (p : DelegationReply) (rest : List DelegationReply)
      (hbatch : s.batch = []) (hr : s.relay = some r) (hrep : r.replies = p :: rest) :
      StepMove s (.deliverReply now) { s with
        relay := some { r with replies := rest }
        transition := s.transition.step now (.reply p) }

variable {s s' : Handoff} {e : Event}

/-- **The list of outcomes is complete.** -/
theorem step_move (h : s.step e = some s') : StepMove s e s' := by
  cases e with
  | tell now i =>
    simp only [step] at h
    split at h
    · cases h
    next hgr =>
    simp only [not_or, not_not, ne_eq, Bool.not_eq_false] at hgr
    cases h
    split
    · next hi => subst hi; exact .lost now hgr.1
    · exact .told now i hgr.1 hgr.2
  | prepareRelay derps =>
    simp only [step] at h
    split at h
    · next hen => cases h; exact .prepared derps hen
    · cases h
  | dropRelay => cases h; exact .dropped
  | takeActions =>
    simp only [step] at h
    split at h
    · cases h
    · next hbatch => cases h; exact .taken (not_not.mp hbatch)
  | applyAction now =>
    simp only [step] at h
    cases hbatch : s.batch with
    | nil => simp [hbatch] at h
    | cons a rest =>
      simp only [hbatch] at h
      exact .applied now a rest hbatch (applyAction_move h)
  | relay call =>
    simp only [step] at h
    cases hr : s.relay with
    | none => simp [hr] at h
    | some r =>
      simp only [hr] at h
      split at h
      · next hsp =>
        cases h
        cases hcl : r.lease.call call with
        | error => exact .ended _
        | ok => exact .relayed _ r _ hr (.single (r.move_of_spontaneous hsp hcl))
      · cases h
  | deliverRequest now =>
    simp only [step] at h
    cases hr : s.relay with
    | none => simp [hr] at h
    | some r =>
      cases hreq : r.requests with
      | nil => simp [hr, hreq] at h
      | cons request =>
        simp only [hr, hreq, some.injEq] at h
        rw [← h]
        cases hacc : r.lease.accept now request with
        | error => exact .ended _
        | ok => exact .relayed _ r _ hr (r.moves_of_accept hreq hacc)
  | deliverReply now =>
    simp only [step] at h
    cases hr : s.relay with
    | none => simp [hr] at h
    | some r =>
      cases hrep : r.replies with
      | nil => simp [hr, hrep] at h
      | cons p rest =>
        cases hbatch : s.batch with
        | cons => simp [hr, hrep, hbatch] at h
        | nil =>
          have hm : StepMove s (.deliverReply now) _ := .replied now r p rest hbatch hr hrep
          simp only [hr, hrep, hbatch, some.injEq] at h
          rw [hbatch] at hm
          rw [← h]
          exact hm

/-! ## The coordinator in the system -/

theorem ApplyMove.coherent {now : ℕ} {a : TransitionAction}
    (h : ApplyMove s now a s') (hc : s.transition.Coherent) : s'.transition.Coherent := by
  cases h with
  | unstarted => exact hc.move (s.transition.step_move now (.cancel _))
  | unsent => exact hc.move (s.transition.step_move now .relayFailed)
  | _ => exact hc

theorem StepMove.coherent (h : StepMove s e s')
    (hc : s.transition.Coherent) : s'.transition.Coherent := by
  cases h with
  | told now i => exact hc.move (s.transition.step_move now i)
  | lost now => exact hc.move (s.transition.step_move now .relayFailed)
  | taken => exact { hc with }
  | applied _ _ _ _ h => exact h.coherent hc
  | replied now _ p => exact hc.move (s.transition.step_move now (.reply p))
  | _ => exact hc

end Handoff

end Tailgate
