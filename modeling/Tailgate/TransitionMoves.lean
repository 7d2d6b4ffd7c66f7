import Tailgate.TransitionCoordinator

/-!
# What the coordinator can do

Everything the coordinator can be told is an `Input`, and `step` is what it does
with it. `Move` lists the outcomes, one constructor for each branch of the
program, and `step_move` says the list is complete. Undoing a switch has five
branches of its own, `RollbackMove`.
-/

namespace Tailgate

namespace TransitionCoordinator

open List

/-- What the coordinator can be told. -/
inductive Input
  | begin (desired : NodeMode) (mapRevision : ℕ) (regions : List ℕ) (policyUnchanged : Bool)
  | prepared (generation : ℕ) (success : Bool)
  | mapApplied (revision : ℕ)
  | mapChanged (revision : ℕ) (regions : List ℕ)
  | abort (failure : TransitionFailure)
  | reply (reply : DelegationReply)
  | nativeReady (generation : ℕ)
  | relayFailed
  | cancel (reason : TransitionFailure)
  | poll
  deriving DecidableEq

variable (c : TransitionCoordinator)

/-- What the coordinator does when it is told something. A `begin` that
throws leaves it as it was. -/
def step (now : ℕ) : Input → TransitionCoordinator
  | .begin desired mapRevision regions policyUnchanged =>
    match c.begin now desired mapRevision regions policyUnchanged with
    | .ok (_, c') => c'
    | .error _ => c
  | .prepared generation success => c.prepared now generation success
  | .mapApplied revision => c.mapApplied now revision
  | .mapChanged revision regions => c.mapChanged now revision regions
  | .abort failure => c.abort failure
  | .reply reply => c.reply now reply
  | .nativeReady generation => c.nativeReady now generation
  | .relayFailed => c.relayFailed now
  | .cancel reason => c.cancel now reason
  | .poll => c.poll now

def rollsBack (now : ℕ) : Input → Bool
  | .prepared generation success =>
    generation == c.status.generation && c.status.phase == .preparing && !success
  | .reply reply => c.accepts reply && reply.status == .failed
  | .relayFailed =>
    c.active && !(c.status.phase == .preparing && c.status.desired == .native)
      && !(c.status.desired == .native && !c.status.rollingBack)
  | .cancel _ => c.active
  | .poll => c.overdue now && c.status.phase != .draining
  | _ => false

theorem active_of_rollsBack {c : TransitionCoordinator} {now : ℕ}
    (h : c.rollsBack now .relayFailed = true) : c.active = true := by
  simp only [rollsBack, Bool.and_eq_true] at h
  exact h.1.1

abbrev plain (kind : TransitionActionKind) (generation : ℕ) : TransitionAction :=
  { kind := kind, generation := generation }

abbrev asking (a : DelegationAction) : TransitionAction :=
  { kind := .delegation, generation := c.status.generation
    delegation := some ⟨c.status.generation, c.requestId + 1, c.mapRevision, a, c.regions⟩ }

theorem request_actions (now : ℕ) (a : DelegationAction) :
    (c.request now a).actions = c.actions ++ [c.asking a] := rfl

/-- **The branches of a rollback.** -/
inductive RollbackMove (c : TransitionCoordinator) (now : ℕ) : TransitionCoordinator → Prop
  /-- A rollback that fails too: the relay is let go and the path the switch
  started from is restored as it can be. -/
  | again (hrb : c.status.rollingBack = true) :
      RollbackMove c now { c with
        status := { c.status with
          effective := c.original, phase := .failed, failure := .rollbackFailed }
        pending := none
        deadline := none
        actions := [plain .suspendNative c.status.generation,
          plain .retireHosted c.status.generation,
          plain (if c.original = .hosted then .recoverHosted else .activateNative)
            c.status.generation] }
  /-- Ownership was never touched: the candidate is retired. -/
  | unowned (reason : TransitionFailure) (hrb : c.status.rollingBack = false)
      (hown : c.ownershipChanged = false) :
      RollbackMove c now { c with
        status := { c.status with phase := .failed, failure := reason }
        pending := none
        deadline := none
        actions := [plain (if c.status.desired = .native then .retireNative else .retireHosted)
          c.status.generation] }
  /-- The relay is gone and the switch started from it. -/
  | lostHosted (reason : TransitionFailure) (hrb : c.status.rollingBack = false)
      (hown : c.ownershipChanged = true) (hrel : c.relayAvailable = false)
      (horig : c.original = .hosted) :
      RollbackMove c now { c with
        status := { c.status with
          effective := c.original, phase := .failed, failure := reason, rollingBack := true,
          generation := c.status.generation + 1 }
        pending := none
        deadline := none
        actions := [plain .suspendNative (c.status.generation + 1),
          plain .retireHosted (c.status.generation + 1),
          plain .recoverHosted (c.status.generation + 1)] }
  | lostNative (reason : TransitionFailure) (hrb : c.status.rollingBack = false)
      (hown : c.ownershipChanged = true) (hrel : c.relayAvailable = false)
      (horig : c.original = .native) :
      RollbackMove c now { c with
        status := { c.status with
          phase := .activating, failure := reason, rollingBack := true,
          generation := c.status.generation + 1 }
        pending := none
        deadline := some (now + operationTimeout)
        actions := [plain .suspendNative (c.status.generation + 1),
          plain .retireHosted (c.status.generation + 1),
          plain .activateNative (c.status.generation + 1)] }
  | negotiate (reason : TransitionFailure) (hrb : c.status.rollingBack = false)
      (hown : c.ownershipChanged = true) (hrel : c.relayAvailable = true) :
      RollbackMove c now (prepareDelegation { c with
        status := { c.status with
          failure := reason, rollingBack := true, generation := c.status.generation + 1 }
        pending := none
        actions := [plain .suspendNative (c.status.generation + 1)] } now)

variable {now : ℕ}

theorem rollback_of_inactive {c : TransitionCoordinator} {reason : TransitionFailure}
    (h : c.active = false) : c.rollback now reason = c := by
  simp [rollback, h]

theorem rollback_move (now : ℕ) (reason : TransitionFailure)
    (h : c.active = true) : RollbackMove c now (c.rollback now reason) := by
  unfold rollback
  rw [h]
  cases hrb : c.status.rollingBack with
  | true =>
    have hm : RollbackMove c now _ := .again hrb
    cases horig : c.original with
    | native | hosted => simpa [action, horig, hrb] using hm
  | false =>
    cases hown : c.ownershipChanged with
    | false =>
      have hm : RollbackMove c now _ := .unowned reason hrb hown
      simpa [action, hrb, hown] using hm
    | true =>
      cases hrel : c.relayAvailable with
      | true =>
        have hm : RollbackMove c now _ := .negotiate reason hrb hown hrel
        simpa [action, hrb, hown, hrel] using hm
      | false =>
        cases horig : c.original with
        | hosted =>
          have hm : RollbackMove c now _ := .lostHosted reason hrb hown hrel horig
          simpa [action, hrb, hown, hrel, horig] using hm
        | native =>
          have hm : RollbackMove c now _ := .lostNative reason hrb hown hrel horig
          simpa [action, hrb, hown, hrel, horig] using hm

/-- The coordinator once its candidate is prepared, awaiting the relay's map:
`pushed` is what it queues and `owned` whether that touches ownership. -/
def awaitMap (now : ℕ) (pushed : List TransitionAction) (owned : Bool) : TransitionCoordinator :=
  { c with
    status := { c.status with phase := .awaitingMap }
    actions := c.actions ++ pushed
    ownershipChanged := owned
    deadline := some (now + operationTimeout) }

/-- What preparing a candidate queues: nothing towards native, and the native
path suspended before the relay is activated towards hosted. -/
inductive CandidateActions (c : TransitionCoordinator) : List TransitionAction → Bool → Prop
  /-- The native candidate waits for the relay to release. -/
  | native (hd : c.status.desired = .native) (hrel : c.relayAvailable = true) :
      CandidateActions c [] c.ownershipChanged
  /-- The hosted candidate starts with the native path suspended. -/
  | hosted (hd : c.status.desired = .hosted) :
      CandidateActions c [plain .suspendNative c.status.generation,
        plain .activateHosted c.status.generation] true

/-- **The outcomes of an input.** -/
inductive Move (c : TransitionCoordinator) (now : ℕ) : Input → TransitionCoordinator → Prop
  | stay (i : Input) : Move c now i c
  | beginRefused (desired : NodeMode) (rev : ℕ) (regions : List ℕ) (h : c.active = false) :
      Move c now (.begin desired rev regions false) { c with
        status := { c.status with
          desired := desired, failure := .policyChanged, rollingBack := false,
          generation := c.status.generation + 1, phase := .failed } }
  | beginSame (desired : NodeMode) (rev : ℕ) (regions : List ℕ) (h : c.active = false)
      (hd : desired = c.status.effective) :
      Move c now (.begin desired rev regions true) { c with
        status := { c.status with
          desired := desired, failure := .none, rollingBack := false,
          generation := c.status.generation + 1, phase := .idle } }
  | beginStart (desired : NodeMode) (rev : ℕ) (regions : List ℕ) (h : c.active = false)
      (hd : desired ≠ c.status.effective) (hrev : rev ≠ 0) (hne : regions ≠ [])
      (hz : 0 ∉ regions) :
      Move c now (.begin desired rev regions true) { c with
        status := { c.status with
          desired := desired, failure := .none, rollingBack := false,
          generation := c.status.generation + 1, phase := .preparing }
        original := c.status.effective
        mapRevision := rev
        appliedRevision := 0
        regions := regions.sortUnique
        ownershipChanged := false
        relayAvailable := true
        pending := none
        deadline := some (now + operationTimeout)
        actions := c.actions ++ [plain (if desired = .native then .prepareNative
          else .prepareHosted) (c.status.generation + 1)] }
  /-- The native candidate is prepared and the relay is gone. -/
  | preparedAlone (generation : ℕ) (hphase : c.status.phase = .preparing)
      (hd : c.status.desired = .native) (hrel : c.relayAvailable = false) :
      Move c now (.prepared generation true) { c with
        status := { c.status with phase := .activating }
        ownershipChanged := true
        actions := c.actions ++ [plain .activateNative c.status.generation]
        deadline := some (now + operationTimeout) }
  /-- The candidate is prepared and the relay has yet to apply the map. -/
  | preparedAwait (generation : ℕ) (hphase : c.status.phase = .preparing)
      {pushed : List TransitionAction} {owned : Bool} (hcand : CandidateActions c pushed owned) :
      Move c now (.prepared generation true) (c.awaitMap now pushed owned)
  /-- The candidate is prepared and the relay has applied the map. -/
  | preparedDelegate (generation : ℕ) (hphase : c.status.phase = .preparing)
      {pushed : List TransitionAction} {owned : Bool} (hcand : CandidateActions c pushed owned) :
      Move c now (.prepared generation true) ((c.awaitMap now pushed owned).prepareDelegation now)
  | mapRecorded (revision : ℕ) (h : c.active = true) :
      Move c now (.mapApplied revision) { c with appliedRevision := revision }
  | mapAwaited (revision : ℕ) (hphase : c.status.phase = .awaitingMap) :
      Move c now (.mapApplied revision)
        (prepareDelegation { c with appliedRevision := revision } now)
  /-- The map changes while the candidate is prepared or the old path drains. -/
  | mapNoted (revision : ℕ) (regions : List ℕ) (h : c.active = true)
      (hphase : c.status.phase = .preparing ∨ c.status.phase = .draining) :
      Move c now (.mapChanged revision regions) { c with
        mapRevision := revision, regions := regions.sortUnique, appliedRevision := 0 }
  /-- The map changes during a handoff, which starts over. -/
  | mapRestarts (revision : ℕ) (regions : List ℕ) (h : c.active = true)
      (hprep : c.status.phase ≠ .preparing) (hdrain : c.status.phase ≠ .draining) :
      Move c now (.mapChanged revision regions) { c with
        status := { c.status with
          generation := c.status.generation + 1, phase := .awaitingMap }
        mapRevision := revision
        regions := regions.sortUnique
        appliedRevision := 0
        pending := none
        actions := [plain .suspendNative (c.status.generation + 1)]
        deadline := some (now + operationTimeout) }
  | aborted (failure : TransitionFailure) (h : c.active = true) :
      Move c now (.abort failure) { c with
        status := { c.status with
          generation := c.status.generation + 1, phase := .failed, failure := failure,
          rollingBack := false }
        pending := none
        actions := []
        deadline := none }
  /-- The relay has prepared: it is asked to release, or to acquire. -/
  | replyPrepared (reply : DelegationReply) (request : DelegationRequest)
      (hacc : c.accepts reply = true) (hpend : c.pending = some request)
      (hact : request.action = .prepare) (hst : reply.status = .prepared) :
      Move c now (.reply reply)
        (TransitionCoordinator.request { c with
            status := { c.status with
              phase := if c.target = .native then .releasing else .activating } } now
          (if c.target = .native then .release else .acquire))
  /-- The relay has released: the native path may own its connections. -/
  | replyReleased (reply : DelegationReply) (request : DelegationRequest)
      (hacc : c.accepts reply = true) (hpend : c.pending = some request)
      (hact : request.action = .release) (hst : reply.status = .released) :
      Move c now (.reply reply) { c with
        ownershipChanged := true
        status := { c.status with phase := .activating }
        pending := none
        actions := c.actions ++ [plain .activateNative c.status.generation]
        deadline := some (now + operationTimeout) }
  /-- The relay owns its connections: it becomes the effective path. -/
  | replyReady (reply : DelegationReply) (request : DelegationRequest)
      (hacc : c.accepts reply = true) (hpend : c.pending = some request)
      (hact : request.action = .acquire) (hst : reply.status = .ready) :
      Move c now (.reply reply) (c.commitSelection now .hosted)
  | replyCommitted (reply : DelegationReply) (request : DelegationRequest)
      (hacc : c.accepts reply = true) (hpend : c.pending = some request)
      (hact : request.action = .commit) (hst : reply.status = .committed) :
      Move c now (.reply reply) { c with
        pending := none
        status := { c.status with phase := .draining }
        deadline := some (now + drainInterval) }
  /-- The native path owns its connections: it becomes the effective path. -/
  | nativeReady (generation : ℕ) (hphase : c.status.phase = .activating)
      (htgt : c.target = .native) :
      Move c now (.nativeReady generation) (c.commitSelection now .native)
  | relayLostIdle (h : c.active = false) :
      Move c now .relayFailed { c with relayAvailable := false }
  /-- The relay fails while the native candidate is prepared. -/
  | relayLostPreparing (hphase : c.status.phase = .preparing)
      (hd : c.status.desired = .native) :
      Move c now .relayFailed { c with
        relayAvailable := false
        pending := none
        actions := c.actions ++ [plain .retireHosted c.status.generation] }
  /-- The relay fails during a handoff to native, which goes on without it. -/
  | relayLostSwitching (h : c.active = true) (hprep : c.status.phase ≠ .preparing)
      (hd : c.status.desired = .native) (hrb : c.status.rollingBack = false) :
      Move c now .relayFailed { c with
        relayAvailable := false
        ownershipChanged := true
        status := { c.status with phase := .activating }
        pending := none
        actions := c.actions ++ [plain .retireHosted c.status.generation,
          plain .activateNative c.status.generation]
        deadline := some (now + operationTimeout) }
  /-- The relay fails in any other switch, which is undone. -/
  | relayLostRollback {c' : TransitionCoordinator}
      (hroll : c.rollsBack now .relayFailed = true)
      (hm : RollbackMove { c with relayAvailable := false } now c') :
      Move c now .relayFailed c'
  | rolledBack (i : Input) {c' : TransitionCoordinator} (h : c.active = true)
      (hroll : c.rollsBack now i = true) (hi : i ≠ .relayFailed)
      (hm : RollbackMove c now c') : Move c now i c'
  | drained (hphase : c.status.phase = .draining) : Move c now .poll c.finish

theorem active_iff : c.active = true ↔ c.status.phase ≠ .idle ∧ c.status.phase ≠ .failed := by
  unfold active
  rw [Bool.and_eq_true, bne_iff_ne, bne_iff_ne]

theorem active_of_phase {c : TransitionCoordinator} {p : TransitionPhase}
    (h : c.status.phase = p) (hi : p ≠ .idle := by decide) (hf : p ≠ .failed := by decide) :
    c.active = true :=
  c.active_iff.mpr ⟨h ▸ hi, h ▸ hf⟩

theorem RollbackMove.forget {c c' : TransitionCoordinator} {actions : List TransitionAction}
    (h : RollbackMove { c with actions := actions, pending := none } now c') :
    RollbackMove c now c' := by
  cases h with
  | again hrb => exact .again hrb
  | unowned reason hrb hown => exact .unowned reason hrb hown
  | lostHosted reason hrb hown hrel horig => exact .lostHosted reason hrb hown hrel horig
  | lostNative reason hrb hown hrel horig => exact .lostNative reason hrb hown hrel horig
  | negotiate reason hrb hown hrel => exact .negotiate reason hrb hown hrel

theorem begin_move (now : ℕ) (want : NodeMode) (rev : ℕ) (rs : List ℕ) (policyUnchanged : Bool) :
    Move c now (.begin want rev rs policyUnchanged)
      (c.step now (.begin want rev rs policyUnchanged)) := by
  unfold step begin
  cases hact : c.active with
  | true => exact .stay _
  | false =>
    simp only [Bool.false_eq_true, if_false]
    by_cases hbad : rev = 0 ∨ rs = [] ∨ 0 ∈ rs
    · rw [if_pos hbad]
      exact .stay _
    · rw [if_neg hbad]
      simp only [not_or] at hbad
      cases policyUnchanged with
      | false => exact .beginRefused want rev rs hact
      | true =>
        by_cases hd : want = c.status.effective
        · simp only [Bool.not_true, Bool.false_eq_true, if_false, if_pos hd]
          exact .beginSame want rev rs hact hd
        · simp only [Bool.not_true, Bool.false_eq_true, if_false, if_neg hd]
          exact .beginStart want rev rs hact hd hbad.1 hbad.2.1 hbad.2.2

theorem prepared_move (now gen : ℕ) (success : Bool) :
    Move c now (.prepared gen success) (c.prepared now gen success) := by
  unfold prepared
  by_cases hg : gen ≠ c.status.generation ∨ c.status.phase ≠ .preparing
  · rw [if_pos hg]
    exact .stay _
  rw [if_neg hg]
  simp only [ne_eq, not_or, not_not] at hg
  obtain ⟨hgen, hphase⟩ := hg
  have hac : c.active = true := active_of_phase hphase
  cases success with
  | false =>
    refine .rolledBack _ hac ?_ (by simp) (rollback_move c now _ hac)
    simp [rollsBack, hgen, hphase]
  | true =>
    by_cases hal : c.status.desired = .native ∧ c.relayAvailable = false
    · rw [if_pos hal]
      exact .preparedAlone gen hphase hal.1 hal.2
    rw [if_neg hal]
    have haw {pushed : List TransitionAction} {owned : Bool}
        (hcand : CandidateActions c pushed owned) :
        Move c now (.prepared gen true) (if c.appliedRevision = c.mapRevision
          then (c.awaitMap now pushed owned).prepareDelegation now
          else c.awaitMap now pushed owned) := by
      split
      · exact .preparedDelegate gen hphase hcand
      · exact .preparedAwait gen hphase hcand
    cases hd : c.status.desired with
    | hosted => simpa [action, awaitMap] using haw (.hosted hd)
    | native =>
      have hrel : c.relayAvailable = true := by
        cases h : c.relayAvailable with
        | true => rfl
        | false => exact absurd ⟨hd, h⟩ hal
      simpa [awaitMap] using haw (.native hd hrel)

theorem mapApplied_move (now rev : ℕ) : Move c now (.mapApplied rev) (c.mapApplied now rev) := by
  unfold mapApplied
  cases hact : c.active with
  | false => exact .stay _
  | true =>
    by_cases hrev : rev ≠ c.mapRevision
    · rw [if_pos hrev]
      exact .mapRecorded rev hact
    · rw [if_neg hrev]
      by_cases hphase : c.status.phase = .awaitingMap
      · rw [if_pos hphase]
        exact .mapAwaited rev hphase
      · rw [if_neg hphase]
        exact .mapRecorded rev hact

theorem mapChanged_move (now rev : ℕ) (rs : List ℕ) :
    Move c now (.mapChanged rev rs) (c.mapChanged now rev rs) := by
  unfold mapChanged
  cases hact : c.active with
  | false => exact .stay _
  | true =>
    by_cases hphase : c.status.phase = .preparing ∨ c.status.phase = .draining
    · rw [if_pos hphase]
      exact .mapNoted rev rs hact hphase
    · rw [if_neg hphase]
      simp only [not_or] at hphase
      exact .mapRestarts rev rs hact hphase.1 hphase.2

theorem pending_of_accepts {c : TransitionCoordinator} {reply : DelegationReply}
    (h : c.accepts reply = true) :
    c.active = true ∧ reply.generation = c.status.generation
      ∧ ∃ req, c.pending = some req ∧ reply.requestId = req.requestId
        ∧ reply.mapRevision = req.mapRevision := by
  unfold accepts at h
  rw [Bool.and_eq_true, Bool.and_eq_true, beq_iff_eq] at h
  obtain ⟨⟨hact, hgen⟩, hm⟩ := h
  cases hp : c.pending with
  | none => simp [hp] at hm
  | some req =>
    simp only [hp, Bool.and_eq_true, beq_iff_eq] at hm
    exact ⟨hact, hgen, req, rfl, hm.1, hm.2⟩

theorem reply_move (now : ℕ) (r : DelegationReply) : Move c now (.reply r) (c.reply now r) := by
  unfold reply
  cases hacc : c.accepts r with
  | false => exact .stay _
  | true =>
    obtain ⟨hact, -, request, hpend, -, -⟩ := pending_of_accepts hacc
    by_cases hfl : r.status = .failed
    · rw [if_pos hfl]
      refine .rolledBack _ hact ?_ (by simp) (rollback_move c now _ hact)
      simp [rollsBack, hacc, hfl]
    have hpc : c.pending.map DelegationRequest.action = some request.action := by
      rw [hpend, Option.map_some]
    rw [if_neg hfl, hpc]
    -- each request has one reply that advances the handoff
    cases ha : request.action with
    | prepare =>
      cases hst : r.status with
      | prepared =>
        have hm : Move c now (.reply r) _ := .replyPrepared r request hacc hpend ha hst
        by_cases htgt : c.target = .native
        all_goals simpa [htgt] using hm
      | _ => exact .stay _
    | release =>
      cases hst : r.status with
      | released => exact .replyReleased r request hacc hpend ha hst
      | _ => exact .stay _
    | acquire =>
      cases hst : r.status with
      | ready => exact .replyReady r request hacc hpend ha hst
      | _ => exact .stay _
    | commit =>
      cases hst : r.status with
      | committed => exact .replyCommitted r request hacc hpend ha hst
      | _ => exact .stay _

theorem nativeReady_move (now gen : ℕ) : Move c now (.nativeReady gen) (c.nativeReady now gen) := by
  unfold TransitionCoordinator.nativeReady
  split
  · exact .stay _
  · next h =>
    simp only [ne_eq, not_or, not_not] at h
    exact .nativeReady gen h.2.1 h.2.2

theorem relayFailed_eq (now : ℕ) : c.relayFailed now =
      if !c.active then { c with relayAvailable := false }
      else if c.status.phase = .preparing ∧ c.status.desired = .native then { c with
        relayAvailable := false
        pending := none
        actions := c.actions ++ [plain .retireHosted c.status.generation] }
      else if c.status.desired = .native ∧ c.status.rollingBack = false then { c with
        relayAvailable := false
        ownershipChanged := true
        status := { c.status with phase := .activating }
        pending := none
        actions := c.actions ++ [plain .retireHosted c.status.generation]
          ++ [plain .activateNative c.status.generation]
        deadline := some (now + operationTimeout) }
      else rollback { c with
        relayAvailable := false
        pending := none
        actions := c.actions ++ [plain .retireHosted c.status.generation] } now
          .preparationFailed := rfl

theorem relayFailed_move (now : ℕ) : Move c now .relayFailed (c.relayFailed now) := by
  rw [relayFailed_eq]
  cases hact : c.active with
  | false => exact .relayLostIdle hact
  | true =>
    simp only [Bool.not_true, Bool.false_eq_true, if_false]
    split
    · next hprep => exact .relayLostPreparing hprep.1 hprep.2
    next hprep =>
    split
    · next hsw =>
      have hm : Move c now .relayFailed _ :=
        .relayLostSwitching hact (fun h => hprep ⟨h, hsw.1⟩) hsw.1 hsw.2
      simpa using hm
    next hsw =>
    refine .relayLostRollback ?_ (RollbackMove.forget (rollback_move _ now _ hact))
    simp only [rollsBack, hact, Bool.true_and, Bool.and_eq_true, Bool.not_eq_true',
      Bool.and_eq_false_iff, beq_eq_false_iff_ne, Bool.not_eq_false']
    constructor
    · by_cases h : c.status.phase = .preparing
      · exact .inr (fun hd => hprep ⟨h, hd⟩)
      · exact .inl h
    · by_cases h : c.status.desired = .native
      · cases hrb : c.status.rollingBack with
        | true => exact .inr rfl
        | false => exact absurd ⟨h, hrb⟩ hsw
      · exact .inl h

theorem poll_move (now : ℕ) : Move c now .poll (c.poll now) := by
  unfold poll
  cases hov : c.overdue now with
  | false => exact .stay _
  | true =>
    by_cases hphase : c.status.phase = .draining
    · rw [if_pos hphase]
      exact .drained hphase
    · rw [if_neg hphase]
      cases hact : c.active with
      | false =>
        rw [rollback_of_inactive hact]
        exact .stay _
      | true =>
        refine .rolledBack _ hact ?_ (by simp) (rollback_move c now _ hact)
        simp [rollsBack, hov, hphase]

/-- **The list of outcomes is complete.** -/
theorem step_move (now : ℕ) (i : Input) : Move c now i (c.step now i) := by
  cases i with
  | begin want rev rs policyUnchanged =>
    exact begin_move c now want rev rs policyUnchanged
  | prepared gen success => exact prepared_move c now gen success
  | mapApplied revision => exact mapApplied_move c now revision
  | mapChanged revision rs => exact mapChanged_move c now revision rs
  | abort fail =>
    unfold step abort
    cases hact : c.active with
    | false => exact .stay _
    | true => exact .aborted fail hact
  | reply r => exact reply_move c now r
  | nativeReady gen => exact nativeReady_move c now gen
  | relayFailed => exact relayFailed_move c now
  | cancel reason =>
    show Move c now _ (c.rollback now reason)
    cases hact : c.active with
    | false =>
      rw [rollback_of_inactive hact]
      exact .stay _
    | true => exact .rolledBack _ hact hact (by simp) (rollback_move c now reason hact)
  | poll => exact poll_move c now

/-! ## What is left to do -/

/-- The actions that will be carried out: those `taken` and not come to yet,
and those queued, as far as their generation is not over. -/
def due (taken : List TransitionAction) : List TransitionAction :=
  (taken ++ c.actions).filter fun a => a.generation == c.status.generation

section Queues

variable (c c' : TransitionCoordinator) (pushed : List TransitionAction)

/-- The queue is extended within its generation. -/
structure Pushes : Prop where
  generation_eq : c'.status.generation = c.status.generation
  actions_eq : c'.actions = c.actions ++ pushed
  of_generation : ∀ a ∈ pushed, a.generation = c'.status.generation

/-- The queue is replaced within its generation. -/
structure Clears : Prop where
  generation_eq : c'.status.generation = c.status.generation
  actions_eq : c'.actions = pushed
  of_generation : ∀ a ∈ pushed, a.generation = c'.status.generation

/-- The queue is extended or replaced for a new generation. -/
structure Renews : Prop where
  generation_lt : c.status.generation < c'.status.generation
  actions_eq : c'.actions = c.actions ++ pushed ∨ c'.actions = pushed
  of_generation : ∀ a ∈ pushed, a.generation = c'.status.generation

end Queues

section Due

variable {c c' : TransitionCoordinator} {taken pushed : List TransitionAction}

theorem filter_generation {n : ℕ} (h : ∀ a ∈ pushed, a.generation = n) :
    pushed.filter (fun a => a.generation == n) = pushed := by
  refine filter_eq_self.mpr fun a ha => ?_
  rw [h a ha, beq_self_eq_true]

/-- No action is of a generation to come, after the queue has been extended
or replaced. -/
theorem generation_le_of (hle : ∀ a ∈ taken ++ c.actions, a.generation ≤ c.status.generation)
    (hgen : c.status.generation ≤ c'.status.generation)
    (has : c'.actions = c.actions ++ pushed ∨ c'.actions = pushed)
    (hp : ∀ a ∈ pushed, a.generation = c'.status.generation) :
    ∀ a ∈ taken ++ c'.actions, a.generation ≤ c'.status.generation := by
  intro a ha
  have ha' : a ∈ taken ++ c.actions ∨ a ∈ pushed := by
    rcases has with h | h
    · rw [h, ← append_assoc] at ha
      exact mem_append.mp ha
    · rw [h] at ha
      exact (mem_append.mp ha).imp (mem_append_left _) id
  rcases ha' with ha | ha
  · exact (hle a ha).trans hgen
  · exact (hp a ha).le

theorem Pushes.nil (hgen : c'.status.generation = c.status.generation)
    (has : c'.actions = c.actions) : Pushes c c' [] where
  generation_eq := hgen
  actions_eq := has.trans (append_nil _).symm
  of_generation := by simp

theorem due_push (h : Pushes c c' pushed) : c'.due taken = c.due taken ++ pushed := by
  show (taken ++ c'.actions).filter _ = _
  rw [h.actions_eq, ← append_assoc, filter_append, filter_generation h.of_generation,
    h.generation_eq]
  rfl

theorem due_renew (hle : ∀ a ∈ taken ++ c.actions, a.generation ≤ c.status.generation)
    (h : Renews c c' pushed) : c'.due taken = pushed := by
  have hno {l : List TransitionAction} (hl : ∀ a ∈ l, a ∈ taken ++ c.actions) :
      l.filter (fun a => a.generation == c'.status.generation) = [] := by
    refine filter_eq_nil_iff.mpr fun a ha => ?_
    have := hle a (hl a ha)
    simpa using (this.trans_lt h.generation_lt).ne
  show (taken ++ c'.actions).filter _ = _
  rw [filter_append, hno (fun a ha => mem_append_left _ ha), nil_append]
  rcases h.actions_eq with has | has
  · rw [has, filter_append, hno (fun a ha => mem_append_right _ ha), nil_append,
      filter_generation h.of_generation]
  · rw [has, filter_generation h.of_generation]

theorem due_clear (h : Clears c c' pushed) :
    c'.due taken = taken.filter (fun a => a.generation == c.status.generation) ++ pushed := by
  show (taken ++ c'.actions).filter _ = _
  rw [filter_append, h.actions_eq, filter_generation h.of_generation, h.generation_eq]

end Due

end TransitionCoordinator

end Tailgate
