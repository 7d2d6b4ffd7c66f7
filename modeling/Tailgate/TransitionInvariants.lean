import Tailgate.TransitionMoves
import Tailgate.TransitionSystem

/-!
# What the coordinator keeps

`Coherent` collects what holds of the coordinator whatever it is told and
whenever: which phase awaits which reply, when a deadline is set, what the
ownership flag and the direction of the switch say about each other. It is
checked once per outcome of `Move`. A first result is that no switch can hang.
-/

namespace Tailgate

namespace TransitionCoordinator

inductive Call
  | tell (now : ℕ) (input : Input)
  | takeActions

def call (c : TransitionCoordinator) : Call → TransitionCoordinator
  | .tell now input => c.step now input
  | .takeActions => c.takeActions.2

@[simp]
theorem call_poll (c : TransitionCoordinator) (now : ℕ) :
    c.call (.tell now .poll) = c.poll now := rfl

def system : TransitionSystem TransitionCoordinator Call where
  init c := ∃ initial, c = new initial
  step c e c' := c' = c.call e

variable {c : TransitionCoordinator} {now : ℕ}

theorem reachable_foldl_call (h : system.Reachable c)
    (cs : List Call) : system.Reachable (cs.foldl call c) :=
  h.of_foldl (fun _ _ => rfl) cs

theorem active_finish (c : TransitionCoordinator) : c.finish.active = false := by
  cases hrb : c.status.rollingBack <;> simp [finish, action, active, hrb]

/-! ## The invariant -/

def awaitingPhase : DelegationAction → TransitionPhase
  | .prepare => .preparingDelegation
  | .release => .releasing
  | .acquire => .activating
  | .commit => .committing

/-- **The coordinator's invariant.** -/
structure Coherent (c : TransitionCoordinator) : Prop where
  /-- A deadline is set exactly while a switch is under way. -/
  deadline_iff : c.deadline.isSome = c.active
  rest_pending : c.active = false → c.pending = none
  /-- What is awaited is the last request made, in the phase for it. -/
  pending_last : ∀ p, c.pending = some p → p.generation = c.status.generation
    ∧ p.requestId = c.requestId ∧ c.status.phase = awaitingPhase p.action
  /-- A release leads to native, an acquisition to hosted. -/
  pending_target : ∀ p, c.pending = some p → (p.action = .release → c.target = .native)
    ∧ (p.action = .acquire → c.target = .hosted)
  /-- A switch is prepared towards the other mode. -/
  preparing : c.status.phase = .preparing →
    c.status.rollingBack = false ∧ c.status.desired ≠ c.status.effective
  /-- Towards hosted, ownership is touched as soon as the candidate is ready. -/
  hosted_owned : c.active = true → c.status.desired = .hosted → c.ownershipChanged = false →
    c.status.phase = .preparing
  /-- Once a path is selected it is the effective one. -/
  selected : c.status.phase = .committing ∨ c.status.phase = .draining →
    c.status.effective = c.target
  /-- Without a relay a switch leads to native. -/
  lost_target : c.active = true → c.relayAvailable = false → c.target = .native

namespace Coherent

variable {c : TransitionCoordinator} {now : ℕ}

theorem of_rest (hact : c.active = false)
    (hdead : c.deadline = none) (hpend : c.pending = none) : Coherent c := by
  have hrs {p : TransitionPhase} (h : c.status.phase = p) (hi : p ≠ .idle) : p = .failed := by
    by_contra hf
    rw [active_of_phase h hi hf] at hact
    cases hact
  constructor
  case deadline_iff => rw [hdead, hact]; rfl
  case rest_pending => exact fun _ => hpend
  case pending_last | pending_target => intro p hp; rw [hpend] at hp; cases hp
  case preparing => intro h; exact absurd (hrs h (by decide)) (by decide)
  case hosted_owned | lost_target => intro h; rw [hact] at h; cases h
  case selected =>
    rintro (h | h)
    all_goals exact absurd (hrs h (by decide)) (by decide)

theorem phase_of_pending (hc : Coherent c) {p : DelegationRequest} (hp : c.pending = some p)
    {a : DelegationAction} (hact : p.action = a) : c.status.phase = awaitingPhase a :=
  hact ▸ (hc.pending_last p hp).2.2

theorem pending_eq_none (hc : Coherent c)
    (h : ∀ a, c.status.phase ≠ awaitingPhase a) : c.pending = none := by
  cases hp : c.pending with
  | none => rfl
  | some p => exact absurd (hc.pending_last p hp).2.2 (h p.action)

theorem pending_of_preparing (hc : Coherent c) (h : c.status.phase = .preparing) :
    c.pending = none :=
  hc.pending_eq_none (by rw [h]; intro a; cases a <;> decide)

theorem request {a : DelegationAction} (hphase : c.status.phase = awaitingPhase a)
    (how : c.status.desired = .hosted → c.ownershipChanged = true)
    (hls : c.relayAvailable = false → c.target = .native)
    (hrelease : a = .release → c.target = .native := by simp)
    (hacquire : a = .acquire → c.target = .hosted := by simp)
    (hcm : a = .commit → c.status.effective = c.target := by simp) :
    Coherent (c.request now a) := by
  have hact : (c.request now a).active = true := by
    refine (active_iff _).mpr ?_
    show c.status.phase ≠ .idle ∧ c.status.phase ≠ .failed
    rw [hphase]
    cases a <;> decide
  constructor
  case deadline_iff => rw [hact]; rfl
  case rest_pending => intro h; rw [hact] at h; cases h
  case pending_last =>
    intro _ hp
    cases hp
    exact ⟨rfl, rfl, hphase⟩
  case pending_target =>
    intro _ hp
    cases hp
    exact ⟨hrelease, hacquire⟩
  case preparing =>
    intro (h : c.status.phase = _)
    rw [hphase] at h
    cases a <;> cases h
  case hosted_owned =>
    intro _ (hd : c.status.desired = .hosted) (hown : c.ownershipChanged = false)
    rw [how hd] at hown
    cases hown
  case selected =>
    intro (h : c.status.phase = _ ∨ c.status.phase = _)
    rw [hphase] at h
    refine hcm ?_
    cases a <;> simp [awaitingPhase] at h ⊢
  case lost_target => exact fun _ => hls

theorem of_waiting (hpend : c.pending = none)
    (how : c.status.desired = .hosted → c.ownershipChanged = true)
    (hls : c.relayAvailable = false → c.target = .native)
    (hsel : c.status.phase = .committing ∨ c.status.phase = .draining →
      c.status.effective = c.target := by simp)
    (hprep : c.status.phase ≠ .preparing := by simp)
    (hact : c.active = true := by rfl) (hdead : c.deadline.isSome = true := by rfl) :
    Coherent c := by
  constructor
  case deadline_iff => rw [hdead, hact]
  case rest_pending => exact fun _ => hpend
  case pending_last | pending_target => intro p hp; rw [hpend] at hp; cases hp
  case preparing => exact fun h => absurd h hprep
  case hosted_owned =>
    intro _ hd hown
    rw [how hd] at hown
    cases hown
  case selected => exact hsel
  case lost_target => exact fun _ => hls

theorem commitSelection {sel : NodeMode}
    (htgt : c.target = sel) (hpend : c.relayAvailable = false → c.pending = none)
    (how : c.status.desired = .hosted → c.ownershipChanged = true)
    (hls : c.relayAvailable = false → c.target = .native) :
    Coherent (c.commitSelection now sel) := by
  unfold TransitionCoordinator.commitSelection
  cases hrel : c.relayAvailable with
  | true =>
    simp only [action, Bool.not_true, Bool.false_eq_true, if_false]
    exact request rfl how (by simp) (by simp) (by simp) fun _ => htgt.symm
  | false =>
    simp only [action, Bool.not_false, if_true]
    exact of_waiting (hpend hrel) how (fun _ => hls hrel) fun _ => htgt.symm

theorem owned (hc : Coherent c) (hact : c.active = true)
    (hprep : c.status.phase ≠ .preparing) (hd : c.status.desired = .hosted) :
    c.ownershipChanged = true := by
  cases h : c.ownershipChanged with
  | true => rfl
  | false => exact absurd (hc.hosted_owned hact hd h) hprep

variable {c' : TransitionCoordinator}

theorem rollback (h : RollbackMove c now c') : Coherent c' := by
  cases h with
  | again | unowned | lostHosted => exact of_rest rfl rfl rfl
  | lostNative _ _ hown _ horig =>
    exact of_waiting rfl (fun _ => hown) fun _ => horig
  | negotiate _ _ hown hrel =>
    exact request rfl (fun _ => hown) fun h => absurd (hrel.symm.trans h) (by decide)

/-- **Every outcome keeps the invariant.** -/
theorem move {i : Input} (hc : Coherent c) (h : Move c now i c') : Coherent c' := by
  -- the deadline of a coordinator at rest
  have hrs (hact : c.active = false) : c.deadline = none := by
    have := hc.deadline_iff
    rw [hact] at this
    exact Option.not_isSome_iff_eq_none.mp (by rw [this]; decide)
  cases h with
  | stay => exact hc
  | beginRefused _ _ _ h | beginSame _ _ _ h => exact of_rest rfl (hrs h) (hc.rest_pending h)
  | beginStart _ _ _ h hd =>
    constructor
    case deadline_iff => rfl
    case rest_pending => exact fun _ => rfl
    case pending_last | pending_target => intro p hp; exact absurd hp (by simp)
    case preparing => exact fun _ => ⟨rfl, hd⟩
    case hosted_owned => exact fun _ _ _ => rfl
    case selected => intro h; exact absurd h (by simp)
    case lost_target => intro _ h; exact absurd h (by simp)
  | preparedAlone _ hphase =>
    have hpend := hc.pending_of_preparing hphase
    exact of_waiting hpend (fun _ => rfl) (hc.lost_target (active_of_phase hphase))
  | preparedAwait _ hphase hcand =>
    have hact := active_of_phase hphase
    have hpend := hc.pending_of_preparing hphase
    refine of_waiting hpend ?_ (hc.lost_target hact) (by simp [awaitMap]) (by simp [awaitMap])
    cases hcand with
    | native hd => exact fun h => absurd (hd.symm.trans h) (by decide)
    | hosted => exact fun _ => rfl
  | preparedDelegate _ hphase hcand =>
    have hact := active_of_phase hphase
    refine request rfl ?_ (hc.lost_target hact)
    cases hcand with
    | native hd => exact fun h => absurd (hd.symm.trans h) (by decide)
    | hosted => exact fun _ => rfl
  | mapRecorded | mapNoted => exact { hc with }
  | mapAwaited _ hphase =>
    have hact := active_of_phase hphase
    exact request rfl (hc.owned hact (by rw [hphase]; decide)) (hc.lost_target hact)
  | mapRestarts _ _ h hprep =>
    exact of_waiting rfl (hc.owned h hprep) (hc.lost_target h)
  | aborted => exact of_rest rfl rfl rfl
  | replyPrepared _ _ _ hpend hact =>
    have hphase := hc.phase_of_pending hpend hact
    have hac := active_of_phase hphase
    have how := hc.owned hac (by rw [hphase]; decide)
    cases ht : c.target with
    | native => exact request rfl how (hc.lost_target hac) fun _ => ht
    | hosted => exact request rfl how (hc.lost_target hac) (by simp) fun _ => ht
  | replyReleased _ _ hacc =>
    have hac := (pending_of_accepts hacc).1
    exact of_waiting rfl (fun _ => rfl) (hc.lost_target hac)
  | replyReady _ p _ hpend hact =>
    have hphase := hc.phase_of_pending hpend hact
    have hac := active_of_phase hphase
    have htgt := (hc.pending_target p hpend).2 hact
    refine commitSelection htgt ?_ (hc.owned hac (by rw [hphase]; decide)) (hc.lost_target hac)
    intro hrel
    rw [hc.lost_target hac hrel] at htgt
    exact absurd htgt (by decide)
  | replyCommitted _ _ _ hpend hact =>
    have hphase := hc.phase_of_pending hpend hact
    have hac := active_of_phase hphase
    exact of_waiting rfl (hc.owned hac (by rw [hphase]; decide)) (hc.lost_target hac)
      fun _ => hc.selected (.inl hphase)
  | nativeReady _ hphase htgt =>
    have hac := active_of_phase hphase
    refine commitSelection htgt (fun _ => ?_) (hc.owned hac (by rw [hphase]; decide))
      (hc.lost_target hac)
    cases hp : c.pending with
    | none => rfl
    | some p =>
      -- only an acquisition is awaited while activating, and it leads to hosted
      have hpa := (hc.pending_last p hp).2.2
      rw [hphase] at hpa
      have hacq : p.action = .acquire := by
        cases ha : p.action <;> rw [ha] at hpa <;> first | rfl | exact absurd hpa (by decide)
      rw [(hc.pending_target p hp).2 hacq] at htgt
      exact absurd htgt (by decide)
  | relayLostIdle h => exact of_rest h (hrs h) (hc.rest_pending h)
  | relayLostPreparing hphase hd =>
    obtain ⟨hrb, hne⟩ := hc.preparing hphase
    constructor
    case deadline_iff => exact hc.deadline_iff
    case rest_pending => exact fun _ => rfl
    case pending_last | pending_target => intro p hp; exact absurd hp (by simp)
    case preparing => exact fun _ => ⟨hrb, hne⟩
    case hosted_owned => exact fun _ _ _ => hphase
    case selected => intro h; rw [show _ = _ from hphase] at h; exact absurd h (by simp)
    case lost_target => intro _ _; simp [target, hrb, hd]
  | relayLostSwitching _ _ hd hrb =>
    exact of_waiting rfl (fun _ => rfl) fun _ => by simp [target, hrb, hd]
  | relayLostRollback _ hm | rolledBack _ _ _ _ hm => exact rollback hm
  | drained => exact of_rest c.active_finish rfl rfl

end Coherent

theorem Coherent.call (hc : Coherent c) (e : Call) : Coherent (c.call e) := by
  cases e with
  | tell now i => exact hc.move (step_move c now i)
  | takeActions => exact { hc with }

theorem coherent_of_reachable (h : system.Reachable c) : Coherent c := by
  refine TransitionSystem.invariant ?_ ?_ h
  · rintro _ ⟨_, rfl⟩
    exact .of_rest rfl rfl rfl
  · rintro c e _ hc rfl
    exact hc.call e

/-! ## No switch hangs

Left alone, a coordinator is only polled and relieved of its actions. A poll
past the deadline either ends the switch or turns it into a rollback, and a
poll past the deadline of a rollback ends it. -/

def Call.quiet : Call → Bool
  | .tell _ .poll => true
  | .tell _ _ => false
  | .takeActions => true

/-- How many of a list of calls are polls made after the deadline that was
set when they were made. -/
def overduePolls (c : TransitionCoordinator) : List Call → ℕ
  | [] => 0
  | .tell now .poll :: calls =>
    (c.overdue now).toNat + overduePolls (c.call (.tell now .poll)) calls
  | e :: calls => overduePolls (c.call e) calls

/-- How many overdue polls a switch can still survive: none at rest, one when
it is draining or being undone already, two otherwise. -/
def pollRank (c : TransitionCoordinator) : ℕ :=
  if !c.active then 0
  else if c.status.phase = .draining ∨ c.status.rollingBack = true then 1
  else 2

theorem pollRank_le_two (c : TransitionCoordinator) : c.pollRank ≤ 2 := by
  unfold pollRank
  split
  · decide
  · split <;> decide

theorem pollRank_of_inactive (h : c.active = false) : c.pollRank = 0 := by
  simp [pollRank, h]

theorem pollRank_of_rollingBack (h : c.status.rollingBack = true) : c.pollRank ≤ 1 := by
  unfold pollRank
  split
  · decide
  · rw [if_pos (.inr h)]

theorem active_of_overdue (hc : Coherent c) (h : c.overdue now = true) : c.active = true := by
  rw [← hc.deadline_iff]
  cases hd : c.deadline with
  | none => simp [overdue, hd] at h
  | some => rfl

/-- **An overdue poll uses up one of the polls a switch can survive.** -/
theorem pollRank_poll_lt (hc : Coherent c)
    (h : c.overdue now = true) : (c.poll now).pollRank < c.pollRank := by
  have hact := active_of_overdue hc h
  have hrn : 0 < c.pollRank := by
    unfold pollRank
    rw [hact]
    simp only [Bool.not_true, Bool.false_eq_true, if_false]
    split <;> decide
  unfold poll
  rw [h]
  simp only [Bool.not_true, Bool.false_eq_true, if_false]
  by_cases hphase : c.status.phase = .draining
  · rw [if_pos hphase, pollRank_of_inactive c.active_finish]
    exact hrn
  rw [if_neg hphase]
  have htwo (hrb : c.status.rollingBack = false) : c.pollRank = 2 := by
    simp [pollRank, hact, hphase, hrb]
  have hm := rollback_move c now .timeout hact
  generalize c.rollback now .timeout = c' at hm
  cases hm with
  | again | unowned | lostHosted => exact (pollRank_of_inactive rfl).trans_lt hrn
  | lostNative _ hrb | negotiate _ hrb =>
    rw [htwo hrb]
    exact Nat.lt_succ_of_le (pollRank_of_rollingBack rfl)

theorem poll_of_not_overdue (h : c.overdue now = false) : c.poll now = c := by
  simp [poll, h]

/-- **The ranking argument, over a whole run of quiet calls.** -/
theorem overduePolls_add_pollRank_le (hc : Coherent c)
    {cs : List Call} (hqt : ∀ e ∈ cs, e.quiet = true) :
    c.overduePolls cs + (cs.foldl call c).pollRank ≤ c.pollRank := by
  induction cs generalizing c with
  | nil => simp [overduePolls]
  | cons e _ ih =>
    have hrs := ih (hc.call e) (fun e' h => hqt e' (List.mem_cons_of_mem _ h))
    rw [List.foldl_cons]
    cases e with
    | takeActions => exact hrs
    | tell now i =>
      cases i with
      | poll =>
        rw [call_poll] at hrs ⊢
        rw [overduePolls, call_poll]
        cases hov : c.overdue now with
        | true =>
          have hlt := pollRank_poll_lt hc hov
          rw [Bool.toNat_true]
          omega
        | false =>
          rw [poll_of_not_overdue hov] at hrs ⊢
          rw [Bool.toNat_false, Nat.zero_add]
          exact hrs
      | _ => exact absurd (hqt _ List.mem_cons_self) (by simp [Call.quiet])

theorem active_eq_false_of_pollRank (h : c.pollRank = 0) : c.active = false := by
  unfold pollRank at h
  cases hact : c.active with
  | false => rfl
  | true =>
    rw [hact] at h
    simp only [Bool.not_true, Bool.false_eq_true, if_false] at h
    split at h <;> cases h

/-- **No switch hangs.** In every reachable state a deadline is set exactly
while a switch is under way; and as soon as two polls have come after the
deadline set at the time – with whatever early polls and taking of actions in
between – the switch is over. A poll past the deadline either ends it at once
or leaves a new deadline, and a poll past that one ends it. -/
theorem no_switch_hangs {c : TransitionCoordinator} (h : system.Reachable c) :
    (c.deadline.isSome = true ↔ c.active = true)
      ∧ (∀ calls : List Call, (∀ e ∈ calls, e.quiet = true) → 2 ≤ c.overduePolls calls →
          (calls.foldl call c).active = false)
      ∧ (∀ d, c.deadline = some d → ∀ now, d ≤ now → (c.poll now).active = false
          ∨ ∃ d', (c.poll now).deadline = some d'
            ∧ ∀ now', d' ≤ now' → ((c.poll now).poll now').active = false) := by
  have hc := coherent_of_reachable h
  have htwo : ∀ calls : List Call, (∀ e ∈ calls, e.quiet = true) →
      2 ≤ c.overduePolls calls → (calls.foldl call c).active = false := by
    intro _ hqt _
    have hle := overduePolls_add_pollRank_le hc hqt
    have h2 := c.pollRank_le_two
    exact active_eq_false_of_pollRank (by omega)
  refine ⟨by rw [hc.deadline_iff], htwo, ?_⟩
  intro _ hd now hnow
  have hov : c.overdue now = true := by simp [overdue, hd, hnow]
  have hc' : Coherent (c.poll now) := hc.call (.tell now .poll)
  cases hact : (c.poll now).active with
  | false => exact .inl rfl
  | true =>
    refine .inr ?_
    obtain ⟨d', hd'⟩ := Option.isSome_iff_exists.mp (hc'.deadline_iff.trans hact)
    refine ⟨d', hd', fun now' hnw' => ?_⟩
    have hov' : (c.poll now).overdue now' = true := by simp [overdue, hd', hnw']
    refine htwo [.tell now .poll, .tell now' .poll] (by simp [Call.quiet]) ?_
    show 2 ≤ (c.overdue now).toNat + (((c.poll now).overdue now').toNat + 0)
    rw [hov, hov']
    decide

theorem no_switch_hangs_unanswered :
    ([Call.tell 0 (.begin .hosted 1 [1] true), .tell 0 (.prepared 1 true)].foldl call
        (new .native)).active = true
      ∧ ([Call.tell 0 (.begin .hosted 1 [1] true), .tell 0 (.prepared 1 true),
          .tell 15000 .poll].foldl call (new .native)).active = true
      ∧ ([Call.tell 15000 .poll, .takeActions, .tell 29999 .poll, .tell 30000 .poll].foldl call
        ([Call.tell 0 (.begin .hosted 1 [1] true), .tell 0 (.prepared 1 true)].foldl call
          (new .native))).active = false := by
  have hre := reachable_foldl_call (c := new .native) (.init ⟨.native, rfl⟩)
  exact ⟨by decide, by decide, (no_switch_hangs (hre _)).2.1 _ (by decide) (by decide)⟩

end TransitionCoordinator

end Tailgate
