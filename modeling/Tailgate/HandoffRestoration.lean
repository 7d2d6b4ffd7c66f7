import Tailgate.HandoffExclusion

/-!
# Whether an abandoned switch gives the connections back

A switch away from the relay that is abandoned should leave the relay with its
DERP connections enabled. It does not if the coordinator has not heard that they
were released, or if a new switch begins while actions of the rollback are
queued. `timely` excludes both.
-/

namespace Tailgate

open TransitionCoordinator QueuedEffects List RelaySession

namespace TransitionCoordinator

variable (c : TransitionCoordinator)

/-- A switch to native under way that has not touched ownership, as far as
the coordinator knows. -/
def Untouched : Prop :=
  c.active = true ∧ c.status.desired = .native ∧ c.status.rollingBack = false
    ∧ c.ownershipChanged = false

instance : Decidable c.Untouched :=
  inferInstanceAs (Decidable (_ ∧ _ ∧ _ ∧ _))

def abandons (now : ℕ) (i : Input) : Bool :=
  c.rollsBack now i && decide c.Untouched

/-- The times at which the mode in effect is settled: no switch is under way,
or it has only begun, or it is all over but for the draining. -/
def calm : Bool :=
  match c.status.phase with
  | .idle | .failed | .preparing | .draining => true
  | _ => false

variable {c} {c' : TransitionCoordinator} {now : ℕ}

theorem calm_of_inactive (h : c.active = false) : c.calm = true := by
  cases hph : c.status.phase <;> simp [active, calm, hph] at h ⊢

theorem calm_of_draining (h : c.status.phase = .draining) : c.calm = true := by
  simp [calm, h]

theorem Untouched.target (h : c.Untouched) : c.target = .native := by
  simp [TransitionCoordinator.target, h.2.1, h.2.2.1]

theorem abandons_relayFailed (c : TransitionCoordinator) (now : ℕ) :
    c.abandons now .relayFailed = false := by
  rw [abandons, Bool.and_eq_false_iff]
  by_cases hu : c.Untouched
  · exact .inl (by simp [rollsBack, hu.2.1, hu.2.2.1])
  · exact .inr (decide_eq_false hu)

theorem RollbackMove.not_untouched (h : RollbackMove c now c') : ¬ c'.Untouched := by
  rintro ⟨hact, -, hrb, -⟩
  cases h with
  | again | unowned | lostHosted => cases hact
  | lostNative | negotiate => cases hrb

variable {i : Input}

theorem Move.untouched (h : Move c now i c') (hu : c'.Untouched) : c.Untouched
      ∨ c.active = false ∧ c.status.effective = .hosted
        ∧ ∃ want rev rs, i = .begin want rev rs true := by
  have hcm {sel : NodeMode} (hact : c.active = true)
      (hu : (c.commitSelection now sel).Untouched) : c.Untouched := by
    refine ⟨hact, ?_⟩
    unfold commitSelection at hu
    cases hrel : c.relayAvailable with
    | true => simpa [action, request, hrel] using hu.2
    | false => simpa [action, hrel] using hu.2
  cases h with
  | stay | mapRecorded | mapNoted | relayLostIdle => exact .inl hu
  | beginRefused | beginSame => cases hu.1
  | beginStart want rev rs hact hd =>
    refine .inr ⟨hact, ?_, want, rev, rs, rfl⟩
    have hd' : want = .native := hu.2.1
    rw [hd'] at hd
    cases heff : c.status.effective with
    | native => exact absurd heff.symm hd
    | hosted => rfl
  | preparedAlone | replyReleased | relayLostSwitching => cases hu.2.2.2
  | preparedAwait _ hphase hcand | preparedDelegate _ hphase hcand =>
    have hact := active_of_phase hphase
    cases hcand with
    | native => exact .inl ⟨hact, hu.2⟩
    | hosted => cases hu.2.2.2
  | mapAwaited _ hphase | relayLostPreparing hphase =>
    exact .inl ⟨active_of_phase hphase, hu.2⟩
  | mapRestarts _ _ hact => exact .inl ⟨hact, hu.2⟩
  | aborted => cases hu.1
  | replyPrepared _ _ hacc | replyCommitted _ _ hacc =>
    exact .inl ⟨(pending_of_accepts hacc).1, hu.2⟩
  | replyReady _ _ hacc =>
    exact .inl (hcm (pending_of_accepts hacc).1 hu)
  | nativeReady _ hphase =>
    exact .inl (hcm (active_of_phase hphase) hu)
  | relayLostRollback _ hm | rolledBack _ _ _ _ hm => exact absurd hu hm.not_untouched
  | drained => rw [Untouched, active_finish] at hu; cases hu.1

theorem RollbackMove.target_eq
    (h : RollbackMove c now c') (hgen : c'.status.generation = c.status.generation) :
    c'.target = c.target := by
  cases h with
  | again | unowned => rfl
  | lostHosted | lostNative | negotiate => exact absurd hgen (Nat.succ_ne_self _)

theorem Move.target_eq (h : Move c now i c') (hgen : c'.status.generation = c.status.generation) :
    c'.target = c.target := by
  have hcm (sel : NodeMode) : (c.commitSelection now sel).target = c.target := by
    unfold commitSelection
    cases c.relayAvailable <;> simp [action, request, target]
  cases h with
  | beginRefused | beginSame | beginStart | mapRestarts | aborted =>
    exact absurd hgen (Nat.succ_ne_self _)
  | replyReady => exact hcm .hosted
  | nativeReady => exact hcm .native
  | relayLostRollback _ hm | rolledBack _ _ _ _ hm => exact hm.target_eq hgen
  | _ => rfl

end TransitionCoordinator

/-- The relay holds its connections and no request on its way makes it release
them. -/
def RelaySession.holdsDerp (r : RelaySession) : Bool :=
  r.lease.derps.enabled && r.requests.all fun q => q.action != .release

namespace Handoff

/-- Whether abandoning a switch now, if the input does that, is in time: the
relay still holds its connections. -/
def inTime (s : Handoff) (now : ℕ) (i : Input) : Bool :=
  !s.transition.abandons now i || s.relay.all holdsDerp

/-- **The condition under which a switch can be abandoned safely**: a new
switch only begins once the actions of the last one are carried out, and a
switch to native that has not touched ownership is only abandoned while the
relay holds its connections. -/
def timely (s : Handoff) : Event → Bool
  | .tell _ (.begin _ _ _ _) => s.transition.actions.isEmpty
  | .tell now i => s.inTime now i
  | .deliverReply now =>
    (s.relay.bind fun r => r.replies.head?).all fun p => s.inTime now (.reply p)
  | _ => true

/-- **The invariant behind restoration.** -/
structure Restoring (s : Handoff) : Prop where
  /-- In hosted mode, the relay will be settled when nothing is under way. -/
  settled_ahead : s.transition.calm = true → s.transition.status.effective = .hosted →
    s.ahead.settled = true
  /-- Before ownership is touched, the relay's lease can at most have closed
  the connections, and no acquisition is on its way. -/
  untouched : s.transition.Untouched → ∀ r, s.relay = some r →
    (r.lease.changedOwnership = true → r.lease.derps.enabled = false)
      ∧ ∀ q ∈ r.requests, q.action ≠ .acquire
  untouched_queue : s.transition.Untouched →
    ∀ q ∈ delegations (s.batch ++ s.transition.actions), q.action ≠ .acquire
  /-- The requests of a generation fit its direction. -/
  directed : ∀ q ∈ s.line, q.generation = s.transition.status.generation →
    (q.action = .release → s.transition.target = .native)
      ∧ (q.action = .acquire → s.transition.target = .hosted)
  /-- While the last request has been answered *committed* towards hosted, the
  relay is settled and has been asked nothing since. -/
  committed : ∀ r, s.relay = some r → ∀ p ∈ r.replies, p.status = .committed →
    p.requestId = s.transition.requestId → p.generation = s.transition.status.generation →
    s.transition.target = .hosted → r.settled = true ∧ r.requests = []
      ∧ delegations (s.batch ++ s.transition.actions) = []

/-! ## What the coordinator decides -/

section Decisions

variable {s : Handoff} {c' : TransitionCoordinator} {pushed : List TransitionAction}

theorem settled_push (hq : Pushes s.transition c' pushed)
    (h : (pushed.foldl .carry s.ahead).settled = true) :
    (ahead { s with transition := c' }).settled = true := by
  rw [ahead_push hq]
  exact h

theorem settled_renew (hx : Exclusive s) (hq : Renews s.transition c' pushed)
    (h : (pushed.foldl .carry s.holdings).settled = true) :
    (ahead { s with transition := c' }).settled = true := by
  rw [ahead_renew hx.generation_le hq]
  exact h

theorem settled_clear (hq : Clears s.transition c' pushed)
    (h : ∀ held : Holdings, (s.batch = [] → held = s.holdings) →
      (pushed.foldl .carry held).settled = true) :
    (ahead { s with transition := c' }).settled = true := by
  rw [ahead, todo_clear hq, foldl_append]
  refine h _ fun hbatch => ?_
  rw [hbatch]
  rfl

theorem ahead_of_todo (h : s.todo = []) : s.ahead = s.holdings := by rw [ahead, h, foldl_nil]

/-- A relay whose switch has not touched ownership and that holds its
connections is settled. -/
theorem Restoring.settled_of_holdsDerp (h : Restoring s) (hu : s.transition.Untouched)
    (hhl : s.relay.all holdsDerp = true) : s.holdings.settled = true := by
  show s.relay.all settled = true
  cases hr : s.relay with
  | none => rfl
  | some r =>
    rw [hr, Option.all_some, holdsDerp, Bool.and_eq_true, all_eq_true] at hhl
    obtain ⟨hon, hrelease⟩ := hhl
    obtain ⟨hoff, hacquire⟩ := h.untouched hu r hr
    have hch : r.lease.changedOwnership = false := by
      cases hch : r.lease.changedOwnership with
      | false => rfl
      | true => rw [hoff hch] at hon; cases hon
    rw [Option.all_some, settled, hon, hch]
    refine all_eq_true.mpr fun q hq => ?_
    have hne := bne_iff_ne.mp (hrelease q hq)
    have hne' := hacquire q hq
    cases hact : q.action with
    | release => exact absurd hact hne
    | acquire => exact absurd hact hne'
    | prepare | commit => rfl

variable {now : ℕ}

/-- What a rollback leaves the relay with: it is retired, or the switch had
not touched it. -/
theorem settled_rollback {c : TransitionCoordinator} (hx : Exclusive s)
    (hst : c.status = s.transition.status) (hm : RollbackMove c now c') (hcl : c'.calm = true)
    (heff : c'.status.effective = .hosted)
    (hun : c.status.rollingBack = false → c.ownershipChanged = false →
      c.status.effective = .hosted → s.batch = [] ∧ s.holdings.settled = true) :
    (ahead { s with transition := c' }).settled = true := by
  have hgen : c.status.generation = s.transition.status.generation := by rw [hst]
  cases hm with
  | again =>
    refine settled_clear ⟨hgen, rfl, by simp⟩ fun held _ => ?_
    cases c.original <;> rfl
  | unowned _ hrb hown =>
    obtain ⟨hbatch, hset⟩ := hun hrb hown heff
    refine settled_clear ⟨hgen, rfl, by simp⟩ fun held hhe => ?_
    rw [hhe hbatch]
    cases c.status.desired with
    | native => exact hset
    | hosted => rfl
  | lostHosted =>
    exact settled_renew hx ⟨hgen ▸ Nat.lt_succ_self _, .inr rfl, by simp⟩ rfl
  | lostNative | negotiate =>
    cases hcl

variable {i : Input}

/-- What the coordinator is told comes in time. -/
structure Timely (s : Handoff) (now : ℕ) (i : Input) : Prop where
  abort : ∀ f, i ≠ .abort f
  begin : ∀ want rev rs unchanged, i = .begin want rev rs unchanged →
    s.batch = [] ∧ s.transition.actions = []
  abandons : s.transition.abandons now i = true → s.batch = [] ∧ s.relay.all holdsDerp = true
  committed : ∀ p req, i = .reply p → p.status = .committed → s.transition.accepts p = true →
    s.transition.pending = some req → s.transition.target = .hosted → s.ahead.settled = true

theorem Timely.todo_eq {want rev rs unchanged} (h : Timely s now i)
    (hi : i = .begin want rev rs unchanged) : s.todo = [] := by
  obtain ⟨hbatch, has⟩ := h.begin _ _ _ _ hi
  rw [todo, hbatch, has]
  rfl

/-- **What the coordinator decides leaves a settled relay in hosted mode.** -/
theorem Restoring.settled_move (h : Restoring s) (hx : Exclusive s)
    (hc : Coherent s.transition) (hm : Move s.transition now i c') (hti : Timely s now i)
    (hcl : c'.calm = true) (heff : c'.status.effective = .hosted) :
    (ahead { s with transition := c' }).settled = true := by
  have hrs (hact : s.transition.active = false) (heff : s.transition.status.effective = .hosted)
      (htd : s.todo = []) : s.holdings.settled = true := by
    rw [← ahead_of_todo htd]
    exact h.settled_ahead (calm_of_inactive hact) heff
  -- towards hosted, ownership is untouched only before the mode changes
  have hnv (hact : s.transition.active = true) (hd : s.transition.status.desired = .hosted)
      (hown : s.transition.ownershipChanged = false)
      (heff : s.transition.status.effective = .hosted) : False :=
    (hc.preparing (hc.hosted_owned hact hd hown)).2 (hd.trans heff.symm)
  cases hm with
  | stay => exact h.settled_ahead hcl heff
  | beginRefused _ _ _ hact | beginSame _ _ _ hact =>
    exact settled_renew hx ⟨Nat.lt_succ_self _, .inl (append_nil _).symm, by simp⟩
      (hrs hact heff (hti.todo_eq rfl))
  | beginStart desired _ _ hact =>
    have hset := hrs hact heff (hti.todo_eq rfl)
    refine settled_renew hx ⟨Nat.lt_succ_self _, .inl rfl, by simp⟩ ?_
    cases desired <;> exact hset
  | preparedAlone | preparedAwait | preparedDelegate | mapAwaited | mapRestarts
  | replyReleased | relayLostSwitching => cases hcl
  | mapRecorded | mapNoted | relayLostIdle =>
    exact settled_push (.nil rfl rfl) (h.settled_ahead hcl heff)
  | aborted failure => exact absurd rfl (hti.abort failure)
  | replyPrepared =>
    cases htgt : s.transition.target <;> simp [calm, request, htgt] at hcl
  | replyReady _ p hacc hpend hact =>
    have hac := (pending_of_accepts hacc).1
    have htgt := (hc.pending_target p hpend).2 hact
    have hrel : s.transition.relayAvailable = true := by
      cases hrel : s.transition.relayAvailable with
      | true => rfl
      | false => rw [hc.lost_target hac hrel] at htgt; cases htgt
    simp [calm, commitSelection, action, request, hrel] at hcl
  | replyCommitted reply p hacc hpend hact hst =>
    have hphase := hc.phase_of_pending hpend hact
    have htgt := (hc.selected (.inl hphase)).symm.trans heff
    exact settled_push (.nil rfl rfl) (hti.committed reply p rfl hst hacc hpend htgt)
  | nativeReady =>
    have hnt : (s.transition.commitSelection now .native).status.effective = .native := by
      unfold commitSelection
      cases s.transition.relayAvailable <;> rfl
    rw [hnt] at heff
    cases heff
  | relayLostPreparing => exact settled_push ⟨rfl, rfl, by simp⟩ rfl
  | relayLostRollback hroll hm =>
    -- without a relay, a switch to native goes on
    refine settled_rollback (c := { s.transition with relayAvailable := false }) hx rfl hm hcl
      heff fun hrb hown heff => ?_
    have hrb : s.transition.status.rollingBack = false := hrb
    simp only [rollsBack, hrb, Bool.and_eq_true, Bool.not_false, Bool.and_true,
      Bool.not_eq_true', beq_eq_false_iff_ne] at hroll
    cases hd : s.transition.status.desired with
    | native => exact absurd hd hroll.2
    | hosted => exact (hnv hroll.1.1 hd hown heff).elim
  | rolledBack _ hact hroll _ hm =>
    refine settled_rollback hx rfl hm hcl heff fun hrb hown heff => ?_
    cases hd : s.transition.status.desired with
    | native =>
      have hu : s.transition.Untouched := ⟨hact, hd, hrb, hown⟩
      obtain ⟨hbatch, hhl⟩ := hti.abandons (by simp [abandons, hroll, hu])
      exact ⟨hbatch, h.settled_of_holdsDerp hu hhl⟩
    | hosted => exact (hnv hact hd hown heff).elim
  | drained hphase =>
    have heff : s.transition.status.effective = .hosted := heff
    refine settled_push ⟨rfl, rfl, by simp [finish, action]⟩ ?_
    rw [heff]
    exact h.settled_ahead (calm_of_draining hphase) heff

/-- **What the coordinator decides keeps the invariant.** -/
theorem Restoring.move (h : Restoring s) (hx : Exclusive s)
    (hc : Coherent s.transition) (hm : Move s.transition now i c') (hti : Timely s now i) :
    Restoring { s with transition := c' } := by
  have hl := hm.ledger
  constructor
  case settled_ahead => exact h.settled_move hx hc hm hti
  case untouched =>
    intro hu r (hr : s.relay = some r)
    rcases hm.untouched hu with hu | ⟨hact, heff, _, _, _, hi⟩
    · exact h.untouched hu r hr
    · -- the switch begins from a settled relay
      have hset := h.settled_ahead (calm_of_inactive hact) heff
      rw [ahead_of_todo (hti.todo_eq hi)] at hset
      have hset : s.relay.all settled = true := hset
      simp only [hr, Option.all_some, settled, Bool.and_eq_true, Bool.not_eq_true',
        all_eq_true, Bool.or_eq_true, beq_iff_eq] at hset
      refine ⟨fun hch => absurd (hset.1.2.symm.trans hch) Bool.false_ne_true, fun q hq ha => ?_⟩
      rcases hset.2 q hq with hq | hq
      all_goals cases ha.symm.trans hq
  case untouched_queue =>
    intro hu q hq hact
    rcases hl.mem_delegations hq with hq | ⟨-, -, hacquire⟩
    · rcases hm.untouched hu with hu | ⟨-, -, _, _, _, hi⟩
      · exact h.untouched_queue hu q hq hact
      · obtain ⟨hbatch, has⟩ := hti.begin _ _ _ _ hi
        rw [hbatch, has] at hq
        cases hq
    · cases hu.target.symm.trans (hacquire hact)
  case directed =>
    intro q hq hgen
    -- a request made before is of this generation only if the generation is the same
    have hold (hq : q ∈ s.line) : (q.action = .release → c'.target = .native)
        ∧ (q.action = .acquire → c'.target = .hosted) := by
      have hle := (hx.ordered.line_le q hq).2
      have hsm : c'.status.generation = s.transition.status.generation :=
        le_antisymm (hgen ▸ hle) hm.generation_le
      rw [hm.target_eq hsm]
      exact h.directed q hq (hgen.trans hsm)
    rcases mem_append.mp hq with hq | hq
    · exact hold (mem_append_left _ hq)
    · rcases hl.mem_delegations hq with hq | ⟨-, hnew⟩
      · exact hold (mem_append_right _ hq)
      · exact hnew
  case committed =>
    intro r (hr : s.relay = some r) p hp hs hid hgen htgt
    have hmem : p ∈ s.replies := by simp [replies, hr, hp]
    obtain ⟨_, hle'⟩ := hx.ordered.replies_le p hmem
    have hid : p.requestId = c'.requestId := hid
    cases hl with
    | silent hid' hdel =>
      have hsm : c'.status.generation = s.transition.status.generation :=
        le_antisymm (hgen ▸ hle') hm.generation_le
      obtain ⟨hset, hreq, hno⟩ := h.committed r hr p hp hs (hid.trans hid') (hgen.trans hsm)
        ((hm.target_eq hsm).symm.trans htgt)
      refine ⟨hset, hreq, ?_⟩
      rw [delegations_append, append_eq_nil_iff] at hno ⊢
      refine ⟨hno.1, ?_⟩
      rcases hdel with hdel | hdel
      · rw [hdel, hno.2]
      · exact hdel
    | asks => omega

end Decisions

/-! ## What the world does -/

end Handoff

/-- Before ownership is touched, the relay's lease can at most close the
connections. -/
theorem RelaySession.Move.untouched {r r' : RelaySession} (h : r.Move r')
    (hoff : r.lease.changedOwnership = true → r.lease.derps.enabled = false)
    (hrq : ∀ q ∈ r.requests, q.action ≠ .acquire) :
    (r'.lease.changedOwnership = true → r'.lease.derps.enabled = false)
      ∧ ∀ q ∈ r'.requests, q.action ≠ .acquire := by
  cases h with
  | quietly l _ _ hch hen =>
    refine ⟨fun (h : l.changedOwnership = true) => ?_, hrq⟩
    exact hen.trans (hoff (hch.symm.trans h))
  | polled _ l h =>
    refine ⟨?_, hrq⟩
    show l.changedOwnership = true → l.derps.enabled = false
    cases h with
    | stay => exact hoff
    | expired =>
      intro (hch : r.lease.changedOwnership = true)
      simp [hch]
    | ready => exact hoff
  | answered _ request _ _ hreq h =>
    refine ⟨?_, fun q hq => hrq q (hreq ▸ mem_cons_of_mem _ hq)⟩
    cases h with
    | replayed | refused => exact hoff
    | prepared | committed => intro hch; cases hch
    | released => exact fun _ => rfl
    | acquired _ hact =>
      exact absurd hact (hrq request (hreq ▸ mem_cons_self))

namespace Handoff

variable {s : Handoff}

theorem Ordered.fresh {r : RelaySession} {request : DelegationRequest}
    {rest : List DelegationRequest} (h : Ordered s) (hr : s.relay = some r)
    (hreq : r.requests = request :: rest) : r.lease.request ≠ some request := by
  intro heq
  have hinc := h.increasing
  simp only [line, sent, hr, Option.toList_some, flatMap_singleton, RelaySession.sent, heq,
    hreq, cons_append, pairwise_cons] at hinc
  exact absurd (hinc.1 request mem_cons_self) (lt_irrefl _)

namespace Restoring

variable {s s' : Handoff} {r : RelaySession} {p : DelegationReply}

/-- **Carrying out what comes next, or a move of the relay, keeps the
invariant.** -/
theorem advance {acts : List TransitionAction} (h : Restoring s)
    (htr : s'.transition = { s.transition with actions := acts })
    (hw : s.ahead.Within s'.ahead) (hln : s'.line.Sublist s.line)
    (hqu : (delegations (s'.batch ++ s'.transition.actions)).Sublist
      (delegations (s.batch ++ s.transition.actions)))
    (hun : s.transition.Untouched → ∀ r, s'.relay = some r →
      (r.lease.changedOwnership = true → r.lease.derps.enabled = false)
        ∧ ∀ q ∈ r.requests, q.action ≠ .acquire)
    (hcm : ∀ r, s'.relay = some r → ∀ p ∈ r.replies, p.status = .committed →
      p.requestId = s.transition.requestId → p.generation = s.transition.status.generation →
      s.transition.target = .hosted → r.settled = true ∧ r.requests = []
        ∧ delegations (s'.batch ++ s'.transition.actions) = []) : Restoring s' := by
  have hst : s'.transition.status = s.transition.status := by rw [htr]
  have htgt : s'.transition.target = s.transition.target := by rw [htr]; rfl
  have hid : s'.transition.requestId = s.transition.requestId := by rw [htr]
  have hcl : s'.transition.calm = s.transition.calm := by rw [htr]; rfl
  have hu (hu : s'.transition.Untouched) : s.transition.Untouched := by rwa [htr] at hu
  constructor
  case settled_ahead =>
    rw [hcl, hst]
    exact fun hcl heff => hw.settled (h.settled_ahead hcl heff)
  case untouched => exact fun hu' => hun (hu hu')
  case untouched_queue => exact fun hu' q hq => h.untouched_queue (hu hu') q (hqu.subset hq)
  case directed =>
    rw [hst, htgt]
    exact fun q hq => h.directed q (hln.subset hq)
  case committed =>
    rw [hst, htgt, hid]
    exact hcm

theorem withoutRelay (h : Restoring s) : Restoring { s with relay := none } := by
  refine h.advance rfl (ahead_within [] rfl ?_) ?_ (.refl _) (by simp) (by simp)
  · exact ⟨rfl, fun _ => rfl, fun _ => rfl⟩
  · exact .append_right (nil_sublist _) _

variable {now : ℕ} {r' : RelaySession} {a : TransitionAction} {rest : List TransitionAction}

theorem settled_of_answer {l : DelegationLease}
    {req : DelegationRequest} {rest : List DelegationRequest}
    (h : Restoring s) (hx : Exclusive s) (hr : s.relay = some r)
    (hreq : r.requests = req :: rest) (hm : r.lease.AnswerMove now req l)
    (hp : p ∈ l.output) (hans : p.Answers req) (hs : p.status = .committed)
    (hgen : p.generation = s.transition.status.generation) (htgt : s.transition.target = .hosted) :
    l.derps.enabled = true ∧ l.changedOwnership = false := by
  obtain ⟨hl, hout⟩ := hx.lease r hr
  cases hm with
  | replayed heq => exact absurd heq (hx.ordered.fresh hr hreq)
  | refused =>
    rw [hout, nil_append, mem_singleton] at hp
    rw [hp] at hs
    cases hs
  | acquired _ _ _ hrep =>
    rcases hrep with rfl | rfl <;> simp [DelegationLease.answered, hout] at hp
    rw [hp] at hs
    cases hs
  | committed hadm hact =>
    refine ⟨?_, rfl⟩
    -- the request before was a completed acquisition: a release leads to native
    obtain ⟨p₀, hp₀, hst⟩ := hadm.after_moved hact
    obtain ⟨last, hla, hlg, -, -⟩ := hadm.continues (by rw [hact]; decide)
    obtain ⟨_, hq, -, hq'⟩ := hl.reply_request p₀ hp₀
    cases hla.symm.trans hq
    have hmem : last ∈ s.line := by
      refine mem_append_left _ ?_
      simp [sent, hr, RelaySession.sent, hla]
    have hdir := h.directed last hmem (hlg.symm.trans (hans.1.symm.trans hgen))
    cases hac' : last.action with
    | acquire =>
      refine hl.acquire_on last hla hac' fun p' hp' => ?_
      cases hp₀.symm.trans hp'
      rcases hst with hst | hst
      · exact hst
      · rw [hst, hac'] at hq'
        simp [DelegationLease.success] at hq'
    | release => cases htgt.symm.trans (hdir.1 hac')
    | prepare | commit =>
      rw [hac'] at hq'
      rcases hst with hst | hst <;> rw [hst] at hq' <;> simp [DelegationLease.success] at hq'
  | _ =>
    simp [DelegationLease.answered, hout] at hp
    rw [hp] at hs
    cases hs

theorem relayMove (h : Restoring s) (hx : Exclusive s)
    (hr : s.relay = some r) (hm : r.Move r') : Restoring { s with relay := some r' } := by
  obtain ⟨hl, hout⟩ := hx.lease r hr
  refine h.advance rfl (ahead_within [] rfl (holdings_within hr hm)) ?_ (.refl _) ?_ ?_
  · refine .append_right ?_ _
    simpa [sent, hr] using hm.sent
  · rintro hu _ ⟨⟩
    obtain ⟨hoff, hrq⟩ := h.untouched hu r hr
    exact hm.untouched hoff hrq
  · rintro _ ⟨⟩ p hp hs hid hgen htgt
    rcases hm.said hl hout hp with hp | ⟨-, hcom⟩
    · obtain ⟨hset, hreq, hdel⟩ := h.committed r hr p hp hs hid hgen htgt
      exact ⟨hm.settled hset, hm.requests_eq_nil hreq, hdel⟩
    · obtain ⟨_, _, rest, l, hreq, han, hpl, hans, rfl, -⟩ := hcom (.inr hs)
      obtain ⟨hon, hch⟩ := h.settled_of_answer hx hr hreq han hpl hans hs hgen htgt
      obtain ⟨hrs, hdel⟩ := hx.ordered.last hr hreq (hans.2.1.symm.trans hid)
      refine ⟨?_, hrs, hdel⟩
      show (l.derps.enabled && !l.changedOwnership && rest.all _) = true
      rw [hon, hch, hrs]
      rfl

theorem relayMoves (h : Restoring s) (hx : Exclusive s)
    (hr : s.relay = some r) (hm : Relation.ReflTransGen RelaySession.Move r r') :
    Restoring { s with relay := some r' } := by
  induction hm with
  | refl => rw [← hr]; exact h
  | tail hms hm ih => exact ih.relayMove (hx.relayMoves hr hms) rfl hm

theorem take (h : Restoring s) (ht : Takes s a s') : Restoring s' := by
  have hqu := ht.queue_eq
  refine h.advance ht.transition_eq (ahead_within _ ht.todo_eq ht.foldl_within) ht.line ?_ ?_ ?_
  · rw [hqu]
    exact delegations_sublist_cons a _
  · intro hu r hr
    rcases ht.relay r hr with ⟨_, rfl⟩ | ⟨r₀, _, hr₀, hqs, rfl⟩
    · exact ⟨by simp, by simp⟩
    · obtain ⟨hoff, hrq⟩ := h.untouched hu r₀ hr₀
      refine ⟨hoff, fun q hq => ?_⟩
      rcases mem_append.mp hq with hq | hq
      · exact hrq q hq
      · refine h.untouched_queue hu q ?_
        have hq := Option.mem_toList.mp (hqs.subset hq)
        simp [delegations, hqu, hq]
  · intro r hr p hp hs hid hgen htgt
    rcases ht.relay r hr with ⟨_, rfl⟩ | ⟨r₀, _, hr₀, hqs, rfl⟩
    · cases hp
    · obtain ⟨hset, hrq₀, hdel⟩ := h.committed r₀ hr₀ p hp hs hid hgen htgt
      rw [hqu] at hdel
      obtain ⟨hda, hdel⟩ := delegations_cons_eq_nil hdel
      rw [hda] at hqs
      rw [eq_nil_of_sublist_nil hqs, append_nil]
      exact ⟨hset, hrq₀, hdel⟩

/-- **Carrying out the next action keeps the invariant.** -/
theorem applyAction (h : Restoring s) (hx : Exclusive s) (hc : Coherent s.transition)
    (hbatch : s.batch = a :: rest) (hm : ApplyMove { s with batch := rest } now a s') :
    Restoring s' := by
  rcases hm.takes hbatch hx.ready with ht | ⟨ht, i, rfl, hi⟩
  · exact h.take ht
  refine (h.take ht).move (hx.take ht) hc (s.transition.step_move now i)
    ⟨?_, ?_, fun hab => ?_, ?_⟩
  all_goals rcases hi with rfl | ⟨rfl, ha, hkind⟩
  any_goals simp
  · rw [abandons_relayFailed] at hab
    cases hab
  · -- a session is only started on the way to hosted
    have htgt := hx.activate_target a ha hkind
    rw [abandons, Bool.and_eq_true, decide_eq_true_eq] at hab
    cases htgt.symm.trans hab.2.target

theorem popReply {rest : List DelegationReply} (h : Restoring s) (hr : s.relay = some r)
    (hrep : r.replies = p :: rest) :
    Restoring { s with relay := some { r with replies := rest } } := by
  refine h.advance rfl (ahead_within [] rfl ?_) ?_ (.refl _) ?_ ?_
  · rw [holdings_popReply hr]
    exact .refl _
  · rw [line, line, sent, sent, hr]
    exact .refl _
  · rintro hu _ ⟨⟩
    exact h.untouched hu r hr
  · rintro _ ⟨⟩ p hp
    exact h.committed r hr p (hrep ▸ mem_cons_of_mem _ hp)

/-- A reply that is awaited confirms a commitment towards hosted only when the
relay will be settled. -/
theorem settled_of_committed
    (h : Restoring s) (hc : Coherent s.transition) (hr : s.relay = some r) (hp : p ∈ r.replies)
    (hs : p.status = .committed) (hacc : s.transition.accepts p = true)
    (htgt : s.transition.target = .hosted) : s.ahead.settled = true := by
  obtain ⟨-, hgen, request, hpend, hid, -⟩ := pending_of_accepts hacc
  obtain ⟨hset, _, hdel⟩ := h.committed r hr p hp hs
    (hid.trans (hc.pending_last request hpend).2.1) hgen htgt
  refine Holdings.settled_foldl ?_ ?_
  · show s.relay.all settled = true
    rw [hr]
    exact hset
  · refine eq_nil_of_sublist_nil ?_
    rw [← hdel]
    exact filter_sublist.filterMap _

/-- **Every timely event keeps the invariant.** -/
theorem step {e : Event} (h : Restoring s) (hx : Exclusive s)
    (hc : Coherent s.transition) (hti : s.timely e = true) (hm : StepMove s e s') :
    Restoring s' := by
  cases hm with
  | told now i hbatch hext =>
    refine h.move hx hc (s.transition.step_move now i) ⟨?_, ?_, ?_, ?_⟩
    · rintro f rfl
      cases hext
    · rintro want rev rs unchanged rfl
      exact ⟨hbatch, List.isEmpty_iff.mp hti⟩
    · intro hab
      refine ⟨hbatch, ?_⟩
      have htm : s.inTime now i = true := by
        cases i with
        | begin => simp [abandons, rollsBack] at hab
        | _ => exact hti
      simpa [inTime, hab] using htm
    · rintro p _ rfl
      cases hext
  | lost now =>
    refine h.withoutRelay.move hx.withoutRelay hc (s.transition.step_move now .relayFailed)
      ⟨by simp, by simp, fun hab => ?_, by simp⟩
    rw [abandons_relayFailed] at hab
    cases hab
  | prepared =>
    exact h.advance rfl (.refl _) (.refl _) (.refl _) h.untouched h.committed
  | dropped => exact h.advance rfl (.refl _) (.refl _) (.refl _) h.untouched h.committed
  | taken hbatch =>
    have hqu : s.transition.actions ++ [] = s.batch ++ s.transition.actions := by
      rw [hbatch, append_nil, nil_append]
    refine h.advance rfl (ahead_within [] ?_ (.refl _)) ?_ ?_ h.untouched ?_
    · rw [todo, todo, ← hqu]
      rfl
    · rw [line, line, ← hqu]
      exact .refl _
    · rw [hqu]
    · rw [hqu]
      exact h.committed
  | applied _ _ _ hbatch hm => exact h.applyAction hx hc hbatch hm
  | relayed _ _ _ hr hm => exact h.relayMoves hx hr hm
  | ended => exact h.withoutRelay
  | replied now r p _ hbatch hr hrep =>
    have hp : p ∈ r.replies := hrep ▸ mem_cons_self
    have htm : s.inTime now (.reply p) = true := by
      simpa [timely, hr, hrep] using hti
    refine (h.popReply hr hrep).move (hx.popReply hr hrep) hc
      (s.transition.step_move now (.reply p)) ⟨by simp, by simp, ?_, ?_⟩
    · intro hab
      refine ⟨hbatch, ?_⟩
      rw [inTime, show _ = _ from hab, hr] at htm
      exact htm
    · intro _ _ hi hs hacc _ htgt
      cases hi
      rw [ahead_popReply hr]
      exact h.settled_of_committed hc hr hp hs hacc htgt

end Restoring

/-! ## Restoration -/

theorem Restoring.init (h : system.init s) : Restoring s := by
  rcases h with rfl | ⟨_, hon, rfl⟩
  · exact {
      settled_ahead := fun _ heff => by cases heff
      untouched := by simp [startNative]
      untouched_queue := by simp [startNative, new]
      directed := by simp [line, sent, startNative, new]
      committed := by simp [startNative] }
  · exact {
      settled_ahead := fun _ _ => by
        simp [ahead, todo, holdings, settled, startHosted, new, hon]
      untouched := by simp [startHosted, Untouched, new, active]
      untouched_queue := by simp [startHosted, new]
      directed := by simp [line, sent, RelaySession.sent, startHosted, new]
      committed := by simp [startHosted] }

/-- **The invariant holds in every state a run of timely events reaches.** -/
theorem restoring_of_reachable
    (h : (system.restrict fun s e => s.timely e = true).Reachable s) : Restoring s := by
  induction h with
  | init hs => exact .init hs
  | step hr hsp ih =>
    obtain ⟨hc, hx⟩ := exclusive_of_reachable hr.of_restrict
    exact ih.step hx hc hsp.1 (step_move hsp.2)

/-- **An abandoned switch gives the connections back**, in every run of timely
events: a node at rest in hosted mode whose actions are carried out and whose
relay session lives has a relay whose connections are enabled – the setting
and every single one of them. -/
theorem relay_owns_at_rest {s : Handoff} {r : RelaySession}
    (h : (system.restrict fun s e => s.timely e = true).Reachable s)
    (hrest : s.transition.active = false) (heff : s.transition.status.effective = .hosted)
    (hbatch : s.batch = []) (hacts : s.transition.actions = []) (hr : s.relay = some r) :
    r.lease.derps.enabled = true ∧ ∀ d ∈ r.lease.derps.entries, d.enabled = true := by
  have htd : s.todo = [] := by rw [todo, hbatch, hacts]; rfl
  have hset := (restoring_of_reachable h).settled_ahead (calm_of_inactive hrest) heff
  rw [ahead_of_todo htd] at hset
  have hset : s.relay.all settled = true := hset
  rw [hr, Option.all_some, settled, Bool.and_eq_true, Bool.and_eq_true] at hset
  exact ⟨hset.1.1, fun d hd => (r.lease.derps.uniform d hd).trans hset.1.1⟩

def timelyStep (s : Handoff) (e : Event) : Option Handoff :=
  if s.timely e then s.step e else none

/-- A node that starts through a relay with one region and asks it to release
its connections, up to the point where the relay has. -/
def askingRelease : List Event :=
  [.tell 0 (.begin .native 7 [1] true), .takeActions, .applyAction 0, .relay (.applyMap 7),
    .tell 10 (.prepared 1 true), .tell 20 (.mapApplied 7), .takeActions, .applyAction 20,
    .deliverRequest 30, .deliverReply 40, .takeActions, .applyAction 40, .deliverRequest 50]

/-- The node hears of it, opens its own connections and is told to go back,
which it does with the relay's help. -/
def goingBack : List Event :=
  [.deliverReply 60, .takeActions, .applyAction 60, .tell 70 (.cancel .cancelled), .takeActions,
    .applyAction 70, .applyAction 70, .deliverRequest 80, .deliverReply 90, .takeActions,
    .applyAction 90, .deliverRequest 100, .relay (.link 1 true), .relay (.poll 110),
    .deliverReply 120, .takeActions, .applyAction 120, .applyAction 120, .deliverRequest 130,
    .deliverReply 140, .tell 540 .poll, .takeActions, .applyAction 540]

/-- The node is told to go back before it hears of it, and only hears of it
once it has given the switch up. -/
def goingBackTooEarly : List Event :=
  [.tell 60 (.cancel .cancelled), .takeActions, .applyAction 60, .deliverReply 70]

/-- A switch that is abandoned once the node has heard that the relay released
its connections gives them back. -/
theorem relay_owns_after_goingBack : ∃ s r, (askingRelease ++ goingBack).foldlM timelyStep
      (startHosted { entries := [⟨1, "derp.example.com", true, true⟩] }) = some s
    ∧ s.transition.status.phase = .failed ∧ s.relay = some r ∧ r.lease.derps.enabled = true := by
  have hrun : ((askingRelease ++ goingBack).foldlM timelyStep
      (startHosted { entries := [⟨1, "derp.example.com", true, true⟩] })).any
        (fun s => s.transition.status.phase == .failed
          && s.transition.status.effective == .hosted && s.batch.isEmpty
          && s.transition.actions.isEmpty && s.relay.isSome) = true := by decide
  obtain ⟨s, hs, hrs⟩ := (Option.any_eq_true _ _).mp hrun
  simp only [Bool.and_eq_true, beq_iff_eq, List.isEmpty_iff] at hrs
  obtain ⟨⟨⟨⟨hphase, heff⟩, hbatch⟩, has⟩, hso⟩ := hrs
  obtain ⟨r, hr⟩ := Option.isSome_iff_exists.mp hso
  have hsp (s : Handoff) (e : Event) (s' : Handoff) (h : s.timelyStep e = some s') :
      (system.restrict fun s e => s.timely e = true).step s e s' := by
    unfold timelyStep at h
    split at h
    · next ht => exact ⟨ht, h⟩
    · cases h
  have hre := TransitionSystem.Reachable.of_foldlM hsp (.init (.inr ⟨_, rfl, rfl⟩)) hs
  exact ⟨s, r, hs, hphase, hr,
    (relay_owns_at_rest hre (by simp [active, hphase]) heff hbatch has hr).1⟩

/-- A switch that is abandoned before the node has heard that the relay
released its connections does not: the node is at rest in hosted mode, nothing
is left to carry out or in flight, and the relay's connections are closed. -/
theorem relay_stranded_after_cancel : ∃ s r, system.Reachable s
    ∧ s.transition.status.phase = .failed ∧ s.transition.status.effective = .hosted
    ∧ s.batch = [] ∧ s.transition.actions = [] ∧ s.relay = some r ∧ r.requests = []
    ∧ r.replies = [] ∧ r.lease.derps.off := by
  have hrun : ((askingRelease ++ goingBackTooEarly).foldlM step
      (startHosted { entries := [⟨1, "derp.example.com", true, true⟩] })).any
        (fun s => s.transition.status.phase == .failed
          && s.transition.status.effective == .hosted && s.batch.isEmpty
          && s.transition.actions.isEmpty
          && s.relay.any fun r => r.requests.isEmpty && r.replies.isEmpty
            && !r.lease.derps.enabled) = true := by decide
  obtain ⟨s, hs, hrs⟩ := (Option.any_eq_true _ _).mp hrun
  simp only [Bool.and_eq_true, beq_iff_eq, List.isEmpty_iff] at hrs
  obtain ⟨⟨⟨⟨hphase, heff⟩, hbatch⟩, has⟩, hrelay⟩ := hrs
  obtain ⟨r, hr, hoff⟩ := (Option.any_eq_true _ _).mp hrelay
  simp only [Bool.and_eq_true, List.isEmpty_iff, Bool.not_eq_true'] at hoff
  have hre : system.Reachable s :=
    .of_foldlM (fun _ _ _ h => h) (.init (.inr ⟨_, rfl, rfl⟩)) hs
  exact ⟨s, r, hre, hphase, heff, hbatch, has, hr, hoff.1.1, hoff.1.2,
    (DerpConnections.off_iff _).mpr hoff.2⟩

end Handoff

end Tailgate
