import Tailgate.Handoff

/-!
# The DERP connections are never open on both sides

Two DERP connections under one key take each other's place endlessly, so the
node and its relay must never have theirs enabled at the same time. The
invariant is about what they hold now and what they will hold once everything
queued is carried out: `Holdings` is that summary, `carry` what an action does
to it, and the queue is followed with the rules of `QueuedEffects`.
-/

namespace Tailgate

open TransitionCoordinator QueuedEffects List Bool Option

/-! ## What the two sides hold -/

structure Holdings where
  native : Bool
  /-- The relay's connections are closed and nothing on its way to it opens
  them. -/
  quiet : Bool
  /-- The relay's connections are open, if there is a session, and nothing
  under way closes them. -/
  settled : Bool

namespace Holdings

def carry (h : Holdings) (a : TransitionAction) : Holdings :=
  match a.kind with
  | .prepareNative => { h with native := false }
  | .suspendNative => { h with native := false }
  | .retireNative => { h with native := false }
  | .activateNative => { h with native := true }
  | .activateHosted => { h with quiet := false }
  | .retireHosted => { h with quiet := true, settled := true }
  | .delegation =>
    match a.delegation.map DelegationRequest.action with
    | some .acquire => { h with quiet := false, settled := false }
    | some .release => { h with settled := false }
    | _ => h
  | _ => h

@[simp]
theorem carry_asking_native (h : Holdings) (c : TransitionCoordinator) (a : DelegationAction) :
    (h.carry (c.asking a)).native = h.native := by
  cases a <;> rfl

theorem carry_native (h : Holdings) (a : TransitionAction) :
    (h.carry a).native = Handoff.nativeAfter h.native a.kind := by
  unfold carry
  cases a.kind with
  | delegation => dsimp only; split <;> rfl
  | _ => rfl

variable {h : Holdings} {a : TransitionAction} {h' : Holdings} {as : List TransitionAction}

theorem carry_quiet (hstart : a.kind ≠ .activateHosted)
    (hretire : a.kind ≠ .retireHosted) (hsend : a.kind ≠ .delegation) :
    (h.carry a).quiet = h.quiet := by
  unfold carry
  cases hkind : a.kind with
  | activateHosted => exact absurd hkind hstart
  | retireHosted => exact absurd hkind hretire
  | delegation => exact absurd hkind hsend
  | _ => rfl

theorem carry_settled (hretire : a.kind ≠ .retireHosted)
    (hsend : a.kind ≠ .delegation) : (h.carry a).settled = h.settled := by
  unfold carry
  cases hkind : a.kind with
  | retireHosted => exact absurd hkind hretire
  | delegation => exact absurd hkind hsend
  | _ => rfl

def Safe (h : Holdings) : Prop := h.native = true → h.quiet = true

theorem safe_of_native (hn : h.native = false) : h.Safe :=
  fun hn' => absurd (hn.symm.trans hn') Bool.false_ne_true

structure Within (h h' : Holdings) : Prop where
  /-- The node's own connections are as they were. -/
  native_eq : h'.native = h.native
  quiet : h.quiet = true → h'.quiet = true
  /-- A settled relay is still settled. -/
  settled : h.settled = true → h'.settled = true

theorem Within.refl (h : Holdings) : h.Within h := ⟨rfl, id, id⟩

theorem Within.carry (hw : h.Within h') (a : TransitionAction) :
    (h.carry a).Within (h'.carry a) := by
  obtain ⟨hn, hq, hs⟩ := hw
  unfold Holdings.carry
  cases a.kind with
  | activateHosted => exact ⟨hn, id, hs⟩
  | retireHosted => exact ⟨hn, id, id⟩
  | delegation =>
    dsimp only
    split
    · exact ⟨hn, id, id⟩
    · exact ⟨hn, hq, id⟩
    · exact ⟨hn, hq, hs⟩
  | _ => first
    | exact ⟨hn, hq, hs⟩
    | exact ⟨rfl, hq, hs⟩

theorem Within.safe (hw : h.Within h') (hs : h.Safe) : h'.Safe :=
  fun hn => hw.quiet (hs (hw.native_eq ▸ hn))

theorem settled_foldl (hs : h.settled = true)
    (hd : delegations as = []) : (as.foldl carry h).settled = true := by
  refine foldlRecOn (motive := (·.settled = true)) as carry hs fun h hs a ha => ?_
  have hda := filterMap_eq_nil_iff.mp hd a ha
  unfold carry
  cases hkind : a.kind with
  | delegation => simp [hda, hs]
  | retireHosted => rfl
  | _ => exact hs

/-- A relay that is quiet stays so under actions that neither start a session
nor send a request. -/
theorem quiet_foldl (hq : h.quiet = true)
    (hk : ∀ a ∈ as, a.kind ≠ .activateHosted) (hd : delegations as = []) :
    (as.foldl carry h).quiet = true := by
  refine foldlRecOn (motive := (·.quiet = true)) as carry hq fun h hq a ha => ?_
  have hda := filterMap_eq_nil_iff.mp hd a ha
  unfold carry
  cases hkind : a.kind with
  | activateHosted => exact absurd hkind (hk a ha)
  | delegation => simp [hda, hq]
  | retireHosted => rfl
  | _ => exact hq

end Holdings

/-- The relay's connections are closed and no request on its way opens them. -/
def RelaySession.quiet (r : RelaySession) : Bool :=
  !r.lease.derps.enabled && r.requests.all fun q => q.action != .acquire

/-- The relay's connections are open, no lease can close them, and no request
on its way asks for a change. -/
def RelaySession.settled (r : RelaySession) : Bool :=
  r.lease.derps.enabled && !r.lease.changedOwnership
    && r.requests.all fun q => q.action == .prepare || q.action == .commit

/-- The requests a session has seen: the one accepted last and those on their
way. -/
def RelaySession.sent (r : RelaySession) : List DelegationRequest :=
  r.lease.request.toList ++ r.requests

namespace Handoff

open Holdings

variable (s : Handoff)

def holdings : Holdings where
  native := s.nativeDerp
  quiet := s.relay.all RelaySession.quiet
  settled := s.relay.all RelaySession.settled

/-- The actions that are left to carry out: those of the current
generation. -/
def todo : List TransitionAction :=
  (s.batch ++ s.transition.actions).filter fun a => a.generation == s.transition.status.generation

def ahead : Holdings := s.todo.foldl carry s.holdings

def sent : List DelegationRequest := s.relay.toList.flatMap RelaySession.sent

def line : List DelegationRequest :=
  s.sent ++ delegations (s.batch ++ s.transition.actions)

def replies : List DelegationReply :=
  s.relay.toList.flatMap RelaySession.replies

/-- The phases in which the node's own connections have been suspended and
not been enabled again. -/
def suspends (c : TransitionCoordinator) : Prop :=
  c.status.phase = .preparing ∧ c.status.desired = .native ∨ c.status.phase = .awaitingMap
    ∨ c.status.phase = .preparingDelegation ∨ c.status.phase = .releasing

/-- The messages are in order: identifiers increase along the line, and
everything in flight was made by the coordinator so far. -/
structure Ordered (s : Handoff) : Prop where
  increasing : s.line.Pairwise fun q r => q.requestId < r.requestId
  /-- The coordinator has made the requests. -/
  line_le : ∀ q ∈ s.line, q.requestId ≤ s.transition.requestId
    ∧ q.generation ≤ s.transition.status.generation
  /-- The replies answer requests it has made. -/
  replies_le : ∀ p ∈ s.replies, p.requestId ≤ s.transition.requestId
    ∧ p.generation ≤ s.transition.status.generation

/-- **The invariant behind exclusion.** -/
structure Exclusive (s : Handoff) : Prop where
  /-- The lease's invariant; what it has said is on its way. -/
  lease : ∀ r, s.relay = some r → r.lease.Coherent ∧ r.lease.output = []
  /-- A session that is ready to start has its connections enabled. -/
  ready : ∀ derps, s.preparedRelay = some derps → derps.enabled = true
  /-- Actions belong to generations so far. -/
  generation_le : ∀ a ∈ s.batch ++ s.transition.actions,
    a.generation ≤ s.transition.status.generation
  /-- Carrying out what is queued is safe at every point. -/
  safe : Through Holdings.Safe .carry s.holdings s.todo
  /-- A handoff starts with the node's own connections suspended. -/
  native_ahead : suspends s.transition → s.ahead.native = false
  /-- A relay lost while native is prepared will be quiet. -/
  quiet_ahead : s.transition.status.phase = .preparing → s.transition.status.desired = .native →
    s.transition.relayAvailable = false → s.ahead.quiet = true
  /-- A session is only started on the way to hosted. -/
  activate_target : ∀ a ∈ s.todo, a.kind = .activateHosted → s.transition.target = .hosted
  ordered : Ordered s
  /-- While the last request has been answered *released*, the relay has let
  go and has been asked nothing since. -/
  released : ∀ r, s.relay = some r → ∀ p ∈ r.replies, p.status = .released →
    p.requestId = s.transition.requestId → r.lease.derps.enabled = false ∧ r.requests = []
      ∧ delegations (s.batch ++ s.transition.actions) = []

/-! ## What the coordinator decides -/

section Decisions

variable {s : Handoff} {c' : TransitionCoordinator} {pushed : List TransitionAction}

theorem Ordered.decide (h : Ordered s) (hl : Ledger s.transition c')
    (hgen : s.transition.status.generation ≤ c'.status.generation) :
    Ordered { s with transition := c' } := by
  have hsub {l l' : List DelegationRequest} (hl : l = l' ∨ l = []) : l.Sublist l' := by
    rcases hl with rfl | rfl
    · exact .refl _
    · exact nil_sublist _
  have hln : s.line = s.sent ++ delegations s.batch ++ delegations s.transition.actions := by
    rw [line, delegations_append, append_assoc]
  have hln' : line { s with transition := c' }
      = s.sent ++ delegations s.batch ++ delegations c'.actions := by
    show s.sent ++ delegations (s.batch ++ c'.actions) = _
    rw [delegations_append, append_assoc]
  have hle {q : DelegationRequest} (hq : q ∈ s.line) (hid : s.transition.requestId ≤ c'.requestId) :
      q.requestId ≤ c'.requestId ∧ q.generation ≤ c'.status.generation :=
    ⟨(h.line_le q hq).1.trans hid, (h.line_le q hq).2.trans hgen⟩
  cases hl with
  | silent hid hdel =>
    have hs : (line { s with transition := c' }).Sublist s.line := by
      rw [hln, hln']
      exact (hsub hdel).append_left _
    refine ⟨h.increasing.sublist hs, fun q hq => hle (hs.subset hq) hid.ge, fun p hp => ?_⟩
    exact ⟨(h.replies_le p hp).1.trans hid.ge, (h.replies_le p hp).2.trans hgen⟩
  | asks r hid hrid hrg _ _ hdel =>
    -- the new request comes after a sublist of the line
    obtain ⟨l, hs, hl⟩ : ∃ l, l.Sublist s.line ∧ line { s with transition := c' } = l ++ [r] := by
      rcases hdel with hdel | hdel
      · refine ⟨s.line, .refl _, ?_⟩
        rw [hln', hdel, hln, append_assoc _ _ [r]]
      · refine ⟨s.sent ++ delegations s.batch, ?_, by rw [hln', hdel]⟩
        rw [hln]
        exact sublist_append_left _ _
    have hlt {q : DelegationRequest} (hq : q ∈ l) : q.requestId < r.requestId := by
      rw [hrid]
      exact Nat.lt_succ_of_le (h.line_le q (hs.subset hq)).1
    refine ⟨?_, fun q hq => ?_, fun p hp => ?_⟩
    · rw [hl]
      refine pairwise_append.mpr ⟨h.increasing.sublist hs, pairwise_singleton _ _, ?_⟩
      intro _ hq _ hq'
      rw [mem_singleton.mp hq']
      exact hlt hq
    · rw [hl, mem_append, mem_singleton] at hq
      rcases hq with hq | rfl
      · exact hle (hs.subset hq) (hid ▸ Nat.le_succ _)
      · exact ⟨(hrid.trans hid.symm).le, hrg.le⟩
    · obtain ⟨hp₁, hp₂⟩ := h.replies_le p hp
      exact ⟨hp₁.trans (hid ▸ Nat.le_succ _), hp₂.trans hgen⟩

/-- What the coordinator decides leaves a release that was answered alone, or
makes a newer request. -/
theorem Exclusive.released_decide (h : Exclusive s) (hl : Ledger s.transition c') :
    ∀ r, s.relay = some r → ∀ p ∈ r.replies, p.status = .released →
      p.requestId = c'.requestId → r.lease.derps.enabled = false ∧ r.requests = []
        ∧ delegations (s.batch ++ c'.actions) = [] := by
  intro r hr p hp hs hid
  cases hl with
  | silent hid' hdel =>
    obtain ⟨hoff, hreq, hno⟩ := h.released r hr p hp hs (hid.trans hid')
    rw [delegations_append, append_eq_nil_iff] at hno
    refine ⟨hoff, hreq, ?_⟩
    rw [delegations_append, hno.1, nil_append]
    rcases hdel with hdel | hdel
    · rw [hdel, hno.2]
    · exact hdel
  | asks =>
    have hmem : p ∈ s.replies := by simp [replies, hr, hp]
    have := (h.ordered.replies_le p hmem).1
    omega

theorem todo_push (hq : Pushes s.transition c' pushed) :
    todo { s with transition := c' } = s.todo ++ pushed :=
  due_push hq

theorem ahead_push (hq : Pushes s.transition c' pushed) :
    ahead { s with transition := c' } = pushed.foldl .carry s.ahead := by
  rw [ahead, todo_push hq, foldl_append]
  rfl

section

variable (hle : ∀ a ∈ s.batch ++ s.transition.actions,
  a.generation ≤ s.transition.status.generation) (hq : Renews s.transition c' pushed)
include hle hq

theorem todo_renew : todo { s with transition := c' } = pushed :=
  due_renew hle hq

theorem ahead_renew : ahead { s with transition := c' } = pushed.foldl .carry s.holdings := by
  rw [ahead, todo_renew hle hq]
  rfl

end

theorem todo_clear (hq : Clears s.transition c' pushed) : todo { s with transition := c' }
      = s.batch.filter (fun a => a.generation == s.transition.status.generation) ++ pushed :=
  due_clear hq

namespace Exclusive

theorem push (h : Exclusive s) (hl : Ledger s.transition c') (hq : Pushes s.transition c' pushed)
    (hsf : Through Holdings.Safe .carry s.ahead pushed)
    (hact : ∀ a ∈ pushed, a.kind = .activateHosted → c'.target = .hosted := by simp)
    (hnt : suspends c' → (pushed.foldl .carry s.ahead).native = false := by simp [suspends])
    (hqt : c'.status.phase = .preparing → c'.status.desired = .native →
      c'.relayAvailable = false → (pushed.foldl .carry s.ahead).quiet = true := by simp)
    (htgt : c'.target = s.transition.target := by rfl) :
    Exclusive { s with transition := c' } := by
  have htd := todo_push hq
  have hah := ahead_push hq
  refine { h with
    generation_le := generation_le_of h.generation_le hq.1.ge (.inl hq.2) hq.3
    safe := by rw [htd]; exact through_append.mpr ⟨h.safe, hsf⟩
    native_ahead := by rw [hah]; exact hnt
    quiet_ahead := by rw [hah]; exact hqt
    activate_target := fun a ha hk => ?_
    ordered := h.ordered.decide hl hq.1.ge
    released := h.released_decide hl }
  rw [htd, mem_append] at ha
  rcases ha with ha | ha
  · exact htgt.trans (h.activate_target a ha hk)
  · exact hact a ha hk

theorem renew (h : Exclusive s) (hl : Ledger s.transition c') (hq : Renews s.transition c' pushed)
    (hsf : Through Holdings.Safe .carry s.holdings pushed)
    (hact : ∀ a ∈ pushed, a.kind ≠ .activateHosted := by simp)
    (hnt : suspends c' → (pushed.foldl .carry s.holdings).native = false := by simp [suspends])
    (hqt : c'.status.phase = .preparing → c'.status.desired = .native →
      c'.relayAvailable = true := by simp) :
    Exclusive { s with transition := c' } := by
  have htd := todo_renew h.generation_le hq
  have hah := ahead_renew h.generation_le hq
  exact { h with
    generation_le := generation_le_of h.generation_le hq.1.le hq.2 hq.3
    safe := by rw [htd]; exact hsf
    native_ahead := by rw [hah]; exact hnt
    quiet_ahead := fun hph hd hrel => by cases hrel.symm.trans (hqt hph hd)
    activate_target := fun a ha hk => absurd hk (hact a (htd ▸ ha))
    ordered := h.ordered.decide hl hq.1.le
    released := h.released_decide hl }

theorem giveUp (h : Exclusive s) (hl : Ledger s.transition c') (hq : Clears s.transition c' pushed)
    (htgt : c'.target = s.transition.target)
    (hact : ∀ a ∈ pushed, a.kind ≠ .activateHosted)
    (hsf : ∀ held : Holdings, held.Safe → Through Holdings.Safe .carry held pushed)
    (hrs : c'.active = false) : Exclusive { s with transition := c' } := by
  have htd := todo_clear hq
  have hbe : s.todo = _ := filter_append ..
  have hkp := (through_append.mp (hbe ▸ h.safe)).1
  have hphase {p : TransitionPhase} (hph : c'.status.phase = p) (hi : p ≠ .idle)
      (hf : p ≠ .failed) : False := by
    rw [active_of_phase hph hi hf] at hrs
    cases hrs
  refine { h with
    generation_le := generation_le_of h.generation_le hq.1.ge (.inr hq.2) hq.3
    safe := by rw [htd]; exact through_append.mpr ⟨hkp, hsf _ hkp.last⟩
    native_ahead := ?_
    quiet_ahead := fun hph => (hphase hph (by decide) (by decide)).elim
    activate_target := fun a ha hk => ?_
    ordered := h.ordered.decide hl hq.1.ge
    released := h.released_decide hl }
  · rintro (⟨hph, -⟩ | hph | hph | hph)
    all_goals exact (hphase hph (by decide) (by decide)).elim
  · rw [htd, mem_append] at ha
    rcases ha with ha | ha
    · exact htgt.trans (h.activate_target a (hbe ▸ mem_append_left _ ha) hk)
    · exact absurd hk (hact a ha)

variable {now : ℕ}

/-- The coordinator makes a request, with the node's own connections
suspended or asking for no acquisition. -/
theorem pushRequest {c₁ : TransitionCoordinator} {a : DelegationAction}
    (h : Exclusive s) (hl : Ledger s.transition (c₁.request now a))
    (hq : Pushes s.transition c₁ pushed)
    (hsf : Through Holdings.Safe .carry s.ahead pushed)
    (hnt : suspends c₁ ∨ a = .acquire → (pushed.foldl .carry s.ahead).native = false)
    (hact : ∀ a ∈ pushed, a.kind = .activateHosted → c₁.target = .hosted := by simp)
    (hphase : c₁.status.phase ≠ .preparing := by simp)
    (htgt : c₁.target = s.transition.target := by rfl) :
    Exclusive { s with transition := c₁.request now a } := by
  have has' : (c₁.request now a).actions = s.transition.actions ++ (pushed ++ [c₁.asking a]) := by
    rw [request_actions, hq.actions_eq, append_assoc]
  refine h.push hl ⟨hq.generation_eq, has', ?_⟩ (through_append.mpr ⟨hsf, hsf.last, ?_⟩)
    ?_ ?_ (fun hph => absurd hph hphase) htgt
  · exact forall_mem_append.mpr ⟨hq.of_generation, forall_mem_singleton.mpr rfl⟩
  · cases a with
    | acquire => exact safe_of_native (hnt (.inr rfl))
    | _ => exact hsf.last
  · exact forall_mem_append.mpr ⟨hact, forall_mem_singleton.mpr (by simp)⟩
  · intro hsus
    rw [foldl_append, foldl_cons, foldl_nil, carry_asking_native]
    exact hnt (.inl hsus)

theorem commitSelection {sel : NodeMode} (h : Exclusive s)
    (hl : Ledger s.transition (s.transition.commitSelection now sel)) :
    Exclusive { s with transition := s.transition.commitSelection now sel } := by
  have hth : s.ahead.Safe := h.safe.last
  unfold TransitionCoordinator.commitSelection at hl ⊢
  cases hrel : s.transition.relayAvailable with
  | true =>
    simp only [action, hrel, Bool.not_true, Bool.false_eq_true, if_false] at hl ⊢
    refine h.pushRequest hl ⟨rfl, rfl, by simp⟩ ?_ (by simp [suspends]) ?_
    · cases sel <;> exact ⟨hth, hth⟩
    · cases sel <;> simp
  | false =>
    simp only [action, hrel, Bool.not_false, if_true] at hl ⊢
    refine h.push hl ⟨rfl, rfl, by simp⟩ ?_ ?_
    · cases sel <;> exact ⟨hth, hth⟩
    · cases sel <;> simp

theorem rollback (h : Exclusive s) (hm : RollbackMove s.transition now c') :
    Exclusive { s with transition := c' } := by
  have hl := hm.ledger
  have hnow := h.safe.head
  cases hm with
  | again =>
    refine h.giveUp hl ⟨rfl, rfl, by simp⟩ rfl ?_ (fun held hsf => ?_) rfl
    · cases s.transition.original <;> simp
    · cases s.transition.original <;> simp [carry, Holdings.Safe] <;> exact hsf
  | unowned =>
    refine h.giveUp hl ⟨rfl, rfl, by simp⟩ rfl ?_ (fun held hsf => ?_) rfl
    · cases s.transition.status.desired <;> simp
    · cases s.transition.status.desired <;> simp [carry, Holdings.Safe] <;> exact hsf
  | lostHosted | lostNative =>
    refine h.renew hl ⟨Nat.lt_succ_self _, .inr rfl, by simp⟩ ?_
    simpa [carry, Holdings.Safe] using hnow
  | negotiate =>
    refine h.renew hl ⟨Nat.lt_succ_self _, .inr rfl, ?_⟩ ?_ ?_ (fun _ => ?_) ?_
    · simp [prepareDelegation, request]
    · simpa [prepareDelegation, request, carry, Holdings.Safe] using hnow
    · simp [prepareDelegation, request]
    · simp [prepareDelegation, request, carry]
    · simp [prepareDelegation, request]

/-- **What the coordinator decides is safe**, if it hears that the relay has
released only when the relay will be quiet. -/
theorem move {i : Input} (h : Exclusive s) (hc : Coherent s.transition)
    (hm : Move s.transition now i c')
    (hrl : ∀ p req, i = .reply p → p.status = .released →
      s.transition.accepts p = true → s.transition.pending = some req →
      req.action = .release → s.ahead.quiet = true) :
    Exclusive { s with transition := c' } := by
  have hl := hm.ledger
  have hnow := h.safe.head
  have hth : s.ahead.Safe := h.safe.last
  cases hm with
  | stay => exact h
  | beginRefused | beginSame =>
    exact h.renew hl ⟨Nat.lt_succ_self _, .inl (append_nil _).symm, by simp⟩ hnow
  | beginStart want =>
    refine h.renew hl ⟨Nat.lt_succ_self _, .inl rfl, by simp⟩ ?_ ?_ ?_ (fun _ _ => rfl)
    · cases want <;> simp [carry, Holdings.Safe] <;> exact hnow
    · cases want <;> simp
    · cases want <;> simp [suspends, carry]
  | preparedAlone _ hphase hd hrel =>
    have hqt := h.quiet_ahead hphase hd hrel
    refine h.push hl ⟨rfl, rfl, by simp⟩ ?_
    simp [carry, Holdings.Safe, hqt]
  | preparedAwait _ hphase hcand =>
    cases hcand with
    | native hd =>
      refine h.push hl ⟨rfl, rfl, by simp⟩ hth (by simp) (fun _ => ?_) (by simp [awaitMap])
      exact h.native_ahead (.inl ⟨hphase, hd⟩)
    | hosted hd =>
      have htgt : s.transition.target = .hosted := by
        simp [target, (hc.preparing hphase).1, hd]
      refine h.push hl ⟨rfl, rfl, by simp [awaitMap]⟩ ?_ (fun _ _ _ => htgt) (fun _ => ?_)
        (by simp [awaitMap])
      · simpa [carry, Holdings.Safe] using hth
      · simp [carry]
  | preparedDelegate _ hphase hcand =>
    cases hcand with
    | native hd =>
      refine h.pushRequest hl ⟨rfl, rfl, by simp⟩ hth (fun _ => ?_)
      exact h.native_ahead (.inl ⟨hphase, hd⟩)
    | hosted hd =>
      have htgt : s.transition.target = .hosted := by
        simp [target, (hc.preparing hphase).1, hd]
      refine h.pushRequest hl ⟨rfl, rfl, by simp [awaitMap]⟩ ?_ (fun _ => ?_) fun _ _ _ => htgt
      · simpa [carry, Holdings.Safe] using hth
      · simp [carry]
  | mapRecorded | mapNoted =>
    exact h.push hl (.nil rfl rfl) hth (by simp) h.native_ahead h.quiet_ahead
  | mapAwaited _ hphase =>
    refine h.pushRequest hl (.nil rfl rfl) hth (fun _ => ?_)
    exact h.native_ahead (.inr (.inl hphase))
  | mapRestarts =>
    refine h.renew hl ⟨Nat.lt_succ_self _, .inr rfl, by simp⟩ ?_ (by simp) (fun _ => ?_)
    · simpa [carry, Holdings.Safe] using hnow
    · simp [carry]
  | aborted =>
    exact h.renew hl ⟨Nat.lt_succ_self _, .inr rfl, by simp⟩ hnow
  | replyPrepared _ _ _ hpend hact =>
    have hphase := hc.phase_of_pending hpend hact
    refine h.pushRequest hl (.nil rfl rfl) hth (fun _ => ?_) (by simp) ?_
    · exact h.native_ahead (.inr (.inr (.inl hphase)))
    · cases s.transition.target <;> simp
  | replyReleased reply p hacc hpend hact hst =>
    have hqt := hrl reply p rfl hst hacc hpend hact
    refine h.push hl ⟨rfl, rfl, by simp⟩ ?_
    simp [carry, Holdings.Safe, hqt]
  | replyReady | nativeReady => exact h.commitSelection hl
  | replyCommitted =>
    exact h.push hl (.nil rfl rfl) hth
  | relayLostIdle hact =>
    refine h.push hl (.nil rfl rfl) hth (by simp) h.native_ahead ?_
    intro (hph : s.transition.status.phase = _)
    rw [active_of_phase hph] at hact
    cases hact
  | relayLostPreparing =>
    refine h.push hl ⟨rfl, rfl, by simp⟩ ?_ (by simp) ?_ ?_
    · simpa [carry, Holdings.Safe] using hth
    · exact fun hsus => by simpa [carry] using h.native_ahead hsus
    · simp [carry]
  | relayLostSwitching =>
    refine h.push hl ⟨rfl, rfl, by simp⟩ ?_
    simpa [carry, Holdings.Safe] using hth
  | relayLostRollback hroll hm =>
    have h₁ : Exclusive { s with transition := { s.transition with relayAvailable := false } } := by
      refine h.push (.silent rfl (.inl rfl)) (.nil rfl rfl) hth (by simp) h.native_ahead ?_
      intro (hph : s.transition.status.phase = _) (hd : s.transition.status.desired = _)
      simp [rollsBack, hph, hd] at hroll
    exact h₁.rollback hm
  | rolledBack _ _ _ _ hm => exact h.rollback hm
  | drained =>
    have hrs := s.transition.active_finish
    refine h.push hl ⟨rfl, rfl, by simp [finish, action]⟩ ?_ ?_ ?_ ?_
    · cases s.transition.status.effective <;> simp [carry, Holdings.Safe] <;> exact hth
    · cases s.transition.status.effective <;> simp
    · rintro (⟨hph, -⟩ | hph | hph | hph)
      all_goals
        rw [active_of_phase hph] at hrs
        cases hrs
    · intro hph
      rw [active_of_phase hph] at hrs
      cases hrs

end Exclusive

end Decisions

/-! ## What the relay does -/

end Handoff

namespace RelaySession.Move

variable {r r' : RelaySession}

theorem quiet (h : r.Move r') (hq : r.quiet = true) : r'.quiet = true := by
  simp only [RelaySession.quiet, and_eq_true, not_eq_true'] at hq
  refine and_eq_true_iff.mpr ?_
  rw [not_eq_true']
  cases h with
  | quietly _ _ _ _ hen => exact ⟨hen.trans hq.1, hq.2⟩
  | polled _ l h =>
    refine ⟨?_, hq.2⟩
    cases hon : l.derps.enabled with
    | false => exact hon
    | true => exact absurd (h.enabled_of_enabled hon) (by rw [hq.1]; decide)
  | answered _ request _ l hreq h =>
    rw [hreq, all_cons, and_eq_true, bne_iff_ne] at hq
    refine ⟨?_, hq.2.2⟩
    show l.derps.enabled = false
    cases h with
    | prepared =>
      cases r.lease.supersedes request <;> simp [DelegationLease.answered, hq.1]
    | released => rfl
    | acquired _ hact => exact absurd hact hq.2.1
    | _ => exact hq.1

/-- Nothing the relay does by itself closes connections that no lease is
about. -/
theorem settled (h : r.Move r') (hs : r.settled = true) : r'.settled = true := by
  simp only [RelaySession.settled, and_eq_true, not_eq_true'] at hs
  obtain ⟨⟨hon, hch⟩, hrq⟩ := hs
  refine and_eq_true_iff.mpr ?_
  rw [and_eq_true, not_eq_true']
  cases h with
  | quietly _ _ _ hch' hen => exact ⟨⟨hen.trans hon, hch'.trans hch⟩, hrq⟩
  | polled _ _ h =>
    cases h with
    | stay | ready => exact ⟨⟨hon, hch⟩, hrq⟩
    | expired =>
      refine ⟨⟨?_, hch⟩, hrq⟩
      rw [hch, if_neg Bool.false_ne_true]
      exact hon
  | answered _ request _ l hreq h =>
    rw [hreq, all_cons, and_eq_true, or_eq_true, beq_iff_eq, beq_iff_eq] at hrq
    refine ⟨?_, hrq.2⟩
    show l.derps.enabled = true ∧ l.changedOwnership = false
    cases h with
    | replayed | refused => exact ⟨hon, hch⟩
    | prepared =>
      -- a handoff that has not touched ownership is not superseded
      have hsup : r.lease.supersedes request = false := by
        unfold DelegationLease.supersedes
        split
        · rfl
        · rw [hch, Bool.and_false]
      simp [DelegationLease.answered, hsup, hon]
    | released _ hact | acquired _ hact => rw [hact] at hrq; simp at hrq
    | committed => exact ⟨hon, rfl⟩

theorem lease (h : r.Move r') (hl : r.lease.Coherent) :
    r'.lease.Coherent ∧ r'.lease.output = [] := by
  cases h with
  | quietly _ hreq hrep hch hen => exact ⟨hl.congr hreq hrep hch hen, rfl⟩
  | polled _ _ h => exact ⟨(hl.pollMove h).congr rfl rfl rfl rfl, rfl⟩
  | answered _ _ _ _ _ h => exact ⟨(hl.answerMove h).congr rfl rfl rfl rfl, rfl⟩

theorem requests_eq_nil (h : r.Move r') (hreq : r.requests = []) : r'.requests = [] := by
  cases h with
  | answered _ _ _ _ hrq' => rw [hreq] at hrq'; cases hrq'
  | _ => exact hreq

theorem sent (h : r.Move r') : r'.sent.Sublist r.sent := by
  cases h with
  | quietly l hreq =>
    show (l.request.toList ++ r.requests).Sublist _
    rw [hreq]
    exact .refl _
  | polled _ l h =>
    show (l.request.toList ++ r.requests).Sublist _
    rw [h.request_eq]
    exact .refl _
  | answered _ req rest l hreq h =>
    show (l.request.toList ++ rest).Sublist (r.lease.request.toList ++ r.requests)
    rw [hreq]
    have hke : (r.lease.request.toList ++ rest).Sublist (r.lease.request.toList ++ req :: rest) :=
      (sublist_cons_self _ _).append_left _
    have htk : (req :: rest).Sublist (r.lease.request.toList ++ req :: rest) :=
      sublist_append_right _ _
    cases h with
    | replayed | refused => exact hke
    | _ => exact htk

/-- **What the relay says.** A reply that is new answers a request it was
sent; it says *released* or *committed* only to the next request on its way,
and *released* of connections that are closed. -/
theorem said (h : r.Move r') (hl : r.lease.Coherent) (hout : r.lease.output = [])
    {p : DelegationReply} (hp : p ∈ r'.replies) : p ∈ r.replies
      ∨ (∃ q ∈ r.sent, p.Answers q) ∧ (p.status = .released ∨ p.status = .committed →
        ∃ now req rest, ∃ l : DelegationLease, r.requests = req :: rest
          ∧ r.lease.AnswerMove now req l ∧ p ∈ l.output ∧ p.Answers req
          ∧ r' = .update { r with requests := rest } l
          ∧ (p.status = .released → r'.lease.derps.enabled = false)) := by
  cases h with
  | quietly l _ _ _ _ hot' =>
    have hp : p ∈ r.replies ++ l.output := hp
    rw [hot', hout, append_nil] at hp
    exact .inl hp
  | polled _ l h =>
    refine (mem_append.mp (show p ∈ r.replies ++ l.output from hp)).imp id fun hp => ?_
    -- a poll says at most that the lease has expired or that it is ready
    cases h with
    | stay => rw [hout] at hp; cases hp
    | expired req _ hreq | ready req _ hreq =>
      rw [hout, nil_append, mem_singleton] at hp
      rw [hp]
      exact ⟨⟨req, by simp [RelaySession.sent, hreq], ⟨rfl, rfl, rfl⟩⟩,
        by simp [DelegationRequest.answer]⟩
  | answered now req rest l hreq h =>
    refine (mem_append.mp (show p ∈ r.replies ++ l.output from hp)).imp id fun hp => ?_
    obtain ⟨hans, hoff⟩ := h.said hl hout p hp
    exact ⟨⟨req, by simp [RelaySession.sent, hreq], hans⟩,
      fun _ => ⟨now, req, rest, l, hreq, h, hp, hans, rfl, hoff⟩⟩

end RelaySession.Move

namespace Handoff

open RelaySession

/-! ## What the world does -/

variable {s s' : Handoff} {r : RelaySession} {a : TransitionAction}

/-- The messages in flight only become fewer, or are replies to requests
made. -/
theorem Ordered.shrink (h : Ordered s) (hid : s'.transition.requestId = s.transition.requestId)
    (hgen : s'.transition.status.generation = s.transition.status.generation)
    (hln : s'.line.Sublist s.line)
    (hrp : ∀ p ∈ s'.replies, p ∈ s.replies ∨ ∃ q ∈ s.line, p.Answers q) : Ordered s' := by
  refine ⟨h.increasing.sublist hln, ?_, ?_⟩
  · intro q hq
    rw [hid, hgen]
    exact h.line_le q (hln.subset hq)
  · intro p hp
    rw [hid, hgen]
    rcases hrp p hp with hp | ⟨q, hq, hans⟩
    · exact h.replies_le p hp
    · rw [hans.1, hans.2.1]
      exact h.line_le q hq

/-- What comes off the queue, or a move of the relay, takes the two sides where
they were going. -/
theorem ahead_within (carried : List TransitionAction) (htd : s.todo = carried ++ s'.todo)
    (hw : (carried.foldl .carry s.holdings).Within s'.holdings) :
    s.ahead.Within s'.ahead := by
  rw [ahead, htd, foldl_append]
  exact foldl_related (fun _ _ a hw => hw.carry a) hw

theorem holdings_within {r' : RelaySession} (hr : s.relay = some r)
    (hm : r.Move r') : s.holdings.Within (holdings { s with relay := some r' }) := by
  refine ⟨rfl, ?_, ?_⟩
  · simpa [holdings, hr] using hm.quiet
  · simpa [holdings, hr] using hm.settled

theorem holdings_popReply {rest : List DelegationReply} (hr : s.relay = some r) :
    holdings { s with relay := some { r with replies := rest } } = s.holdings := by
  simp only [holdings, hr]
  rfl

theorem ahead_popReply {rest : List DelegationReply} (hr : s.relay = some r) :
    ahead { s with relay := some { r with replies := rest } } = s.ahead := by
  rw [ahead, holdings_popReply hr]
  rfl

/-- **What carrying out an action does to the two sides.** -/
theorem ApplyMove.within {now : ℕ} (h : ApplyMove s now a s')
    (hry : ∀ derps, s.preparedRelay = some derps → derps.enabled = true) :
    (if a.generation = s.transition.status.generation then s.holdings.carry a
      else s.holdings).Within s'.holdings := by
  have hnt (hgen : a.generation = s.transition.status.generation)
      (hkind : nativeAfter s.nativeDerp a.kind = s.nativeDerp) :
      s.nativeDerp = (s.holdings.carry a).native := by
    rw [Holdings.carry_native]
    exact hkind.symm
  cases h with
  | skipped hgen => rw [if_neg hgen]; exact .refl _
  | locally hgen hstart hretire hsend =>
    rw [if_pos hgen]
    refine ⟨(Holdings.carry_native s.holdings a).symm, ?_, ?_⟩
    · rw [Holdings.carry_quiet hstart hretire hsend]
      exact id
    · rw [Holdings.carry_settled hretire hsend]
      exact id
  | unstarted hgen hkind =>
    -- the action is dropped, which leaves the relay as it was
    rw [if_pos hgen]
    refine ⟨hnt hgen (by rw [hkind]; rfl), by simp [Holdings.carry, hkind], ?_⟩
    rw [Holdings.carry_settled (by simp [hkind]) (by simp [hkind])]
    exact id
  | started derps hgen hkind hprep =>
    rw [if_pos hgen]
    refine ⟨hnt hgen (by rw [hkind]; rfl), by simp [Holdings.carry, hkind], fun _ => ?_⟩
    simp [holdings, settled, hry derps hprep]
  | retired hgen hkind =>
    rw [if_pos hgen]
    exact ⟨hnt hgen (by rw [hkind]; rfl), fun _ => rfl, fun _ => rfl⟩
  | unsent hgen hkind hrelay =>
    rw [if_pos hgen]
    refine ⟨hnt hgen (by rw [hkind]; rfl), fun _ => ?_, fun _ => ?_⟩
    all_goals simp [holdings, hrelay]
  | sent _ hgen hkind hrelay =>
    rw [if_pos hgen]
    refine ⟨hnt hgen (by rw [hkind]; rfl), fun hq => ?_, fun hs => ?_⟩
    · cases hd : a.delegation with
      | none => simpa [Holdings.carry, hkind, hd, holdings, hrelay] using hq
      | some q =>
        cases hact : q.action with
        | acquire => simp [Holdings.carry, hkind, hd, hact] at hq
        | _ =>
          simpa [Holdings.carry, hkind, hd, hact, holdings, hrelay, quiet] using hq
    · cases hd : a.delegation with
      | none => simpa [Holdings.carry, hkind, hd, holdings, hrelay] using hs
      | some q =>
        cases hact : q.action with
        | acquire | release => simp [Holdings.carry, hkind, hd, hact] at hs
        | _ =>
          simpa [Holdings.carry, hkind, hd, hact, holdings, hrelay, settled] using hs

theorem Ordered.last {req : DelegationRequest}
    {rest : List DelegationRequest} (h : Ordered s) (hr : s.relay = some r)
    (hreq : r.requests = req :: rest) (hid : req.requestId = s.transition.requestId) :
    rest = [] ∧ delegations (s.batch ++ s.transition.actions) = [] := by
  refine append_eq_nil_iff.mp (eq_nil_iff_forall_not_mem.mpr fun q hq => ?_)
  have hln : s.line = r.lease.request.toList
      ++ req :: (rest ++ delegations (s.batch ++ s.transition.actions)) := by
    simp [line, sent, RelaySession.sent, hr, hreq]
  have hmem : q ∈ s.line := by
    rw [hln]
    exact mem_append_right _ (mem_cons_of_mem _ hq)
  have hle := (h.line_le q hmem).1
  have hinc := h.increasing
  rw [hln, pairwise_append, pairwise_cons] at hinc
  have hlt := hinc.2.1.1 q hq
  omega

/-- A new relay, or the one there is, which may have been sent the request of the action. -/
def Serves (s : Handoff) (a : TransitionAction) (r : RelaySession) : Prop :=
  (∃ derps, r = { lease := { derps } }) ∨ ∃ r₀ qs, s.relay = some r₀ ∧
    qs.Sublist a.delegation.toList ∧ r = { r₀ with requests := r₀.requests ++ qs }

/-- **The next action is taken off the batch.** -/
structure Takes (s : Handoff) (a : TransitionAction) (s' : Handoff) : Prop where
  batch_eq : s.batch = a :: s'.batch
  transition_eq : s'.transition = s.transition
  within : (if a.generation = s.transition.status.generation then s.holdings.carry a
    else s.holdings).Within s'.holdings
  line : s'.line.Sublist s.line
  ready : ∀ derps, s'.preparedRelay = some derps → s.preparedRelay = some derps
  relay : ∀ r, s'.relay = some r → Serves s a r

namespace Takes

theorem queue_eq (h : Takes s a s') :
    s.batch ++ s.transition.actions = a :: (s'.batch ++ s'.transition.actions) := by
  rw [h.batch_eq, h.transition_eq, cons_append]

theorem todo_eq (h : Takes s a s') :
    s.todo = (if a.generation = s.transition.status.generation then [a] else []) ++ s'.todo := by
  rw [todo, todo, h.queue_eq, h.transition_eq, filter_cons]
  split
  · next hg => rw [if_pos (beq_iff_eq.mp hg)]; rfl
  · next hg => rw [if_neg (fun he => hg (beq_iff_eq.mpr he))]; rfl

theorem foldl_within (h : Takes s a s') :
    ((if a.generation = s.transition.status.generation then [a] else []).foldl .carry
      s.holdings).Within s'.holdings := by
  have hw := h.within
  split at hw
  · next hg => rw [if_pos hg]; exact hw
  · next hg => rw [if_neg hg]; exact hw

end Takes

/-- **An action is taken**, and if it fails the coordinator hears of it. -/
theorem ApplyMove.takes {now : ℕ} {rest : List TransitionAction} (hbatch : s.batch = a :: rest)
    (hry : ∀ derps, s.preparedRelay = some derps → derps.enabled = true)
    (hm : ApplyMove { s with batch := rest } now a s') :
    Takes s a s' ∨ Takes s a { s with batch := rest } ∧ ∃ i,
      s' = { s with batch := rest, transition := s.transition.step now i } ∧
      (i = .relayFailed ∨ i = .cancel .preparationFailed ∧ a ∈ s.todo ∧
        a.kind = .activateHosted) := by
  have hw := hm.within hry
  have hqu : (delegations (rest ++ s.transition.actions)).Sublist
      (delegations (s.batch ++ s.transition.actions)) := by
    rw [hbatch]
    exact delegations_sublist_cons a _
  have hsame (r : RelaySession) (hr : s.relay = some r) : Serves s a r :=
    .inr ⟨r, [], hr, nil_sublist _, by rw [append_nil]⟩
  cases hm with
  | skipped | locally => exact .inl ⟨hbatch, rfl, hw, hqu.append_left _, fun _ => id, hsame⟩
  | unstarted hgen hkind =>
    refine .inr ⟨⟨hbatch, rfl, hw, hqu.append_left _, fun _ => id, hsame⟩, _, rfl,
      .inr ⟨rfl, ?_, hkind⟩⟩
    rw [todo, hbatch, cons_append, filter_cons, if_pos (beq_iff_eq.mpr hgen)]
    exact mem_cons_self
  | started derps =>
    refine .inl ⟨hbatch, rfl, hw, .append (nil_sublist _) hqu, by simp, ?_⟩
    rintro _ ⟨⟩
    exact .inl ⟨derps, rfl⟩
  | retired => exact .inl ⟨hbatch, rfl, hw, .append (nil_sublist _) hqu, by simp, by simp⟩
  | unsent =>
    exact .inr ⟨⟨hbatch, rfl, hw, hqu.append_left _, fun _ => id, hsame⟩, .relayFailed, rfl,
      .inl rfl⟩
  | sent r _ _ hrelay =>
    refine .inl ⟨hbatch, rfl, hw, ?_, fun _ => id, ?_⟩
    · -- a request that is sent moves from the queue to the channel
      have hq : a.delegation.toList ++ delegations (rest ++ s.transition.actions)
          = delegations (s.batch ++ s.transition.actions) := by
        rw [hbatch]
        cases hd : a.delegation <;> simp [delegations, hd]
      simp only [line, Handoff.sent, RelaySession.sent, show s.relay = _ from hrelay, toList_some,
        flatMap_singleton, ← hq, append_assoc]
      exact .refl _
    · rintro _ ⟨⟩
      exact .inr ⟨r, _, hrelay, .refl _, rfl⟩

namespace Exclusive

/-- **Carrying out what comes next, or a move of the relay, keeps the
invariant**: `carried` is what is taken off the queue. -/
theorem advance {acts : List TransitionAction} (h : Exclusive s) (carried : List TransitionAction)
    (htr : s'.transition = { s.transition with actions := acts })
    (htd : s.todo = carried ++ s'.todo)
    (hw : (carried.foldl .carry s.holdings).Within s'.holdings)
    (has : ∀ a ∈ s'.batch ++ s'.transition.actions, a ∈ s.batch ++ s.transition.actions)
    (hry : ∀ derps, s'.preparedRelay = some derps → derps.enabled = true)
    (hls : ∀ r, s'.relay = some r → r.lease.Coherent ∧ r.lease.output = [])
    (hln : s'.line.Sublist s.line)
    (hrp : ∀ p ∈ s'.replies, p ∈ s.replies ∨ ∃ q ∈ s.line, p.Answers q)
    (hrl : ∀ r, s'.relay = some r → ∀ p ∈ r.replies, p.status = .released →
      p.requestId = s.transition.requestId → r.lease.derps.enabled = false ∧ r.requests = []
        ∧ delegations (s'.batch ++ s'.transition.actions) = []) :
    Exclusive s' := by
  have hah := ahead_within carried htd hw
  have hst : s'.transition.status = s.transition.status := by rw [htr]
  have htgt : s'.transition.target = s.transition.target := by rw [htr]; rfl
  constructor
  case lease => exact hls
  case ready => exact hry
  case generation_le => rw [hst]; exact fun a ha => h.generation_le a (has a ha)
  case safe =>
    have hs := (through_append.mp (htd ▸ h.safe)).2
    exact hs.related (fun _ _ a hw => hw.carry a) (fun _ _ hw => hw.safe) hw
  case native_ahead =>
    intro hsus
    rw [hah.native_eq]
    refine h.native_ahead ?_
    rwa [suspends, hst] at hsus
  case quiet_ahead =>
    intro hph hd hrel
    rw [hst] at hph hd
    rw [htr] at hrel
    exact hah.quiet (h.quiet_ahead hph hd hrel)
  case activate_target =>
    intro a ha hk
    rw [htgt]
    exact h.activate_target a (htd ▸ mem_append_right _ ha) hk
  case ordered => exact h.ordered.shrink (by rw [htr]) (by rw [hst]) hln hrp
  case released =>
    intro r hr p hp hs hid
    exact hrl r hr p hp hs (hid.trans (by rw [htr]))

theorem withoutRelay (h : Exclusive s) : Exclusive { s with relay := none } := by
  refine h.advance [] rfl rfl ⟨rfl, fun _ => rfl, fun _ => rfl⟩ (fun _ ha => ha) h.ready (by simp)
    ?_ (by simp [replies]) (by simp)
  exact .append_right (nil_sublist _) _

variable {r' : RelaySession} {p : DelegationReply}

theorem relayMove (h : Exclusive s) (hr : s.relay = some r)
    (hm : r.Move r') : Exclusive { s with relay := some r' } := by
  obtain ⟨hl, hout⟩ := h.lease r hr
  have hsn : s.sent = r.sent := by simp [sent, hr]
  refine h.advance [] rfl rfl (holdings_within hr hm) (fun _ ha => ha) h.ready ?_ ?_ ?_ ?_
  · rintro _ ⟨⟩
    exact hm.lease hl
  · refine .append_right ?_ _
    rw [hsn]
    simpa [sent] using hm.sent
  · intro p hp
    have hp : p ∈ r'.replies := by simpa [replies] using hp
    rcases hm.said hl hout hp with hp | ⟨⟨q, hq, hans⟩, -⟩
    · exact .inl (by simpa [replies, hr] using hp)
    · exact .inr ⟨q, mem_append_left _ (hsn ▸ hq), hans⟩
  · rintro _ ⟨⟩ p hp hs hid
    rcases hm.said hl hout hp with hp | ⟨-, hrel⟩
    · -- nothing is on its way to a relay whose last reply said so
      obtain ⟨hoff, hreq, hdel⟩ := h.released r hr p hp hs hid
      have hqt := hm.quiet (by simp [quiet, hoff, hreq])
      rw [quiet, and_eq_true, not_eq_true'] at hqt
      exact ⟨hqt.1, hm.requests_eq_nil hreq, hdel⟩
    · obtain ⟨_, _, _, _, hreq, -, -, hans, rfl, hoff⟩ := hrel (.inl hs)
      obtain ⟨hrs, hdel⟩ := h.ordered.last hr hreq (hans.2.1.symm.trans hid)
      exact ⟨hoff hs, hrs, hdel⟩

theorem relayMoves (h : Exclusive s) (hr : s.relay = some r)
    (hm : Relation.ReflTransGen RelaySession.Move r r') :
    Exclusive { s with relay := some r' } := by
  induction hm with
  | refl => rw [← hr]; exact h
  | tail _ hm ih => exact ih.relayMove rfl hm

theorem take (h : Exclusive s) (ht : Takes s a s') : Exclusive s' := by
  refine h.advance _ ht.transition_eq ht.todo_eq ht.foldl_within ?_
    (fun derps hd => h.ready derps (ht.ready derps hd)) ?_ ht.line ?_ ?_
  · intro _ hb
    rw [ht.queue_eq]
    exact mem_cons_of_mem _ hb
  · intro r hr
    rcases ht.relay r hr with ⟨derps, rfl⟩ | ⟨r₀, _, hr₀, -, rfl⟩
    · exact ⟨.fresh derps, rfl⟩
    · exact h.lease r₀ hr₀
  · intro p hp
    obtain ⟨r, hr, hp⟩ : ∃ r, s'.relay = some r ∧ p ∈ r.replies := by simpa [replies] using hp
    rcases ht.relay r hr with ⟨_, rfl⟩ | ⟨r₀, _, hr₀, -, rfl⟩
    · cases hp
    · exact .inl (by simpa [replies, hr₀] using hp)
  · intro r hr p hp hs hid
    rcases ht.relay r hr with ⟨_, rfl⟩ | ⟨r₀, _, hr₀, hqs, rfl⟩
    · cases hp
    · obtain ⟨hoff, hrq₀, hdel⟩ := h.released r₀ hr₀ p hp hs hid
      -- nothing queued is a request, the action taken included
      rw [ht.queue_eq] at hdel
      obtain ⟨hda, hdel⟩ := delegations_cons_eq_nil hdel
      rw [hda] at hqs
      exact ⟨hoff, by simp [hrq₀, eq_nil_of_sublist_nil hqs], hdel⟩

variable {rest : List TransitionAction}

/-- **Carrying out the next action is safe.** -/
theorem applyAction {now : ℕ} (h : Exclusive s) (hc : Coherent s.transition)
    (hbatch : s.batch = a :: rest) (hm : ApplyMove { s with batch := rest } now a s') :
    Exclusive s' := by
  rcases hm.takes hbatch h.ready with ht | ⟨ht, i, rfl, hi⟩
  · exact h.take ht
  · refine (h.take ht).move hc (s.transition.step_move now i) ?_
    rcases hi with rfl | ⟨rfl, -⟩ <;> simp

/-- A reply that is awaited says *released* only of a relay that will be
quiet. -/
theorem quiet_of_released {req : DelegationRequest} (h : Exclusive s) (hc : Coherent s.transition)
    (hr : s.relay = some r) (hp : p ∈ r.replies) (hs : p.status = .released)
    (hacc : s.transition.accepts p = true) (hpend : s.transition.pending = some req)
    (hact : req.action = .release) : s.ahead.quiet = true := by
  obtain ⟨-, -, _, hq, hid, -⟩ := pending_of_accepts hacc
  cases hpend.symm.trans hq
  obtain ⟨hoff, hreq, hdel⟩ := h.released r hr p hp hs (hid.trans (hc.pending_last req hpend).2.1)
  refine Holdings.quiet_foldl ?_ (fun a ha hk => ?_) ?_
  · simp [holdings, hr, quiet, hoff, hreq]
  · -- a session is only started on the way to hosted
    have htgt := h.activate_target a ha hk
    rw [(hc.pending_target req hpend).1 hact] at htgt
    cases htgt
  · refine eq_nil_of_sublist_nil ?_
    rw [← hdel]
    exact filter_sublist.filterMap _

theorem popReply {rest : List DelegationReply} (h : Exclusive s) (hr : s.relay = some r)
    (hrep : r.replies = p :: rest) :
    Exclusive { s with relay := some { r with replies := rest } } := by
  have hmem {p' : DelegationReply} (hp : p' ∈ rest) : p' ∈ r.replies :=
    hrep ▸ mem_cons_of_mem _ hp
  refine h.advance [] rfl rfl ?_ (fun _ ha => ha) h.ready ?_ ?_ ?_ ?_
  · rw [holdings_popReply hr]
    exact .refl _
  · rintro _ ⟨⟩
    exact h.lease r hr
  · rw [line, line, sent, sent, hr]
    exact .refl _
  · intro _ hp
    refine .inl ?_
    rw [replies, hr]
    simpa [replies] using hmem (by simpa [replies] using hp)
  · rintro _ ⟨⟩ p hp
    exact h.released r hr p (hmem hp)

/-- **Every event keeps the invariant.** -/
theorem step {e : Event} (h : Exclusive s) (hc : Coherent s.transition)
    (hm : StepMove s e s') : Exclusive s' := by
  cases hm with
  | told now i _ hext =>
    refine h.move hc (s.transition.step_move now i) ?_
    rintro p _ rfl
    cases hext
  | lost now =>
    exact h.withoutRelay.move hc (s.transition.step_move now .relayFailed) (by simp)
  | prepared _ hen =>
    refine h.advance [] rfl rfl (.refl _) (fun _ ha => ha) ?_ h.lease (.refl _) (fun _ => .inl)
      h.released
    rintro _ ⟨⟩
    exact hen
  | dropped =>
    exact h.advance [] rfl rfl (.refl _) (fun _ ha => ha) (by simp) h.lease (.refl _)
      (fun _ => .inl) h.released
  | taken hbatch =>
    have hqu : s.transition.actions ++ [] = s.batch ++ s.transition.actions := by
      rw [hbatch, append_nil, nil_append]
    refine h.advance [] rfl ?_ (.refl _) ?_ h.ready h.lease ?_ (fun _ => .inl) ?_
    · rw [todo, todo, ← hqu]
      rfl
    · rw [← hqu]
      exact fun _ ha => ha
    · rw [line, line, ← hqu]
      exact .refl _
    · rw [hqu]
      exact h.released
  | applied _ _ _ hbatch hm => exact h.applyAction hc hbatch hm
  | relayed _ _ _ hr hm => exact h.relayMoves hr hm
  | ended => exact h.withoutRelay
  | replied now _ p _ _ hr hrep =>
    refine (h.popReply hr hrep).move hc (s.transition.step_move now (.reply p)) ?_
    intro _ _ hi hs hacc hpend hact
    cases hi
    rw [ahead_popReply hr]
    exact h.quiet_of_released hc hr (hrep ▸ mem_cons_self) hs hacc hpend hact

end Exclusive

/-! ## Exclusion -/

theorem Exclusive.init (h : system.init s) : Exclusive s := by
  rcases h with rfl | ⟨derps, -, rfl⟩
  · exact {
      lease := by simp [startNative]
      ready := by simp [startNative]
      generation_le := by simp [startNative, new]
      safe := fun _ => rfl
      native_ahead := by simp [suspends, startNative, new]
      quiet_ahead := by simp [startNative, new]
      activate_target := by simp [todo, startNative, new]
      ordered := ⟨by simp [line, sent, startNative, new], by simp [line, sent, startNative, new],
        by simp [replies, startNative]⟩
      released := by simp [startNative] }
  · exact {
      lease := by
        rintro _ ⟨⟩
        exact ⟨.fresh derps, rfl⟩
      ready := by simp [startHosted]
      generation_le := by simp [startHosted, new]
      safe := Holdings.safe_of_native rfl
      native_ahead := fun _ => rfl
      quiet_ahead := by simp [startHosted, new]
      activate_target := by simp [todo, startHosted, new]
      ordered := ⟨by simp [line, sent, RelaySession.sent, startHosted, new],
        by simp [line, sent, RelaySession.sent, startHosted, new], by simp [replies, startHosted]⟩
      released := by simp [startHosted] }

/-- **The invariant holds in every reachable state.** -/
theorem exclusive_of_reachable (h : system.Reachable s) : Coherent s.transition ∧ Exclusive s := by
  refine TransitionSystem.invariant (P := fun s => Coherent s.transition ∧ Exclusive s) ?_ ?_ h
  · intro _ hs
    refine ⟨?_, .init hs⟩
    rcases hs with rfl | ⟨_, -, rfl⟩
    all_goals exact .of_rest rfl rfl rfl
  · intro s _ _ hs hsp
    have hm := step_move (s := s) hsp
    exact ⟨hm.coherent hs.1, hs.2.step hs.1 hm⟩

/-- **The DERP connections are never enabled on both sides.** However the
node, its relay, the channels between them and their clocks behave, a node
whose own DERP connections are enabled has no relay session whose connections
may be open. -/
theorem never_both_enabled {s : Handoff} (h : system.Reachable s) :
    ¬ (s.nativeDerp = true ∧ s.relayDerp) := by
  rintro ⟨hnt, _, hr, hon⟩
  have hsf : s.holdings.Safe := (exclusive_of_reachable h).2.safe.head
  have hqt : s.relay.all quiet = true := hsf hnt
  rw [hr, all_some, quiet, and_eq_true, not_eq_true'] at hqt
  rw [DerpConnections.on_iff, hqt.1] at hon
  exact absurd hon Bool.false_ne_true

/-- A node that starts through a relay with one region and takes over its
connections, up to the request to commit. -/
def takingOver : List Event :=
  [.tell 0 (.begin .native 7 [1] true), .takeActions, .applyAction 0, .relay (.applyMap 7),
    .tell 10 (.prepared 1 true), .tell 20 (.mapApplied 7), .takeActions, .applyAction 20,
    .deliverRequest 30, .deliverReply 40, .takeActions, .applyAction 40, .deliverRequest 50,
    .deliverReply 60, .takeActions, .applyAction 60, .tell 70 (.nativeReady 1), .takeActions]

theorem never_both_enabled_takingOver : ∃ s r,
    takingOver.foldlM step (startHosted { entries := [⟨1, "derp.example.com", true, true⟩] })
      = some s ∧ s.nativeDerp = true ∧ s.relay = some r ∧ ¬ s.relayDerp := by
  have hrun : (takingOver.foldlM step
      (startHosted { entries := [⟨1, "derp.example.com", true, true⟩] })).any
        (fun s => s.nativeDerp && s.relay.isSome) = true := by decide
  obtain ⟨s, hs, hbt⟩ := (any_eq_true _ _).mp hrun
  rw [and_eq_true] at hbt
  obtain ⟨r, hr⟩ := isSome_iff_exists.mp hbt.2
  have hre : system.Reachable s :=
    .of_foldlM (fun _ _ _ h => h) (.init (.inr ⟨_, rfl, rfl⟩)) hs
  exact ⟨s, r, hs, hbt.1, hr, fun h => never_both_enabled hre ⟨hbt.1, h⟩⟩

end Handoff

end Tailgate
