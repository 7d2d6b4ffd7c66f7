import Tailgate.DelegationLease
import Tailgate.TransitionInvariants

/-!
# The requests of a coordinator

The requests among the actions obey a discipline the relay relies on: identifiers
increase, generations do not decrease, and each generation that makes requests
opens with its only *prepare*. A `Journal` is a coordinator together with the
requests taken so far; queued requests may be dropped, never reordered.
-/

namespace Tailgate

open List Nat TransitionCoordinator

/-! ## The discipline -/

/-- **Requests made with discipline**, in the order they were made. -/
inductive Disciplined : List DelegationRequest → Prop
  | nil : Disciplined []
  /-- One more request: it is newer than those before, opens its generation or
  continues one that was opened, and is about a map and regions. -/
  | snoc {l : List DelegationRequest} {r : DelegationRequest} (hl : Disciplined l)
      (hid : ∀ q ∈ l, q.requestId < r.requestId)
      (hgen : ∀ q ∈ l, q.generation ≤ r.generation)
      (hopens : r.action = .prepare → ∀ q ∈ l, q.generation < r.generation)
      (hcontinues : r.action ≠ .prepare →
        ∃ q ∈ l, q.action = .prepare ∧ q.generation = r.generation)
      (hrev : r.mapRevision ≠ 0) (hreg : r.regions.Pairwise (· < ·)) (hzero : 0 ∉ r.regions) :
      Disciplined (l ++ [r])

namespace Disciplined

variable {l : List DelegationRequest}

theorem of_append_singleton {r : DelegationRequest}
    (h : Disciplined (l ++ [r])) : Disciplined l := by
  generalize hl : l ++ [r] = l' at h
  cases h with
  | nil => exact absurd hl (by simp)
  | snoc hl₁ =>
    obtain ⟨rfl, -⟩ := append_inj' hl rfl
    exact hl₁

theorem of_append {l' : List DelegationRequest} (h : Disciplined (l ++ l')) : Disciplined l := by
  induction l' using reverseRecOn with
  | nil => rwa [append_nil] at h
  | append_singleton _ _ ih =>
    rw [← append_assoc] at h
    exact ih h.of_append_singleton

theorem pairwise_follows (h : Disciplined l) : l.Pairwise DelegationLease.Follows := by
  induction h with
  | nil => exact .nil
  | snoc _ hid hgen _ _ _ _ _ ih =>
    refine pairwise_append.mpr ⟨ih, pairwise_singleton _ _, fun q hq r hr => ?_⟩
    rw [mem_singleton.mp hr]
    exact ⟨hid q hq, hgen q hq⟩

theorem exists_prepare (h : Disciplined l) :
    ∀ r ∈ l, ∃ q ∈ l, q.action = .prepare ∧ q.generation = r.generation := by
  induction h with
  | nil => simp
  | snoc _ _ _ _ hcontinues _ _ _ ih =>
    intro r hr
    rcases mem_append.mp hr with hr' | hr'
    · obtain ⟨q, hq, h⟩ := ih r hr'
      exact ⟨q, mem_append_left _ hq, h⟩
    · by_cases ha : r.action = .prepare
      · exact ⟨r, hr, ha, rfl⟩
      · rw [mem_singleton.mp hr'] at ha ⊢
        obtain ⟨q, hq, h⟩ := hcontinues ha
        exact ⟨q, mem_append_left _ hq, h⟩

theorem prepare_first (h : Disciplined l) :
    ∀ p ∈ l, ∀ r ∈ l, p.action = .prepare → p.generation = r.generation →
      p = r ∨ p.requestId < r.requestId := by
  induction h with
  | nil => simp
  | snoc _ hid _ hopens _ _ _ _ ih =>
    intro p hp r hr ha hpr
    rcases mem_append.mp hp with hp | hp <;> rcases mem_append.mp hr with hr | hr
    · exact ih p hp r hr ha hpr
    · rw [mem_singleton.mp hr]
      exact .inr (hid p hp)
    · -- a later preparation is of a later generation
      rw [mem_singleton.mp hp] at ha hpr
      exact absurd hpr.symm (hopens ha r hr).ne
    · rw [mem_singleton.mp hp, mem_singleton.mp hr]
      exact .inl rfl

theorem about (h : Disciplined l) :
    ∀ r ∈ l, r.mapRevision ≠ 0 ∧ r.regions.Pairwise (· < ·) ∧ 0 ∉ r.regions := by
  induction h with
  | nil => simp
  | snoc _ _ _ _ _ hrev hreg hzero ih =>
    exact forall_mem_append.mpr ⟨ih, forall_mem_singleton.mpr ⟨hrev, hreg, hzero⟩⟩

end Disciplined

namespace TransitionCoordinator

/-! ## The journal of a coordinator -/

def delegations (actions : List TransitionAction) : List DelegationRequest :=
  actions.filterMap TransitionAction.delegation

@[simp]
theorem delegations_nil : delegations [] = [] := rfl

@[simp]
theorem delegations_append (as bs : List TransitionAction) :
    delegations (as ++ bs) = delegations as ++ delegations bs :=
  filterMap_append

@[simp]
theorem delegations_plain (kind : TransitionActionKind) (gen : ℕ) (as : List TransitionAction) :
    delegations (plain kind gen :: as) = delegations as := rfl

theorem delegations_candidate {c : TransitionCoordinator} {pushed : List TransitionAction}
    {owned : Bool} (h : CandidateActions c pushed owned) :
    delegations (c.actions ++ pushed) = delegations c.actions := by
  cases h <;> simp

theorem delegations_request (c : TransitionCoordinator) (now : ℕ) (a : DelegationAction) :
    delegations (c.request now a).actions = delegations c.actions ++
      [{ generation := c.status.generation, requestId := c.requestId + 1,
         mapRevision := c.mapRevision, action := a, regions := c.regions }] := by
  show delegations (_ ++ [_]) = _
  rw [delegations_append]
  rfl

theorem delegations_cons_eq_nil {a : TransitionAction} {as : List TransitionAction}
    (h : delegations (a :: as) = []) : a.delegation = none ∧ delegations as = [] := by
  cases hda : a.delegation with
  | none => exact ⟨rfl, by simpa [delegations, hda] using h⟩
  | some => simp [delegations, hda] at h

theorem delegations_sublist_cons (a : TransitionAction) (as : List TransitionAction) :
    (delegations as).Sublist (delegations (a :: as)) :=
  (sublist_cons_self a as).filterMap _

/-- **What an outcome does to the requests queued**: it makes none, keeping or
dropping those there are, or it makes one, newer than all before. -/
inductive Ledger (c c' : TransitionCoordinator) : Prop
  | silent (hid : c'.requestId = c.requestId)
      (hdel : delegations c'.actions = delegations c.actions ∨ delegations c'.actions = [])
  /-- One request is made, in the generation the outcome leaves. -/
  | asks (r : DelegationRequest) (hid : c'.requestId = c.requestId + 1)
      (hrid : r.requestId = c.requestId + 1) (hgen : r.generation = c'.status.generation)
      (hrelease : r.action = .release → c'.target = .native)
      (hacquire : r.action = .acquire → c'.target = .hosted)
      (hdel : delegations c'.actions = delegations c.actions ++ [r] ∨ delegations c'.actions = [r])

/-- A request that is queued was queued before, or it is the one just made. -/
theorem Ledger.mem_delegations {c c' : TransitionCoordinator} {batch : List TransitionAction}
    {q : DelegationRequest} (h : Ledger c c') (hq : q ∈ delegations (batch ++ c'.actions)) :
    q ∈ delegations (batch ++ c.actions) ∨ q.generation = c'.status.generation
      ∧ (q.action = .release → c'.target = .native)
      ∧ (q.action = .acquire → c'.target = .hosted) := by
  rw [delegations_append, mem_append] at hq ⊢
  cases h with
  | silent _ hdel =>
    refine .inl (hq.imp id fun hq => ?_)
    rcases hdel with hdel | hdel
    · rwa [hdel] at hq
    · rw [hdel] at hq; cases hq
  | asks r _ _ hgen hrelease hacquire hdel =>
    rcases hq with hq | hq
    · exact .inl (.inl hq)
    · have hq : q ∈ delegations c.actions ∨ q = r := by
        rcases hdel with hdel | hdel
        · rwa [hdel, mem_append, mem_singleton] at hq
        · rw [hdel, mem_singleton] at hq; exact .inr hq
      rcases hq with hq | rfl
      · exact .inl (.inr hq)
      · exact .inr ⟨hgen, hrelease, hacquire⟩

variable {a : DelegationAction} {i : Input} {j : Journal} {c c' : TransitionCoordinator} {now : ℕ}

theorem Ledger.request {c c₁ : TransitionCoordinator}
    (hid : c₁.requestId = c.requestId) (hrelease : a = .release → c₁.target = .native)
    (hacquire : a = .acquire → c₁.target = .hosted)
    (hdel : delegations c₁.actions = delegations c.actions ∨ delegations c₁.actions = []) :
    Ledger c (c₁.request now a) := by
  refine .asks ⟨c₁.status.generation, c₁.requestId + 1, c₁.mapRevision, a, c₁.regions⟩
    (congrArg (· + 1) hid) (congrArg (· + 1) hid) rfl hrelease hacquire ?_
  rw [delegations_request]
  rcases hdel with h | h
  · exact .inl (by rw [h])
  · exact .inr (by rw [h, nil_append])

theorem RollbackMove.ledger (h : RollbackMove c now c') : Ledger c c' := by
  cases h with
  | again | unowned | lostHosted | lostNative => exact .silent rfl (.inr rfl)
  | negotiate => exact .request rfl (by simp) (by simp) (.inr rfl)

theorem Move.ledger (h : Move c now i c') : Ledger c c' := by
  have hcm (sel : NodeMode) : Ledger c (c.commitSelection now sel) := by
    unfold commitSelection
    cases hrel : c.relayAvailable with
    | true =>
      simp only [action, Bool.not_true, Bool.false_eq_true, if_false]
      exact .request rfl (by simp) (by simp) (.inl (by simp))
    | false =>
      simp only [action, Bool.not_false, if_true]
      exact .silent rfl (.inl (by simp))
  cases h with
  | stay | beginRefused | beginSame | mapRecorded | mapNoted | replyCommitted
  | relayLostIdle => exact .silent rfl (.inl rfl)
  | beginStart | preparedAlone | replyReleased | relayLostPreparing | relayLostSwitching =>
    exact .silent rfl (.inl (by simp))
  | preparedAwait _ _ hcand =>
    exact .silent rfl (.inl (delegations_candidate hcand))
  | preparedDelegate _ _ hcand =>
    exact .request rfl (by simp) (by simp) (.inl (delegations_candidate hcand))
  | mapAwaited => exact .request rfl (by simp) (by simp) (.inl rfl)
  | mapRestarts | aborted => exact .silent rfl (.inr rfl)
  | replyPrepared =>
    cases ht : c.target with
    | native => exact .request rfl (fun _ => ht) (by simp) (.inl rfl)
    | hosted => exact .request rfl (by simp) (fun _ => ht) (.inl rfl)
  | replyReady => exact hcm .hosted
  | nativeReady => exact hcm .native
  | relayLostRollback _ hm =>
    cases hm.ledger with
    | silent hid hdel => exact .silent hid hdel
    | asks r hid hrid hgen hrelease hacquire hdel =>
      exact .asks r hid hrid hgen hrelease hacquire hdel
  | rolledBack _ _ _ _ hm => exact hm.ledger
  | drained => exact .silent rfl (.inl (by simp [finish, action]))

theorem RollbackMove.generation_le
    (h : RollbackMove c now c') : c.status.generation ≤ c'.status.generation := by
  cases h with
  | again | unowned => exact le_rfl
  | lostHosted | lostNative | negotiate => exact le_succ _

theorem Move.generation_le (h : Move c now i c') : c.status.generation ≤ c'.status.generation := by
  have hcm (sel : NodeMode) :
      (c.commitSelection now sel).status.generation = c.status.generation := by
    unfold commitSelection
    cases c.relayAvailable <;> rfl
  cases h with
  | beginRefused | beginSame | beginStart | mapRestarts | aborted => exact le_succ _
  | replyReady => exact (hcm .hosted).ge
  | nativeReady => exact (hcm .native).ge
  | relayLostRollback _ hm | rolledBack _ _ _ _ hm => exact hm.generation_le
  | _ => exact le_rfl

structure Journal where
  coordinator : TransitionCoordinator
  emitted : List DelegationRequest := []

def Journal.call (j : Journal) (e : Call) : Journal where
  coordinator := j.coordinator.call e
  emitted :=
    match e with
    | .tell _ _ => j.emitted
    | .takeActions => j.emitted ++ delegations j.coordinator.takeActions.1

def Call.informed : Call → Prop
  | .tell _ (.mapChanged revision regions) => revision ≠ 0 ∧ regions ≠ [] ∧ 0 ∉ regions
  | _ => True

def Journal.system : TransitionSystem Journal Call where
  init j := ∃ initial, j = { coordinator := new initial }
  step j e j' := e.informed ∧ j' = j.call e

theorem Journal.reachable_foldl_call (h : Journal.system.Reachable j)
    {cs : List Call} (hi : ∀ e ∈ cs, e.informed) :
    Journal.system.Reachable (cs.foldl Journal.call j) :=
  foldlRecOn cs Journal.call h fun _ h e he => h.step ⟨hi e he, rfl⟩

structure Filed (emitted : List DelegationRequest) (c : TransitionCoordinator) : Prop where
  /-- They were made with discipline. -/
  disciplined : Disciplined (emitted ++ delegations c.actions)
  /-- The coordinator has counted them. -/
  id_le : ∀ q ∈ emitted ++ delegations c.actions, q.requestId ≤ c.requestId
  /-- They belong to its generations so far. -/
  generation_le : ∀ q ∈ emitted ++ delegations c.actions, q.generation ≤ c.status.generation
  /-- During a switch the next ones are about a map and about regions. -/
  map : c.active = true → c.mapRevision ≠ 0 ∧ c.regions.Pairwise (· < ·) ∧ 0 ∉ c.regions

namespace Filed

variable {emitted : List DelegationRequest} {c c' : TransitionCoordinator}

theorem keep (h : Filed emitted c) (has : delegations c'.actions = delegations c.actions)
    (hmap : c'.active = true → c'.mapRevision ≠ 0 ∧ c'.regions.Pairwise (· < ·) ∧ 0 ∉ c'.regions)
    (hgen : c.status.generation ≤ c'.status.generation := by exact le_rfl)
    (hid : c'.requestId = c.requestId := by rfl) : Filed emitted c' where
  disciplined := by rw [has]; exact h.disciplined
  id_le := by rw [has, hid]; exact h.id_le
  generation_le := by rw [has]; exact fun q hq => (h.generation_le q hq).trans hgen
  map := hmap

theorem cleared (h : Filed emitted c) : Filed emitted { c with actions := [] } := by
  have hem : emitted ++ delegations [] = emitted := append_nil _
  exact { h with
    disciplined := hem.symm ▸ h.disciplined.of_append
    id_le := hem.symm ▸ fun q hq => h.id_le q (mem_append_left _ hq)
    generation_le := hem.symm ▸ fun q hq => h.generation_le q (mem_append_left _ hq) }

/-- A request opens its generation, or continues one opened before. -/
structure Due (emitted : List DelegationRequest) (c : TransitionCoordinator)
    (a : DelegationAction) : Prop where
  opens : a = .prepare →
    ∀ q ∈ emitted ++ delegations c.actions, q.generation < c.status.generation
  continues : a ≠ .prepare → ∃ q ∈ emitted ++ delegations c.actions,
    q.action = .prepare ∧ q.generation = c.status.generation

/-- A request that is due is filed with discipline. -/
theorem request (h : Filed emitted c) {now : ℕ} {a : DelegationAction} (hact : c.active = true)
    (hdue : Due emitted c a) : Filed emitted (c.request now a) := by
  obtain ⟨hrev, hreg, hzero⟩ := h.map hact
  constructor
  case disciplined =>
    rw [delegations_request, ← append_assoc]
    exact .snoc h.disciplined (fun q hq => lt_succ_of_le (h.id_le q hq)) h.generation_le
      hdue.opens hdue.continues hrev hreg hzero
  case id_le =>
    rw [delegations_request, ← append_assoc, forall_mem_append, forall_mem_singleton]
    exact ⟨fun q hq => (h.id_le q hq).trans (le_succ _), le_rfl⟩
  case generation_le =>
    rw [delegations_request, ← append_assoc, forall_mem_append, forall_mem_singleton]
    exact ⟨h.generation_le, le_rfl⟩
  case map => exact fun _ => ⟨hrev, hreg, hzero⟩

end Filed

/-- **The journal's invariant.** -/
structure Kept (emitted : List DelegationRequest) (c : TransitionCoordinator) : Prop where
  /-- The coordinator's own invariant. -/
  coherent : Coherent c
  filed : Filed emitted c
  /-- A generation makes no request before its map is applied. -/
  unopened : c.status.phase = .preparing ∨ c.status.phase = .awaitingMap →
    ∀ q ∈ emitted ++ delegations c.actions, q.generation < c.status.generation
  /-- A generation whose relay is at work has prepared. -/
  opened : c.pending ≠ none ∨ c.status.phase = .activating ∧ c.relayAvailable = true →
    ∃ q ∈ emitted ++ delegations c.actions, q.action = .prepare ∧ q.generation = c.status.generation

namespace Kept

variable {emitted : List DelegationRequest} {c c' : TransitionCoordinator} {now : ℕ}

theorem of_rest (hc : Coherent c) (hf : Filed emitted c) (hact : c.active = false) :
    Kept emitted c := by
  have hphase {p : TransitionPhase} (h : c.status.phase = p) (hi : p ≠ .idle)
      (hf : p ≠ .failed) : False := by
    rw [active_of_phase h hi hf] at hact
    cases hact
  refine ⟨hc, hf, ?_, ?_⟩
  · rintro (h | h)
    all_goals exact (hphase h (by decide) (by decide)).elim
  · rintro (h | ⟨h, -⟩)
    · exact absurd (hc.rest_pending hact) h
    · exact (hphase h (by decide) (by decide)).elim

theorem request {a : DelegationAction} (hf : Filed emitted c) (hc : Coherent (c.request now a))
    (hphase : c.status.phase = awaitingPhase a) (hdue : Filed.Due emitted c a) :
    Kept emitted (c.request now a) := by
  have hact : c.active = true := by
    refine c.active_iff.mpr ?_
    rw [hphase]
    cases a <;> decide
  refine ⟨hc, hf.request hact hdue, ?_, fun _ => ?_⟩
  · intro (h : c.status.phase = _ ∨ c.status.phase = _)
    rw [hphase] at h
    cases a <;> exact absurd h (by decide)
  · rw [delegations_request, ← append_assoc]
    by_cases ha : a = .prepare
    · exact ⟨_, mem_append_right _ (mem_singleton.mpr rfl), ha, rfl⟩
    · obtain ⟨q, hq, h⟩ := hdue.continues ha
      exact ⟨q, mem_append_left _ hq, h⟩

theorem commitSelection {sel : NodeMode} (h : Kept emitted c) (hact : c.active = true)
    (hc : Coherent (c.commitSelection now sel))
    (hop : c.pending ≠ none ∨ c.relayAvailable = true → ∃ q ∈ emitted ++ delegations c.actions,
        q.action = .prepare ∧ q.generation = c.status.generation) :
    Kept emitted (c.commitSelection now sel) := by
  have hmap := h.filed.map hact
  unfold TransitionCoordinator.commitSelection at hc ⊢
  cases hrel : c.relayAvailable with
  | true =>
    simp only [action, hrel, Bool.not_true, Bool.false_eq_true, if_false] at hc ⊢
    refine request ?_ hc rfl ⟨by simp, fun _ => ?_⟩
    · exact h.filed.keep (by simp) (fun _ => hmap)
    · simpa using hop (.inr hrel)
  | false =>
    simp only [action, hrel, Bool.not_false, if_true] at hc ⊢
    refine ⟨hc, h.filed.keep (by simp) (fun _ => hmap), by simp, ?_⟩
    rintro (hp | ⟨hph, -⟩)
    · simpa using hop (.inl hp)
    · cases hph

theorem rollback (hf : Filed emitted c) (hact : c.active = true) (hm : RollbackMove c now c') :
    Kept emitted c' := by
  have hc := Coherent.rollback hm
  have hmap := hf.map hact
  cases hm with
  | again | unowned =>
    exact of_rest hc (hf.cleared.keep rfl (by simp [active])) rfl
  | lostHosted =>
    exact of_rest hc (hf.cleared.keep rfl (by simp [active]) (le_succ _)) rfl
  | lostNative _ _ _ hrel =>
    refine ⟨hc, hf.cleared.keep rfl (fun _ => hmap) (le_succ _), by simp, ?_⟩
    rintro (hp | ⟨-, hr⟩)
    · exact absurd rfl hp
    · exact absurd (hrel.symm.trans hr) Bool.false_ne_true
  | negotiate =>
    refine request ?_ hc rfl ⟨fun _ => ?_, by simp⟩
    · exact hf.cleared.keep rfl (fun _ => hmap) (le_succ _)
    · intro q hq
      refine lt_succ_of_le (hf.generation_le q ?_)
      rw [show delegations _ = [] from rfl, append_nil] at hq
      exact mem_append_left _ hq

theorem unopened_candidate {pushed : List TransitionAction} {owned : Bool} (h : Kept emitted c)
    (hphase : c.status.phase = .preparing) (hcand : CandidateActions c pushed owned) :
    ∀ q ∈ emitted ++ delegations (c.actions ++ pushed), q.generation < c.status.generation := by
  rw [delegations_candidate hcand]
  exact h.unopened (.inl hphase)

/-- **Every outcome is kept**, if a map is announced properly. -/
theorem move {i : Input} (h : Kept emitted c) (hi : (Call.tell now i).informed)
    (hm : Move c now i c') : Kept emitted c' := by
  have hc := h.coherent.move hm
  cases hm with
  | stay => exact h
  | beginRefused | beginSame =>
    exact of_rest hc (h.filed.keep rfl (by simp [active]) (le_succ _)) rfl
  | beginStart want _ _ _ _ hrev _ hz =>
    have hke : delegations (c.actions ++ [plain (if want = .native then .prepareNative
        else .prepareHosted) (c.status.generation + 1)]) = delegations c.actions := by simp
    refine ⟨hc, h.filed.keep hke (fun _ => ?_) (le_succ _), fun _ => ?_, by simp⟩
    · exact ⟨hrev, pairwise_lt_sortUnique _, fun h => hz (mem_sortUnique.mp h)⟩
    · rw [hke]
      exact fun q hq => lt_succ_of_le (h.filed.generation_le q hq)
  | preparedAlone _ hphase _ hrel =>
    have hact := active_of_phase hphase
    have hpend := h.coherent.pending_of_preparing hphase
    refine ⟨hc, h.filed.keep (by simp) (fun _ => h.filed.map hact), by simp, ?_⟩
    rintro (hp | ⟨-, hr⟩)
    · exact absurd hpend hp
    · exact absurd (hrel.symm.trans hr) Bool.false_ne_true
  | preparedAwait _ hphase hcand =>
    have hact := active_of_phase hphase
    have hpend := h.coherent.pending_of_preparing hphase
    refine ⟨hc, h.filed.keep (delegations_candidate hcand) (fun _ => h.filed.map hact),
      fun _ => h.unopened_candidate hphase hcand, ?_⟩
    rintro (hp | ⟨hph, -⟩)
    · exact absurd hpend hp
    · cases hph
  | preparedDelegate _ hphase hcand =>
    have hact := active_of_phase hphase
    refine request ?_ hc rfl ⟨fun _ => h.unopened_candidate hphase hcand, by simp⟩
    exact h.filed.keep (delegations_candidate hcand) (fun _ => h.filed.map hact)
  | mapRecorded =>
    exact ⟨hc, h.filed.keep rfl h.filed.map, h.unopened, h.opened⟩
  | mapAwaited _ hphase =>
    have hact := active_of_phase hphase
    refine request ?_ hc rfl ⟨fun _ => h.unopened (.inr hphase), by simp⟩
    exact h.filed.keep rfl (fun _ => h.filed.map hact)
  | mapNoted =>
    obtain ⟨hrev, -, hz⟩ := hi
    refine ⟨hc, h.filed.keep rfl (fun _ => ?_), h.unopened, h.opened⟩
    exact ⟨hrev, pairwise_lt_sortUnique _, fun h => hz (mem_sortUnique.mp h)⟩
  | mapRestarts =>
    obtain ⟨hrev, -, hz⟩ := hi
    refine ⟨hc, h.filed.cleared.keep rfl (fun _ => ?_) (le_succ _), fun _ q hq => ?_, by simp⟩
    · exact ⟨hrev, pairwise_lt_sortUnique _, fun h => hz (mem_sortUnique.mp h)⟩
    · rw [show delegations _ = [] from rfl, append_nil] at hq
      exact lt_succ_of_le (h.filed.generation_le q (mem_append_left _ hq))
  | aborted =>
    exact of_rest hc (h.filed.cleared.keep rfl (by simp [active]) (le_succ _)) rfl
  | replyPrepared _ _ hacc hpend =>
    have hac := (pending_of_accepts hacc).1
    have hop := h.opened (.inl (by rw [hpend]; simp))
    cases ht : c.target with
    | native | hosted =>
      simp only [ht] at hc ⊢
      refine request ?_ hc rfl ⟨by simp, fun _ => hop⟩
      exact h.filed.keep rfl (fun _ => h.filed.map hac)
  | replyReleased _ _ hacc hpend =>
    have hac := (pending_of_accepts hacc).1
    have hop := h.opened (.inl (by rw [hpend]; simp))
    refine ⟨hc, h.filed.keep (by simp) (fun _ => h.filed.map hac), by simp, ?_⟩
    exact fun _ => by simpa using hop
  | replyReady _ _ hacc hpend =>
    have hop := h.opened (.inl (by rw [hpend]; simp))
    exact h.commitSelection (pending_of_accepts hacc).1 hc (fun _ => hop)
  | replyCommitted _ _ hacc =>
    have hac := (pending_of_accepts hacc).1
    exact ⟨hc, h.filed.keep rfl (fun _ => h.filed.map hac), by simp, by simp⟩
  | nativeReady _ hphase =>
    refine h.commitSelection (active_of_phase hphase) hc ?_
    rintro (hp | hr)
    · exact h.opened (.inl hp)
    · exact h.opened (.inr ⟨hphase, hr⟩)
  | relayLostIdle hact =>
    exact of_rest hc (h.filed.keep rfl h.filed.map) hact
  | relayLostPreparing hphase =>
    have hact := active_of_phase hphase
    refine ⟨hc, h.filed.keep (by simp) (fun _ => h.filed.map hact), fun _ => ?_, ?_⟩
    · simpa using h.unopened (.inl hphase)
    · rintro (hp | ⟨-, hr⟩)
      · exact absurd rfl hp
      · cases hr
  | relayLostSwitching hact =>
    exact ⟨hc, h.filed.keep (by simp) (fun _ => h.filed.map hact), by simp, by simp⟩
  | relayLostRollback hroll hm =>
    have hf : Filed emitted { c with relayAvailable := false } := { h.filed with }
    have hact := active_of_rollsBack hroll
    exact rollback hf hact hm
  | rolledBack _ hact _ _ hm => exact rollback h.filed hact hm
  | drained =>
    have hke : delegations c.finish.actions = delegations c.actions := by
      simp [finish, action]
    refine of_rest hc (h.filed.keep hke ?_) c.active_finish
    rw [active_finish]
    exact fun hf => absurd hf Bool.false_ne_true

end Kept

/-- **The discipline is kept over whole runs.** -/
theorem Journal.kept_of_reachable (h : Journal.system.Reachable j) :
    Kept j.emitted j.coordinator := by
  refine TransitionSystem.invariant (P := fun j => Kept j.emitted j.coordinator) ?_ ?_ h
  · rintro _ ⟨_, rfl⟩
    refine .of_rest (.of_rest rfl rfl rfl) ⟨.nil, by simp [new], by simp [new], ?_⟩ rfl
    exact fun hact => absurd hact (by simp [new, active])
  · rintro j e _ hj ⟨hi, rfl⟩
    cases e with
    | tell now i => exact hj.move hi (step_move j.coordinator now i)
    | takeActions =>
      have hsm : (j.emitted ++ delegations j.coordinator.actions) ++ delegations []
          = j.emitted ++ delegations j.coordinator.actions := append_nil _
      refine ⟨hj.coherent.call .takeActions, ⟨?_, ?_, ?_, hj.filed.map⟩, ?_, ?_⟩
      · exact hsm ▸ hj.filed.disciplined
      · exact hsm ▸ hj.filed.id_le
      · exact hsm ▸ hj.filed.generation_le
      · exact hsm ▸ hj.unopened
      · exact hsm ▸ hj.opened

/-! ## Replies -/

variable {r : DelegationReply} {c : TransitionCoordinator}

theorem accepts_of_pending_none (h : c.pending = none) : c.accepts r = false := by
  simp [accepts, h]

theorem accepts_request (h : r.requestId ≤ c.requestId) : (c.request now a).accepts r = false := by
  have hne : (r.requestId == c.requestId + 1) = false :=
    beq_eq_false_iff_ne.mpr (lt_succ_of_le h).ne
  simp only [accepts, request, hne, Bool.false_and, Bool.and_false]

theorem reply_of_not_answers (hc : Coherent c)
    (h : ∀ p, c.pending = some p → ¬ r.Answers p) : c.reply now r = c := by
  unfold reply
  cases hacc : c.accepts r with
  | false => rfl
  | true =>
    obtain ⟨-, hgen, p, hp, hid, hrev⟩ := pending_of_accepts hacc
    exact absurd ⟨hgen.trans (hc.pending_last p hp).1.symm, hid, hrev⟩ (h p hp)

theorem RollbackMove.accepts {c c' : TransitionCoordinator}
    (h : RollbackMove c now c') (hid : r.requestId ≤ c.requestId) : c'.accepts r = false := by
  cases h with
  | again | unowned | lostHosted | lostNative => exact accepts_of_pending_none rfl
  | negotiate => exact accepts_request hid

/-- **A reply takes effect at most once**: it is ignored, or no longer awaited
afterwards. -/
theorem reply_eq_or_accepts (hc : Coherent c) (r : DelegationReply) :
    (∀ now, c.reply now r = c) ∨ ∀ now, (c.reply now r).accepts r = false := by
  cases hacc : c.accepts r with
  | false => exact .inl fun now => by simp [reply, hacc]
  | true =>
    obtain ⟨hact, -, p, hp, hpid, -⟩ := pending_of_accepts hacc
    have hid : r.requestId ≤ c.requestId := (hpid.trans (hc.pending_last p hp).2.1).le
    have hpc : c.pending.map DelegationRequest.action = some p.action := by
      rw [hp, Option.map_some]
    unfold reply
    simp only [hacc, Bool.not_true, Bool.false_eq_true, if_false, hpc]
    by_cases hfl : r.status = .failed
    · simp only [if_pos hfl]
      exact .inr fun now => (rollback_move c now _ hact).accepts hid
    simp only [if_neg hfl]
    cases ha : p.action with
    | prepare =>
      cases hst : r.status with
      | prepared =>
        refine .inr fun now => ?_
        dsimp only
        split
        all_goals exact accepts_request hid
      | _ => exact .inl fun now => rfl
    | release =>
      cases hst : r.status with
      | released => exact .inr fun now => accepts_of_pending_none rfl
      | _ => exact .inl fun now => rfl
    | acquire =>
      cases hst : r.status with
      | ready =>
        refine .inr fun now => ?_
        have hrel : c.relayAvailable = true := by
          cases hrel : c.relayAvailable with
          | true => rfl
          | false =>
            have := hc.lost_target hact hrel
            rw [(hc.pending_target p hp).2 ha] at this
            cases this
        simp only [commitSelection, action, hrel, Bool.not_true, Bool.false_eq_true, if_false]
        exact accepts_request hid
      | _ => exact .inl fun now => rfl
    | commit =>
      cases hst : r.status with
      | committed => exact .inr fun now => accepts_of_pending_none rfl
      | _ => exact .inl fun now => rfl

theorem reply_reply (hc : Coherent c) (now now' : ℕ)
    (r : DelegationReply) : (c.reply now r).reply now' r = c.reply now r := by
  rcases reply_eq_or_accepts hc r with h | h
  · rw [h now, h now']
  · exact if_pos (by rw [h now]; rfl)

/-- **The coordinator's requests and the replies to them.** Over every run the
requests taken have increasing identifiers and generations that do not
decrease; each generation among them has exactly one *prepare*, which comes
first; each is about a map and about increasing regions other than 0. A lease
that receives any of them in order, whatever else happens to it, never answers
*stale generation*. A reply that does not name the awaited request changes
nothing, and a reply delivered twice has the effect it has once. -/
theorem requests_disciplined {j : Journal} (h : Journal.system.Reachable j) :
    j.emitted.Pairwise (fun q r => q.requestId < r.requestId ∧ q.generation ≤ r.generation)
      ∧ (∀ r ∈ j.emitted, ∃! p, p ∈ j.emitted ∧ p.generation = r.generation ∧ p.action = .prepare)
      ∧ (∀ p ∈ j.emitted, ∀ r ∈ j.emitted, p.generation = r.generation →
          p.action = .prepare → p.requestId ≤ r.requestId)
      ∧ (∀ r ∈ j.emitted, r.mapRevision ≠ 0 ∧ r.regions.Pairwise (· < ·) ∧ 0 ∉ r.regions)
      ∧ (∀ derps (calls : List DelegationLease.Call) sent,
          (DelegationLease.Call.requests calls).Sublist j.emitted →
          DelegationLease.replies { derps := derps } calls = .ok sent →
          ∀ p ∈ sent, p.failure ≠ .staleGeneration)
      ∧ (∀ now r, (∀ p, j.coordinator.pending = some p → ¬ r.Answers p) →
          j.coordinator.reply now r = j.coordinator)
      ∧ (∀ now now' r, (j.coordinator.reply now r).reply now' r = j.coordinator.reply now r) := by
  have hk := Journal.kept_of_reachable h
  have hd : Disciplined j.emitted := hk.filed.disciplined.of_append
  refine ⟨hd.pairwise_follows, ?_, ?_, hd.about, ?_, ?_, ?_⟩
  · intro r hr
    obtain ⟨p, hp, hact, hgen⟩ := hd.exists_prepare r hr
    refine ⟨p, ⟨hp, hgen, hact⟩, ?_⟩
    -- of two preparations of one generation each would come before the other
    rintro q ⟨hq, hqg, hqc⟩
    rcases hd.prepare_first q hq p hp hqc (hqg.trans hgen.symm) with heq | hlt
    · exact heq
    rcases hd.prepare_first p hp q hq hact (hgen.trans hqg.symm) with heq | hgt
    · exact heq.symm
    · exact absurd hlt hgt.asymm
  · intro p hp r hr hgen hact
    rcases hd.prepare_first p hp r hr hact hgen with rfl | hlt
    · exact le_rfl
    · exact hlt.le
  · intro _ _ _ hsub hsn
    refine DelegationLease.replies_not_stale ⟨by simp, by simp⟩ ?_ (by simp) hsn
    exact hd.pairwise_follows.sublist hsub
  · exact fun now r hr => reply_of_not_answers hk.coherent hr
  · exact fun now now' r => reply_reply hk.coherent now now' r

def releasing : Journal :=
  [Call.tell 0 (.begin .native 7 [2, 1, 2] true), .tell 0 (.mapApplied 7),
    .tell 1 (.prepared 1 true), .takeActions, .tell 2 (.mapChanged 8 [3, 1]),
    .tell 3 (.mapApplied 8), .takeActions, .tell 4 (.reply ⟨2, 2, 8, .prepared, .none⟩),
    .takeActions].foldl .call { coordinator := new .hosted }

theorem releasing_disciplined :
    releasing.emitted = [⟨1, 1, 7, .prepare, [1, 2]⟩, ⟨2, 2, 8, .prepare, [1, 3]⟩,
        ⟨2, 3, 8, .release, [1, 3]⟩]
      ∧ releasing.emitted.Pairwise
        (fun q r => q.requestId < r.requestId ∧ q.generation ≤ r.generation)
      ∧ (releasing.coordinator.reply 5 ⟨2, 3, 8, .released, .none⟩).reply 6
          ⟨2, 3, 8, .released, .none⟩
        = releasing.coordinator.reply 5 ⟨2, 3, 8, .released, .none⟩ := by
  have hre : Journal.system.Reachable releasing :=
    Journal.reachable_foldl_call (.init ⟨.hosted, rfl⟩) (by simp [Call.informed])
  obtain ⟨hpr, -, -, -, -, -, htw⟩ := requests_disciplined hre
  exact ⟨by decide, hpr, htw 5 6 _⟩

end TransitionCoordinator

end Tailgate
