import Tailgate.QueuedEffects
import Tailgate.SwitchingNode
import Tailgate.TransitionInvariants

/-!
# The selected path and the reported mode

When no switch is under way, the actions that are left lead from the path that a
switching node has selected to the mode it reports. This is so in runs in which
no switch is dropped or begun before its queue is carried out, and no exception
has cut that short.
-/

namespace Tailgate

open Procedure QueuedEffects List

namespace TransitionCoordinator

/-! ## What actions select -/

/-- The path packets are on once an action has been carried out. Activating
the native path selects it when the switch has `failed`. -/
def selects (failed : Bool) (selected : NodeMode) (a : TransitionAction) : NodeMode :=
  match a.kind with
  | .selectNative => .native
  | .selectHosted => .hosted
  | .recoverHosted => .hosted
  | .activateNative => if failed then .native else selected
  | _ => selected

/-- An action after which packets may be on either path, for it is not known
whether the switch will have failed. -/
def MaySelect (selected : NodeMode) (a : TransitionAction) (selected' : NodeMode) : Prop :=
  ∃ failed, selected' = selects failed selected a

def neutral (a : TransitionAction) : Bool :=
  match a.kind with
  | .selectNative | .selectHosted | .recoverHosted | .activateNative => false
  | _ => true

variable {failed : Bool}

theorem selects_of_neutral {selected : NodeMode} {a : TransitionAction}
    (h : neutral a = true) : selects failed selected a = selected := by
  unfold neutral at h
  unfold selects
  cases hk : a.kind <;> simp_all

variable {as : List TransitionAction}

theorem foldl_selects_of_neutral {selected : NodeMode}
    (h : ∀ a ∈ as, neutral a = true) : as.foldl (selects failed) selected = selected :=
  foldlRecOn (motive := (· = selected)) as _ rfl fun _ hs a ha =>
    (selects_of_neutral (h a ha)).trans hs

theorem ends_of_neutral {P : NodeMode → Prop} {selected : NodeMode}
    (hn : ∀ a ∈ as, neutral a = true) (h : P selected) : Ends P MaySelect selected as := by
  induction as with
  | nil => exact h
  | cons a _ ih =>
    rintro _ ⟨_, rfl⟩
    rw [selects_of_neutral (hn a mem_cons_self)]
    exact ih fun b hb => hn b (mem_cons_of_mem _ hb)

abbrev selecting (mode : NodeMode) (generation : ℕ) : TransitionAction :=
  plain (if mode = .native then .selectNative else .selectHosted) generation

theorem ends_selecting {selected mode : NodeMode} {gen : ℕ}
    {tail : List TransitionAction} (hn : ∀ a ∈ tail, neutral a = true) :
    Ends (· = mode) MaySelect selected (as ++ selecting mode gen :: tail) := by
  rw [ends_append]
  refine ends_of_forall fun t => ?_
  rintro _ ⟨failed, rfl⟩
  have hsel : selects failed t (selecting mode gen) = mode := by
    cases mode <;> rfl
  rw [hsel]
  exact ends_of_neutral hn rfl

/-- What choosing a path queues: the selection, and the commitment if there
is a relay to hear of it. -/
theorem commitSelection_queue (c : TransitionCoordinator) (now : ℕ) (mode : NodeMode) :
    ∃ tail, (c.commitSelection now mode).actions
        = c.actions ++ selecting mode c.status.generation :: tail
      ∧ ∀ a ∈ tail, a.generation = c.status.generation ∧ neutral a = true := by
  unfold commitSelection
  cases hrel : c.relayAvailable with
  | false => exact ⟨[], rfl, by simp⟩
  | true =>
    refine ⟨[_], append_assoc _ _ _, ?_⟩
    intro _ ha
    rw [mem_singleton.mp ha]
    exact ⟨rfl, rfl⟩

theorem commitSelection_status (c : TransitionCoordinator) (now : ℕ) (mode : NodeMode) :
    ((c.commitSelection now mode).status.phase = .committing
        ∨ (c.commitSelection now mode).status.phase = .draining)
      ∧ (c.commitSelection now mode).status.effective = mode
      ∧ (c.commitSelection now mode).status.generation = c.status.generation
      ∧ (c.commitSelection now mode).status.rollingBack = c.status.rollingBack
      ∧ (c.commitSelection now mode).ownershipChanged = c.ownershipChanged := by
  unfold commitSelection
  cases hrel : c.relayAvailable with
  | false => exact ⟨.inr rfl, rfl, rfl, rfl, rfl⟩
  | true => exact ⟨.inl rfl, rfl, rfl, rfl, rfl⟩

/-! ## The agreement -/

/-- **The path selected and the mode reported.** `taken` are the actions that
have been taken and not come to yet. -/
structure Agrees (taken : List TransitionAction) (c : TransitionCoordinator)
    (selected : NodeMode) : Prop where
  coherent : Coherent c
  /-- No action is of a generation to come. -/
  generation_le : ∀ a ∈ taken ++ c.actions, a.generation ≤ c.status.generation
  /-- A path is activated only after ownership has been touched. -/
  owned : c.status.phase = .activating ∨ c.status.phase = .committing
    ∨ c.status.phase = .draining → c.ownershipChanged = true ∨ c.status.rollingBack = true
  /-- At rest, what is left leads to the mode reported. -/
  rest : c.active = false →
    (c.due taken).foldl (selects (c.status.phase == .failed)) selected = c.status.effective
  /-- Once a path is chosen, what is left leads there whatever happens. -/
  chosen : c.status.phase = .committing ∨ c.status.phase = .draining →
    Ends (· = c.status.effective) MaySelect selected (c.due taken)
  /-- Until ownership is touched, nothing is selected. -/
  untouched : c.active = true → c.status.rollingBack = false → c.ownershipChanged = false →
    selected = c.status.effective ∧ ∀ a ∈ c.due taken, neutral a = true

namespace Agrees

variable {taken pushed : List TransitionAction} {c c' : TransitionCoordinator} {selected : NodeMode}

theorem phase_ne_of_inactive (hact : c.active = false) {p : TransitionPhase}
    (hi : p ≠ .idle := by decide) (hf : p ≠ .failed := by decide) : c.status.phase ≠ p := by
  intro h
  rw [active_of_phase h hi hf] at hact
  cases hact

theorem of_rest (hc : Coherent c)
    (hle : ∀ a ∈ taken ++ c.actions, a.generation ≤ c.status.generation)
    (hact : c.active = false)
    (hrs : (c.due taken).foldl (selects (c.status.phase == .failed)) selected
      = c.status.effective) : Agrees taken c selected where
  coherent := hc
  generation_le := hle
  owned := by
    rintro (h | h | h)
    all_goals exact absurd h (phase_ne_of_inactive hact)
  rest := fun _ => hrs
  chosen := by
    rintro (h | h)
    all_goals exact absurd h (phase_ne_of_inactive hact)
  untouched := fun h => by rw [hact] at h; cases h

theorem of_active (hc : Coherent c)
    (hle : ∀ a ∈ taken ++ c.actions, a.generation ≤ c.status.generation)
    (hact : c.active = true)
    (hcom : c.status.phase ≠ .committing) (hdr : c.status.phase ≠ .draining)
    (how : c.status.phase = .activating → c.ownershipChanged = true ∨ c.status.rollingBack = true)
    (hun : c.status.rollingBack = false → c.ownershipChanged = false →
      selected = c.status.effective ∧ ∀ a ∈ c.due taken, neutral a = true) :
    Agrees taken c selected where
  coherent := hc
  generation_le := hle
  owned := by
    rintro (h | h | h)
    · exact how h
    · exact absurd h hcom
    · exact absurd h hdr
  rest := fun h => by rw [hact] at h; cases h
  chosen := by
    rintro (h | h)
    · exact absurd h hcom
    · exact absurd h hdr
  untouched := fun _ => hun

/-- Past the point where ownership is touched, with no path chosen, nothing
is asked of the queue. -/
theorem of_owned (hc : Coherent c)
    (hle : ∀ a ∈ taken ++ c.actions, a.generation ≤ c.status.generation)
    (how : c.ownershipChanged = true ∨ c.status.rollingBack = true := by exact .inl rfl)
    (hact : c.active = true := by rfl)
    (hcom : c.status.phase ≠ .committing := by
      simp [prepareDelegation, TransitionCoordinator.request, awaitMap])
    (hdr : c.status.phase ≠ .draining := by
      simp [prepareDelegation, TransitionCoordinator.request, awaitMap]) :
    Agrees taken c selected := by
  refine of_active hc hle hact hcom hdr (fun _ => how) fun hrb hown => ?_
  rcases how with h | h
  · rw [hown] at h; cases h
  · rw [hrb] at h; cases h

theorem congr (h : Agrees taken c selected) (hc : Coherent c') (hst : c'.status = c.status)
    (hown : c'.ownershipChanged = c.ownershipChanged) (has : c'.actions = c.actions) :
    Agrees taken c' selected := by
  have hdue : c'.due taken = c.due taken := by
    unfold due
    rw [hst, has]
  have hac : c'.active = c.active := by
    unfold active
    rw [hst]
  constructor
  case coherent => exact hc
  case generation_le => rw [hst, has]; exact h.generation_le
  case owned => rw [hst, hown]; exact h.owned
  case rest => rw [hst, hdue, hac]; exact h.rest
  case chosen => rw [hst, hdue]; exact h.chosen
  case untouched => rw [hst, hdue, hac, hown]; exact h.untouched

theorem push (h : Agrees taken c selected) (hc : Coherent c') (hact : c.active = true)
    (hac' : c'.active = true) (heff : c'.status.effective = c.status.effective)
    (hrb : c'.status.rollingBack = c.status.rollingBack)
    (hown : c'.ownershipChanged = c.ownershipChanged)
    (hq : Pushes c c' pushed)
    (hn : ∀ a ∈ pushed, neutral a = true)
    (hcom : c'.status.phase ≠ .committing) (hdr : c'.status.phase ≠ .draining)
    (how : c'.status.phase = .activating →
      c'.ownershipChanged = true ∨ c'.status.rollingBack = true) :
    Agrees taken c' selected := by
  refine of_active hc (generation_le_of h.generation_le hq.1.ge (.inl hq.2) hq.3) hac' hcom hdr
    how ?_
  intro hrb' how'
  rw [hrb] at hrb'
  rw [hown] at how'
  obtain ⟨hsel, hnt⟩ := h.untouched hact hrb' how'
  refine ⟨hsel.trans heff.symm, fun a ha => ?_⟩
  rw [due_push hq] at ha
  rcases mem_append.mp ha with ha | ha
  · exact hnt a ha
  · exact hn a ha

variable {now : ℕ}

theorem request {c₁ : TransitionCoordinator} {a : DelegationAction}
    (h : Agrees taken c selected) (hc : Coherent (c₁.request now a)) (hact : c.active = true)
    (heff : c₁.status.effective = c.status.effective)
    (hrb : c₁.status.rollingBack = c.status.rollingBack)
    (hown : c₁.ownershipChanged = c.ownershipChanged)
    (hgen : c₁.status.generation = c.status.generation) (has : c₁.actions = c.actions)
    (hphase : c₁.status.phase = awaitingPhase a) (hcm : a ≠ .commit)
    (how : a = .acquire → c₁.ownershipChanged = true ∨ c₁.status.rollingBack = true) :
    Agrees taken (c₁.request now a) selected := by
  have hac : c₁.active = true := by
    refine active_of_phase hphase ?_ ?_
    all_goals cases a <;> decide
  have hqu : (c₁.request now a).actions = c.actions ++ [c₁.asking a] := by
    rw [request_actions, has]
  refine h.push hc hact hac heff hrb hown ⟨hgen, hqu, by simp; rfl⟩ (by simp [neutral]) ?_ ?_ ?_
  · show c₁.status.phase ≠ .committing
    rw [hphase]
    cases a <;> first | decide | exact absurd rfl hcm
  · show c₁.status.phase ≠ .draining
    rw [hphase]
    cases a <;> decide
  · show c₁.status.phase = .activating → _
    rw [hphase]
    intro ha
    refine how ?_
    cases a <;> first | rfl | cases ha

/-- **A path is chosen**: wherever the queue led, it now leads there. -/
theorem commitSelection {mode : NodeMode} (h : Agrees taken c selected)
    (hc : Coherent (c.commitSelection now mode)) (hphase : c.status.phase = .activating) :
    Agrees taken (c.commitSelection now mode) selected := by
  obtain ⟨tail, has, htl⟩ := commitSelection_queue c now mode
  obtain ⟨hph', heff, hgen, hrb, hown⟩ := commitSelection_status c now mode
  generalize c.commitSelection now mode = c' at *
  have hp : ∀ a ∈ selecting mode c.status.generation :: tail,
      a.generation = c'.status.generation := by
    intro a ha
    rcases mem_cons.mp ha with rfl | ha
    · exact hgen.symm
    · exact (htl a ha).1.trans hgen.symm
  have how : c'.ownershipChanged = true ∨ c'.status.rollingBack = true := by
    rw [hown, hrb]
    exact h.owned (.inl hphase)
  constructor
  case coherent => exact hc
  case generation_le => exact generation_le_of h.generation_le hgen.ge (.inl has) hp
  case owned => exact fun _ => how
  case rest =>
    intro hact
    rcases hph' with hph' | hph'
    all_goals exact absurd hph' (phase_ne_of_inactive hact)
  case chosen =>
    intro _
    rw [due_push ⟨hgen, has, hp⟩, heff]
    exact ends_selecting fun a ha => (htl a ha).2
  case untouched =>
    intro _ hrb' how'
    rw [hrb', how'] at how
    simp at how

/-- A switch ends with its queue replaced: what had been taken is still to be
carried out. -/
theorem clear (h : Agrees taken c selected) (hc : Coherent c') (hact : c'.active = false)
    (hq : Clears c c' pushed)
    (hend : pushed.foldl (selects (c'.status.phase == .failed))
        ((taken.filter fun a => a.generation == c.status.generation).foldl
          (selects (c'.status.phase == .failed)) selected) = c'.status.effective) :
    Agrees taken c' selected := by
  refine of_rest hc (generation_le_of h.generation_le hq.1.ge (.inr hq.2) hq.3) hact ?_
  rw [due_clear hq, foldl_append]
  exact hend

/-- A switch ends and its generation with it: what had been taken is
skipped. -/
theorem renew (h : Agrees taken c selected) (hc : Coherent c') (hact : c'.active = false)
    (hq : Renews c c' pushed)
    (hend : pushed.foldl (selects (c'.status.phase == .failed)) selected = c'.status.effective) :
    Agrees taken c' selected := by
  refine of_rest hc (generation_le_of h.generation_le hq.1.le hq.2 hq.3) hact ?_
  rw [due_renew h.generation_le hq]
  exact hend

/-- **A switch is undone**, whether or not the relay is available. -/
theorem rollback {b : Bool} (h : Agrees taken c selected) (hact : c.active = true)
    (hm : RollbackMove { c with relayAvailable := b } now c') : Agrees taken c' selected := by
  have hc' := Coherent.rollback hm
  cases hm with
  | again =>
    -- the restored path is selected last
    refine h.clear hc' rfl ⟨rfl, rfl, by simp⟩ ?_
    cases c.original <;> rfl
  | unowned _ hrb hown =>
    -- nothing has been selected, and nothing will be
    obtain ⟨hsel, hn⟩ := h.untouched hact hrb hown
    have htn : ∀ a ∈ taken.filter fun a => a.generation == c.status.generation,
        neutral a = true := by
      intro a ha
      refine hn a ?_
      unfold due
      rw [filter_append]
      exact mem_append_left _ ha
    refine h.clear hc' rfl ⟨rfl, rfl, by simp⟩ ?_
    rw [foldl_selects_of_neutral htn]
    show selects true selected _ = c.status.effective
    rw [selects_of_neutral]
    · exact hsel
    · cases c.status.desired <;> rfl
  | lostHosted _ _ _ _ horig =>
    exact h.renew hc' rfl ⟨Nat.lt_succ_self _, .inr rfl, by simp⟩ horig.symm
  | lostNative _ _ hown =>
    exact of_owned hc' (generation_le_of h.generation_le (Nat.le_succ _) (.inr rfl) (by simp))
      (.inl hown)
  | negotiate _ _ hown =>
    refine of_owned hc' (generation_le_of h.generation_le (Nat.le_succ _) (.inr rfl) ?_) (.inl hown)
    intro _ ha
    rcases mem_append.mp ha with ha | ha
    all_goals rw [mem_singleton.mp ha]; rfl

end Agrees

/-- **When a coordinator may be told something**: a switch begins once the
last one has been carried out, and is dropped only while packets are on the
path of the mode reported. -/
def Opportune (taken : List TransitionAction) (c : TransitionCoordinator) (selected : NodeMode) :
    Input → Prop
  | .begin _ _ _ _ => c.active = false → taken = [] ∧ c.actions = []
  | .abort _ => c.active = true → selected = c.status.effective
  | _ => True

namespace Agrees

variable {taken : List TransitionAction} {c c' : TransitionCoordinator} {selected : NodeMode}

theorem eq_of_due_nil (h : Agrees taken c selected) (hact : c.active = false)
    (htn : taken = []) (has : c.actions = []) : selected = c.status.effective := by
  have hrs := h.rest hact
  unfold due at hrs
  rw [htn, has] at hrs
  exact hrs

variable {now : ℕ} {i : Input} {a : TransitionAction}

/-- **Every outcome keeps the agreement**, where the coordinator may be told
what it is told. -/
theorem move (h : Agrees taken c selected)
    (hok : Opportune taken c selected i) (hm : Move c now i c') : Agrees taken c' selected := by
  have hc' := h.coherent.move hm
  cases hm with
  | stay => exact h
  | beginRefused _ _ _ hact | beginSame _ _ _ hact =>
    obtain ⟨htn, has⟩ := hok hact
    exact h.renew hc' rfl ⟨Nat.lt_succ_self _, .inr has, by simp⟩ (h.eq_of_due_nil hact htn has)
  | beginStart want _ _ hact =>
    obtain ⟨htn, has⟩ := hok hact
    have hp : ∀ a ∈ [plain (if want = .native then .prepareNative else .prepareHosted)
        (c.status.generation + 1)], a.generation = c.status.generation + 1 := by simp
    refine of_active hc' (generation_le_of h.generation_le (Nat.le_succ _) (.inl rfl) hp) rfl
      (by simp) (by simp) (by simp) fun _ _ => ⟨h.eq_of_due_nil hact htn has, fun a ha => ?_⟩
    rw [due_renew h.generation_le ⟨Nat.lt_succ_self _, .inl rfl, hp⟩] at ha
    rw [mem_singleton.mp ha]
    cases want <;> rfl
  | preparedAlone | replyReleased | relayLostSwitching =>
    exact of_owned hc' (generation_le_of h.generation_le le_rfl (.inl rfl) (by simp))
  | preparedAwait _ hphase hcand =>
    have hact := active_of_phase hphase
    cases hcand with
    | native =>
      exact h.push hc' hact rfl rfl rfl rfl ⟨rfl, rfl, by simp⟩ (by simp) (by simp [awaitMap])
        (by simp [awaitMap]) (by simp [awaitMap])
    | hosted =>
      exact of_owned hc' (generation_le_of h.generation_le le_rfl (.inl rfl) (by simp [awaitMap]))
  | preparedDelegate _ hphase hcand =>
    have hact := active_of_phase hphase
    cases hcand with
    | native =>
      exact h.request hc' hact rfl rfl rfl rfl (append_nil _) rfl (by simp) (by simp)
    | hosted =>
      refine of_owned hc' (generation_le_of h.generation_le le_rfl (.inl (append_assoc _ _ _)) ?_)
      simp [prepareDelegation, TransitionCoordinator.request, awaitMap]
  | mapRecorded | mapNoted | relayLostIdle => exact h.congr hc' rfl rfl rfl
  | mapAwaited _ hphase =>
    have hact := active_of_phase hphase
    exact h.request hc' hact rfl rfl rfl rfl rfl rfl (by simp) (by simp)
  | mapRestarts _ _ hact =>
    have hp : ∀ a ∈ [plain .suspendNative (c.status.generation + 1)],
        a.generation = c.status.generation + 1 := by simp
    refine of_active hc' (generation_le_of h.generation_le (Nat.le_succ _) (.inr rfl) hp) rfl
      (by simp) (by simp) (by simp) fun hrb hown => ⟨(h.untouched hact hrb hown).1, fun a ha => ?_⟩
    rw [due_renew h.generation_le ⟨Nat.lt_succ_self _, .inr rfl, hp⟩] at ha
    rw [mem_singleton.mp ha]
    rfl
  | aborted _ hact =>
    exact h.renew hc' rfl ⟨Nat.lt_succ_self _, .inr rfl, by simp⟩ (hok hact)
  | replyPrepared _ _ _ hpend hpc =>
    have hphase := h.coherent.phase_of_pending hpend hpc
    have hact := active_of_phase hphase
    refine h.request hc' hact rfl rfl rfl rfl rfl ?_ ?_ ?_
    · cases c.target <;> rfl
    · cases c.target <;> decide
    · intro hacq
      have htgt : c.target = .hosted := by
        cases ht : c.target with
        | native => rw [ht] at hacq; cases hacq
        | hosted => rfl
      cases hrb : c.status.rollingBack with
      | true => exact .inr rfl
      | false =>
        have hd : c.status.desired = .hosted := by simpa [target, hrb] using htgt
        exact .inl (h.coherent.owned hact (by rw [hphase]; decide) hd)
  | replyReady _ _ _ hpend hpc =>
    refine h.commitSelection hc' ?_
    have hphase := h.coherent.phase_of_pending hpend hpc
    exact hphase
  | replyCommitted _ _ _ hpend hpc =>
    have hphase := h.coherent.phase_of_pending hpend hpc
    have hact := active_of_phase hphase
    exact { h with
      coherent := hc'
      owned := fun _ => h.owned (.inr (.inl hphase))
      rest := by intro h; cases h
      chosen := fun _ => h.chosen (.inl hphase)
      untouched := fun _ => h.untouched hact }
  | nativeReady _ hphase => exact h.commitSelection hc' hphase
  | relayLostPreparing hphase =>
    have hact := active_of_phase hphase
    refine h.push hc' hact hact rfl rfl rfl ⟨rfl, rfl, by simp⟩ (by simp [neutral]) ?_ ?_ ?_
    · rw [hphase]; decide
    · rw [hphase]; decide
    · rw [hphase]; intro h; cases h
  | relayLostRollback hroll hm => exact h.rollback (active_of_rollsBack hroll) hm
  | rolledBack _ hact _ _ hm => exact h.rollback (b := c.relayAvailable) hact hm
  | drained hphase =>
    have hgen : c.finish.status.generation = c.status.generation := rfl
    have hp : ∀ a ∈ [plain (if c.status.effective = .native then .retireHosted
        else .retireNative) c.status.generation], a.generation = c.status.generation := by simp
    refine of_rest hc' (generation_le_of h.generation_le hgen.ge (.inl rfl) hp) c.active_finish ?_
    have hdue : c.finish.due taken = c.due taken ++ _ := due_push ⟨hgen, rfl, hp⟩
    rw [hdue, foldl_append]
    have hend := (h.chosen (.inr hphase)).foldl
      (f := selects (c.finish.status.phase == .failed)) fun _ _ => ⟨_, rfl⟩
    rw [hend]
    show selects _ _ _ = c.status.effective
    cases c.status.effective <;> rfl

theorem step (h : Agrees taken c selected)
    (hok : Opportune taken c selected i) : Agrees taken (c.step now i) selected :=
  h.move hok (step_move c now i)

theorem carry (h : Agrees (a :: taken) c selected) (hgen : a.generation = c.status.generation) :
    Agrees taken c (selects (c.status.phase == .failed) selected a) := by
  have hdue : c.due (a :: taken) = a :: c.due taken := by
    unfold due
    rw [cons_append, filter_cons_of_pos]
    exact beq_iff_eq.mpr hgen
  refine { h with
    generation_le := fun b hb => h.generation_le b (mem_cons_of_mem _ hb)
    rest := fun hact => ?_
    chosen := fun hphase => ?_
    untouched := fun hact hrb hown => ?_ }
  · have hrs := h.rest hact
    rw [hdue] at hrs
    exact hrs
  · have hcn := h.chosen hphase
    rw [hdue] at hcn
    exact hcn _ ⟨_, rfl⟩
  · obtain ⟨hsel, hn⟩ := h.untouched hact hrb hown
    rw [hdue] at hn
    rw [selects_of_neutral (hn a mem_cons_self)]
    exact ⟨hsel, fun b hb => hn b (mem_cons_of_mem _ hb)⟩

theorem skip (h : Agrees (a :: taken) c selected)
    (hgen : a.generation ≠ c.status.generation) : Agrees taken c selected := by
  have hdue : c.due (a :: taken) = c.due taken := by
    unfold due
    rw [cons_append, filter_cons_of_neg]
    simpa using hgen
  exact { h with
    generation_le := fun b hb => h.generation_le b (mem_cons_of_mem _ hb)
    rest := hdue ▸ h.rest
    chosen := hdue ▸ h.chosen
    untouched := hdue ▸ h.untouched }

theorem take (h : Agrees [] c selected) : Agrees c.actions c.takeActions.2 selected := by
  have hdue : c.takeActions.2.due c.actions = c.due [] := by
    show (c.actions ++ []).filter _ = _
    rw [append_nil]
    rfl
  refine { h with
    coherent := { h.coherent with }
    generation_le := fun a ha => h.generation_le a ?_
    rest := by rw [hdue]; exact h.rest
    chosen := by rw [hdue]; exact h.chosen
    untouched := by rw [hdue]; exact h.untouched }
  rwa [show c.takeActions.2.actions = [] from rfl, append_nil] at ha

end Agrees

end TransitionCoordinator

/-! ## The methods of the node -/

namespace SwitchingNode

open TransitionCoordinator

structure View where
  transition : TransitionCoordinator
  selected : NodeMode
  interrupted : Bool

variable (n : SwitchingNode)

def view : View := ⟨n.transition, n.selected, n.interrupted⟩

/-- Unless actions have been lost to an exception, the path selected and the
mode reported agree. -/
def Faithful (taken : List TransitionAction) (v : View) : Prop :=
  v.interrupted = false → Agrees taken v.transition v.selected

abbrev Aside {α : Type} (x : Proc α) : Prop :=
  ∀ (P : View → Prop) (E : Fault → Switching → Prop), (∀ f s, P s.node.view → E f s) →
    Keeps (fun s => P s.node.view) E x

variable {α : Type}

theorem aside_drawn (x : EStateM Fault World α) : Aside (drawn x) :=
  fun _ _ hE => .frame x (fun _ _ hs => hs) hE

theorem aside_onNative (x : NativeNode.Proc α) : Aside (onNative x) :=
  fun _ _ hE => .frame x (fun _ _ hs => hs) hE

theorem aside_onHosted (x : HostedNode.Proc α) : Aside (onHosted x) :=
  fun _ _ hE => .frame x (fun _ _ hs => hs) hE

theorem aside_update {f : SwitchingNode → SwitchingNode} (hf : ∀ n, (f n).view = n.view) :
    Aside (update f) := by
  intro _ _ _
  refine .modify fun s hs => ?_
  rw [hf]
  exact hs

variable {x : Proc α}

theorem Aside.bind {β : Type} {f : α → Proc β} (hx : Aside x)
    (hf : ∀ a, Aside (f a)) : Aside (x >>= f) :=
  fun P E hE => .bind (hx P E hE) fun a => hf a P E hE

theorem Aside.ite {c : Prop} [Decidable c] {y : Proc α} (hx : Aside x)
    (hy : Aside y) : Aside (if c then x else y) :=
  fun P E hE => .ite (hx P E hE) (hy P E hE)

theorem aside_pure (a : α) : Aside (pure a : Proc α) := fun _ _ _ => .pure a

theorem aside_get : Aside (get : Proc Switching) := fun _ _ _ => .get

theorem aside_dropRelay : Aside dropRelay := aside_update fun _ => rfl

theorem aside_prepareRelay (opts : ConnectionOptions) : Aside (prepareRelay opts) := by
  exact .bind (aside_drawn _) fun now => aside_update fun _ => rfl

/-! ### Carrying out actions -/

section CarryingOut

variable {taken : List TransitionAction} {E : Fault → Switching → Prop}

theorem tell_faithful (hE : ∀ f s, Faithful taken s.node.view → E f s) {input : Input}
    (hok : ∀ c selected, Opportune taken c selected input) :
    Keeps (fun s => Faithful taken s.node.view) E (tell input) := by
  refine .bind (aside_drawn _ _ _ hE) fun now => .modify fun s hs hint => ?_
  exact (hs hint).step (hok _ _)

def Ready (a : TransitionAction) (taken : List TransitionAction) (v : View) : Prop :=
  a.generation = v.transition.status.generation ∧ Faithful (a :: taken) v

def ReadyIn (phase : TransitionPhase) (a : TransitionAction) (taken : List TransitionAction)
    (v : View) : Prop :=
  Ready a taken v ∧ v.transition.status.phase = phase

variable {a : TransitionAction}

theorem Ready.faithful {v : View} (h : Ready a taken v)
    (hn : neutral a = true) : Faithful taken v := by
  intro hint
  have hc := (h.2 hint).carry h.1
  rw [selects_of_neutral hn] at hc
  exact hc

theorem select_faithful {mode : NodeMode} {P : View → Prop} (hP : ∀ v, P v → Ready a taken v)
    (hsel : ∀ v, P v → selects (v.transition.status.phase == .failed) v.selected a = mode) :
    Meets (fun s => P s.node.view) (select mode) (fun _ s => Faithful taken s.node.view) E := by
  refine .modify fun s hs hint => ?_
  have hr := hP _ hs
  have hc := (hr.2 hint).carry hr.1
  have hm : selects (s.node.transition.status.phase == .failed) s.node.selected a = mode :=
    hsel _ hs
  rw [← hm]
  exact hc

theorem activateHosted_faithful (hE : ∀ f s, Faithful taken s.node.view → E f s) :
    Keeps (fun s => Faithful taken s.node.view) E activateHosted := by
  refine .bind .get fun s => ?_
  cases s.node.preparedRelay with
  | none => exact tell_faithful hE fun _ _ => trivial
  | some =>
    exact .bind (aside_onHosted _ _ _ hE) fun _ => aside_update (fun _ => rfl) _ _ hE

theorem relayUnreachable_faithful (hE : ∀ f s, Faithful taken s.node.view → E f s)
    (fault : Fault) : Keeps (fun s => Faithful taken s.node.view) E (relayUnreachable fault) := by
  cases fault with
  | system => exact tell_faithful hE fun _ _ => trivial
  | _ => exact .throw fun s hs => hE _ s hs

/-- **Carrying out an action** does what the action was counted on to do. -/
theorem carryOut_faithful (a : TransitionAction)
    (hE : ∀ f s, Ready a taken s.node.view ∨ Faithful taken s.node.view → E f s) :
    Meets (fun s => Ready a taken s.node.view) (carryOut a)
      (fun _ s => Faithful taken s.node.view) E := by
  have hEf : ∀ f s, Faithful taken s.node.view → E f s := fun f s hs => hE f s (.inr hs)
  refine .bind (Q := fun s' s => ReadyIn s'.node.transition.status.phase a taken s.node.view)
    (.get fun s hs => ⟨hs, rfl⟩) fun s' => ?_
  -- an action that selects nothing
  have hnt {x : Proc Unit} (hn : neutral a = true)
      (hx : Keeps (fun s => Faithful taken s.node.view) E x) :
      Meets (fun s => ReadyIn s'.node.transition.status.phase a taken s.node.view) x
        (fun _ s => Faithful taken s.node.view) E :=
    hx.pre fun s hs => hs.1.faithful hn
  -- an action that selects a path
  have hsl {mode : NodeMode} (hsel : ∀ failed selected, selects failed selected a = mode) :
      Meets (fun s => ReadyIn s'.node.transition.status.phase a taken s.node.view) (select mode)
        (fun _ s => Faithful taken s.node.view) E :=
    select_faithful (P := ReadyIn _ a taken) (fun _ hv => hv.1) fun _ _ => hsel _ _
  have hqt {x : Proc Unit} (hn : neutral a = true) (hx : Aside x) :=
    hnt hn (hx (Faithful taken) E hEf)
  have has {x : Proc Unit} (hx : Aside x) :=
    hx (ReadyIn s'.node.transition.status.phase a taken) E fun f s hs => hE f s (.inl hs.1)
  cases hk : a.kind with
  | prepareNative =>
    exact hqt (by simp [neutral, hk]) (.bind (aside_onHosted _) fun _ =>
      .bind (aside_onNative _) fun _ => aside_update fun _ => rfl)
  | prepareHosted =>
    exact hqt (by simp [neutral, hk]) (.bind (aside_prepareRelay _) fun _ =>
      aside_update fun _ => rfl)
  | suspendNative => exact hqt (by simp [neutral, hk]) (aside_onNative _)
  | activateNative =>
    refine .bind (has (aside_onNative _)) fun _ => .ite (fun hf => ?_) fun hf => ?_
    · refine select_faithful (P := ReadyIn _ a taken) (fun _ hv => hv.1) ?_
      intro _ hv
      rw [hv.2, hf]
      simp [selects, hk]
    · refine .pure fun s hs hint => ?_
      have hc := (hs.1.2 hint).carry hs.1.1
      have hphase : s.node.view.transition.status.phase = s'.node.transition.status.phase := hs.2
      rw [hphase] at hc
      simpa [selects, hk, hf] using hc
  | activateHosted => exact hnt (by simp [neutral, hk]) (activateHosted_faithful hEf)
  | selectNative | selectHosted => exact hsl fun _ _ => by simp [selects, hk]
  | retireNative =>
    exact hqt (by simp [neutral, hk]) (.bind (aside_onNative _) fun _ =>
      .bind (aside_onNative _) fun _ => .ite (aside_onHosted _) (aside_pure _))
  | retireHosted =>
    exact hqt (by simp [neutral, hk]) (.bind aside_dropRelay fun _ =>
      .bind (aside_onHosted _) fun _ => aside_onHosted _)
  | recoverHosted =>
    exact .bind (has (aside_onHosted _)) fun _ => hsl fun _ _ => by simp [selects, hk]
  | delegation =>
    exact hnt (by simp [neutral, hk]) (.tryCatch
      (aside_onHosted _ _ _ fun _ _ hs => hs) (relayUnreachable_faithful hEf))

/-- Carrying out an action that has been taken, unless its generation is
over. -/
theorem applyAction_faithful (a : TransitionAction) (taken : List TransitionAction) :
    Meets (fun s => Faithful (a :: taken) s.node.view) (applyAction a)
      (fun _ s => Faithful taken s.node.view) (fun _ _ => True) := by
  refine .bind (Q := fun s' s => Faithful (a :: taken) s.node.view
    ∧ s.node.transition.status.generation = s'.node.transition.status.generation)
    (.get fun s hs => ⟨hs, rfl⟩) fun s' => .ite (fun hne => ?_) fun heq => ?_
  · refine .pure fun s hs hint => (hs.1 hint).skip ?_
    show a.generation ≠ s.node.transition.status.generation
    rw [hs.2]
    exact hne
  · refine (carryOut_faithful a fun _ _ _ => trivial).pre ?_
    exact fun s hs => ⟨(not_not.mp heq).trans hs.2.symm, hs.1⟩

end CarryingOut

/-! ### The calls -/

abbrev Truthful {α : Type} (x : Proc α) : Prop :=
  Keeps (fun s => Faithful [] s.node.view) (fun _ s => Faithful [] s.node.view) x

theorem Aside.truthful (hx : Aside x) : Truthful x :=
  hx (Faithful []) _ fun _ _ hs => hs

theorem truthful_tell {input : Input} (hok : ∀ c selected, Opportune [] c selected input) :
    Truthful (tell input) :=
  tell_faithful (fun _ _ hs => hs) hok

/-- **Carrying out what is queued** keeps the agreement. An exception loses
actions, and is noted. -/
theorem truthful_applyActions : Truthful applyActions := by
  refine Meets.bind (Q := fun actions (s : Switching) => Faithful actions s.node.view)
    (.modifyGet fun s hs hint => (hs hint).take) fun actions => ?_
  refine .tryCatch (.forM (L := fun taken (s : Switching) => Faithful taken s.node.view)
    applyAction_faithful) fun fault => ?_
  refine .bind (Q := fun _ s => s.node.interrupted = true) (.modify fun _ _ => rfl) fun _ => ?_
  refine .throw fun s hs hint => ?_
  have hint : s.node.interrupted = false := hint
  rw [hs] at hint
  cases hint

theorem truthful_reconcileMap : Truthful reconcileMap := by
  exact .bind .get fun s => .ite (.pure _) (.bind (truthful_tell fun _ _ => trivial) fun _ =>
    truthful_tell fun _ _ => trivial)

theorem truthful_observe (res : NodeEvents) : Truthful (observe res) := by
  refine .bind ?_ fun _ => .bind (.forM fun _ => truthful_tell fun _ _ => trivial) fun _ =>
    .ite (truthful_tell fun _ _ => trivial) (.pure _)
  cases res.appliedMapRevision with
  | none => exact .pure _
  | some =>
    exact .bind (aside_update fun _ => rfl).truthful fun _ => truthful_tell fun _ _ => trivial

theorem truthful_pollPreparation : Truthful pollPreparation := by
  refine .bind (aside_drawn _).truthful fun turn => .bind (.modifyGet fun _ hs => hs) fun cand => ?_
  match cand with
  | .error _ => exact .throw fun _ hs => hs
  | .ok none => exact .pure _
  | .ok (some _) =>
    exact .bind (aside_update fun _ => rfl).truthful fun _ => .bind .get fun s =>
      truthful_tell fun _ _ => trivial

theorem truthful_pollCandidate (st : TransitionStatus) : Truthful (pollCandidate st) := by
  refine .ite ?_ (.pure _)
  cases st.desired with
  | hosted => exact truthful_pollPreparation
  | native =>
    exact .bind (aside_drawn _).truthful fun bound => .bind .get fun s =>
      .ite (truthful_tell fun _ _ => trivial) (.pure _)

theorem aside_adoptHosted : Aside adoptHosted := .bind aside_get fun _ => aside_onNative _

theorem truthful_pollPassive : Truthful pollPassive := by
  refine .bind .get fun s => .ite ?_ (.pure _)
  refine .bind (aside_onHosted _).truthful fun passive =>
    .bind (truthful_observe passive) fun _ => .ite ?_ (.pure _)
  exact .bind aside_adoptHosted.truthful fun _ => .bind truthful_reconcileMap fun _ => .pure _

theorem truthful_observeOwnership : Truthful observeOwnership := by
  exact .bind (aside_drawn _).truthful fun changes => .bind (aside_onNative _).truthful fun _ =>
    .bind .get fun s => .ite (truthful_tell fun _ _ => trivial) (.pure _)

theorem truthful_advance (res : NodeEvents) : Truthful (advance res) := by
  exact .bind truthful_applyActions fun _ => .bind .get fun s =>
    .bind (truthful_pollCandidate _) fun _ => .bind truthful_pollPassive fun passive =>
    .bind truthful_observeOwnership fun _ => .bind (truthful_tell fun _ _ => trivial) fun _ =>
    .bind truthful_applyActions fun _ => .pure _

theorem aside_waitActive : Aside waitActive := by
  refine .bind aside_get fun s => ?_
  cases s.node.selected with
  | native => exact .bind (aside_drawn _) fun sess => aside_onNative _
  | hosted => exact aside_onHosted _

theorem aside_shareNetwork : Aside shareNetwork := by
  refine .bind aside_get fun s => ?_
  cases s.node.selected with
  | hosted => exact aside_adoptHosted
  | native => exact .ite (aside_onHosted _) (aside_pure _)

theorem truthful_wait : Truthful wait := by
  refine .bind (truthful_advance _) fun res => .bind aside_waitActive.truthful fun completed =>
    .bind (truthful_observe completed) fun _ => .bind ?_ fun _ => truthful_advance _
  exact .ite (.bind aside_shareNetwork.truthful fun _ => truthful_reconcileMap) (.pure _)

theorem truthful_updateNetwork (net : NetworkConfig) : Truthful (updateNetwork net) := by
  exact .bind (aside_onNative _).truthful fun _ =>
    .bind (Aside.bind aside_get fun s => .ite (aside_onHosted _) (aside_pure _)).truthful
    fun _ => .bind truthful_reconcileMap fun _ => truthful_applyActions

theorem truthful_cancelTransition (reason : TransitionFailure) :
    Truthful (cancelTransition reason) := by
  exact .bind aside_dropRelay.truthful fun _ => .bind (truthful_tell fun _ _ => trivial) fun _ =>
    truthful_applyActions

/-- A call keeps the agreement where something more holds. -/
abbrev TruthfulFrom (P : View → Prop) (x : Proc α) : Prop :=
  Leads (fun s => Faithful [] s.node.view ∧ P s.node.view) x (fun s => Faithful [] s.node.view)

theorem Aside.keeps (hx : Aside x) (P : View → Prop) :
    Keeps (fun s => Faithful [] s.node.view ∧ P s.node.view) (fun _ s => Faithful [] s.node.view)
      x :=
  hx (fun v => Faithful [] v ∧ P v) _ fun _ _ hs => hs.1

/-- Nothing is left of the last switch. -/
def Rested (v : View) : Prop := v.transition.active = false → v.transition.actions = []

theorem beginTransition_faithful (desired : NodeMode) :
    TruthfulFrom Rested (beginTransition desired) := by
  refine .bind ((aside_drawn _).keeps _) fun now => .bind
    (Q := fun s' s => s' = s ∧ Faithful [] s.node.view ∧ Rested s.node.view)
    (.get fun s hs => ⟨rfl, hs⟩) fun s' => ?_
  cases hb : s'.node.transition.begin now desired (s'.node.startingRevision desired)
    s'.node.regions true with
  | error => exact .throw fun s hs => hs.2.1
  | ok p =>
    obtain ⟨_, transition⟩ := p
    refine .bind (Q := fun _ s => Faithful [] s.node.view) (.modify fun s hs hint => ?_) fun _ => ?_
    · obtain ⟨rfl, hf, has⟩ := hs
      have hsp : s'.node.transition.step now (.begin desired (s'.node.startingRevision desired)
          s'.node.regions true) = transition := by
        simp only [TransitionCoordinator.step, hb]
      show Agrees [] transition s'.node.selected
      rw [← hsp]
      refine (hf hint).step ?_
      exact fun h => ⟨rfl, has h⟩
    · refine Keeps.bind ?_ fun _ => .bind truthful_applyActions fun _ => .pure _
      cases desired with
      | native => exact .bind .get fun s => truthful_tell fun _ _ => trivial
      | hosted => exact (aside_update fun _ => rfl).truthful

/-- **Asking for a switch** keeps the agreement where nothing of the last one
is left. -/
theorem requestMode_faithful (want : NodeMode) (relay : Option ConnectionOptions) :
    TruthfulFrom Rested (requestMode want relay) := by
  refine .bind Keeps.get fun s => .ite (fun _ => .pure fun _ hs => hs.1) fun _ =>
    .ite (fun _ => .throw fun _ hs => hs.1) fun _ => .ite (fun _ => .pure fun _ hs => hs.1)
    fun _ => ?_
  refine .bind ((aside_update ?_).keeps _) fun _ => beginTransition_faithful want
  intro _
  cases relay <;> rfl

/-- Packets are on the path of the mode reported, if a switch is under way. -/
def InPlace (v : View) : Prop :=
  v.transition.active = true → v.selected = v.transition.status.effective

/-- **Changing the network** keeps the agreement where packets are on the path
of the mode reported, or no switch is under way. -/
theorem changeNetwork_faithful (nif : Option String) :
    TruthfulFrom InPlace (changeNetwork nif) := by
  refine .bind (aside_dropRelay.keeps _) fun _ => .bind ((aside_onNative _).keeps _)
    fun _ => .bind ((aside_onNative _).keeps _) fun _ =>
    .bind ((aside_onHosted _).keeps _) fun _ => .bind ((aside_onHosted _).keeps _)
    fun _ => .bind (Q := fun _ s => Faithful [] s.node.view) ?_ fun _ => ?_
  · refine .bind ((aside_drawn _).keeps _) fun now => .modify fun s hs hint => ?_
    show Agrees [] (s.node.transition.step now (.abort .cancelled)) s.node.selected
    exact (hs.1 hint).step hs.2
  · cases nif with
    | none => exact Keeps.pure _
    | some =>
      exact (Aside.bind (aside_onNative _) fun _ => .bind aside_get fun s =>
        .bind (aside_onNative _) fun _ => .ite (aside_onHosted _) (aside_pure _)).truthful

/-- **When a call may be made**: a switch is asked for once the actions of the
last one have been carried out, and the network changes only while packets
are on the path of the mode reported, or no switch is under way. -/
def timely (e : Event) : Bool :=
  match e.call with
  | .requestMode _ _ => n.transition.active || n.transition.actions.isEmpty
  | .changeNetwork _ => !n.transition.active || n.selected == n.transition.status.effective
  | _ => true

theorem perform_faithful (call : Call) : Leads (fun s => Faithful [] s.node.view
      ∧ timely s.node { call := call, world := s.world } = true) (perform call)
    fun s => Faithful [] s.node.view := by
  cases call with
  | requestMode want relay =>
    refine Meets.pre (Meets.bind (requestMode_faithful want relay) fun _ => Keeps.pure _)
      fun s hs => ⟨hs.1, fun (hact : s.node.transition.active = _) => ?_⟩
    simpa [view, timely, hact] using hs.2
  | cancelTransition reason =>
    exact (truthful_cancelTransition reason).pre fun _ hs => hs.1
  | changeNetwork nif =>
    refine (changeNetwork_faithful nif).pre fun s hs =>
      ⟨hs.1, fun (hact : s.node.transition.active = _) => ?_⟩
    simpa [view, timely, hact] using hs.2
  | updateNetwork net =>
    exact (truthful_updateNetwork net).pre fun _ hs => hs.1
  | wait =>
    exact Meets.pre (Keeps.bind truthful_wait fun _ => .pure _) fun _ hs => hs.1

/-- A coordinator that has just been made agrees with the path it is made
with. -/
theorem agrees_new (initial : NodeMode) : Agrees [] (.new initial) initial :=
  .of_rest (.of_rest rfl rfl rfl) (by simp [TransitionCoordinator.new]) rfl rfl

theorem faithful_of_reachable {n : SwitchingNode}
    (h : (system.restrict fun n e => n.timely e = true).Reachable n) : Faithful [] n.view := by
  refine TransitionSystem.invariant (P := fun n => Faithful [] n.view) ?_ ?_ h
  · rintro _ ⟨_, _, initial, _, -, rfl⟩ _
    exact agrees_new initial
  · rintro n e _ hn ⟨hok, rfl⟩
    have hk := perform_faithful e.call { node := n, world := e.world } ⟨hn, hok⟩
    unfold step
    cases hp : perform e.call { node := n, world := e.world } with
    | ok | error =>
      rw [hp] at hk
      exact hk

/-- **Packets are on the path of the mode reported** whenever no switch is
under way and no action is left, in every run of timely calls in which no
exception has cut the carrying out of actions short. -/
theorem selected_eq_effective {n : SwitchingNode}
    (h : (system.restrict fun n e => n.timely e = true).Reachable n)
    (hint : n.interrupted = false) (hact : n.transition.active = false)
    (hacts : n.transition.actions = []) : n.selected = n.transition.status.effective :=
  (faithful_of_reachable h hint).eq_of_due_nil hact rfl hacts

def relayReply (requestId : ℕ) (status : DelegationStatus) : RelayFrame :=
  .delegationReply
    { generation := 1, requestId := requestId, mapRevision := 1, status := status,
      failure := .none }

/-- A switch to hosted up to the point where the relay is to acquire the
connections. -/
def acquiringRelay : List Event :=
  [{ call := .requestMode .hosted (some {}) },
   { call := .wait, world :=
      { clock := replicate 40 2000, completions := [none, some (some homeRelay)] } },
   { call := .wait, world :=
      { clock := replicate 40 2000
        receptions := [.frames [.networkMapAck 1], .frames [relayReply 1 .prepared]] } }]

def switchedToHosted : List Event :=
  acquiringRelay ++ [{ call := .wait, world :=
        { clock := replicate 40 2000
          receptions := [.frames [relayReply 2 .ready], .frames [relayReply 3 .committed]] } },
     { call := .wait, world := { clock := replicate 40 3000 } }]

def timelyStep (e : Event) : Option SwitchingNode :=
  if n.timely e then some (n.step e) else none

theorem selected_after_switchedToHosted :
    ∃ n, (system.restrict fun n e => n.timely e = true).Reachable n
      ∧ n.transition.status.effective = .hosted ∧ n.selected = n.transition.status.effective := by
  have hrun : (switchedToHosted.foldlM timelyStep startNative).any (fun n =>
      n.interrupted == false && n.transition.active == false && n.transition.actions.isEmpty
        && n.transition.status.effective == .hosted) = true := by decide +kernel
  obtain ⟨n, hn, hfc⟩ := (Option.any_eq_true _ _).mp hrun
  simp only [Bool.and_eq_true, beq_iff_eq, List.isEmpty_iff] at hfc
  obtain ⟨⟨⟨hint, hact⟩, has⟩, heff⟩ := hfc
  have hre : (system.restrict fun n e => n.timely e = true).Reachable n := by
    refine .of_foldlM (f := timelyStep) ?_ (.init ⟨_, _, _, _, .new, rfl⟩) hn
    intro _ _ _ hsp
    unfold timelyStep at hsp
    split at hsp
    · next hok => exact ⟨hok, (Option.some.inj hsp).symm⟩
    · cases hsp
  exact ⟨n, hre, heff, selected_eq_effective hre hint hact has⟩

/-- The relay acquires the connections, and with that news comes a new
configuration; then the network changes. -/
def droppedSelection : List Event :=
  acquiringRelay ++ [{ call := .wait, world :=
        { clock := replicate 40 2000
          receptions := [.frames [relayReply 2 .ready, .networkMap homeNetwork]] } },
     { call := .changeNetwork (some "eth1") }]

/-- **The mode reported is not the path packets are on**: the configuration
clears the selection from the queue, and the change of network drops the
switch that would have made up for it. -/
theorem selected_ne_effective :
    ∃ n, system.Reachable n ∧ n.interrupted = false ∧ n.transition.status.phase = .failed
      ∧ n.transition.actions = [] ∧ n.transition.status.effective = .hosted
      ∧ n.selected = .native := by
  refine ⟨_, reachable_foldl reachable_startNative droppedSelection, ?_⟩
  decide +kernel

end SwitchingNode

end Tailgate
