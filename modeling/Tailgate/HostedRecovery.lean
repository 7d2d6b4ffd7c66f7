import Tailgate.SwitchingNode

/-!
# When a stream is replaced

What keeps a stream that works is that attempts to connect are given up when a
stream is installed, and only taken up when it is dropped – or when the native
path of a node that has selected the hosted one is retired. A replacement of a
working stream therefore has such a resumption before it.
-/

namespace Tailgate

open Procedure HostedNode List

/-- **What keeps a stream.** As long as the recovery has not been resumed
behind a working stream, nothing is under way while there is one, and none
has been replaced. -/
structure HostedNode.Settled (n : HostedNode) : Prop where
  /-- While there is a stream, the recovery is at nothing. -/
  dormant : .resumed true ∉ n.history → n.stream = true → n.recovery.Dormant
  kept : .resumed true ∉ n.history → .replaced true ∉ n.history

namespace HostedNode

namespace Settled

variable {n n' : HostedNode}

theorem congr (h : n.Settled) (hsr : n'.stream = n.stream)
    (hrc : n'.recovery = n.recovery) (hhs : n'.history = n.history) : n'.Settled := by
  constructor
  · rw [hsr, hrc, hhs]
    exact h.dormant
  · rw [hhs]
    exact h.kept

theorem of_dormant (h : n.Settled) (hd : n'.recovery.Dormant)
    (hhs : n'.history = n.history) : n'.Settled :=
  ⟨fun _ _ => hd, hhs ▸ h.kept⟩

theorem of_retired (h : n.Settled) (hsr : n'.stream = false)
    (hhs : n'.history = n.history) : n'.Settled := by
  constructor
  · intro _ hlive
    rw [hsr] at hlive
    cases hlive
  · exact hhs ▸ h.kept

end Settled

/-! ## The methods of the hosted backend -/

abbrev Steady {α : Type} (x : Proc α) : Prop :=
  Keeps (fun h => h.node.Settled) (fun _ h => h.node.Settled) x

variable {α : Type}

theorem drawn_keeps {P : HostedNode → Prop} {E : Fault → Hosting → Prop}
    (x : EStateM Fault World α) (hE : ∀ e h, P h.node → E e h) :
    Keeps (fun h => P h.node) E (drawn x) :=
  .frame x (fun _ _ hs => hs) hE

theorem steady_drawn (x : EStateM Fault World α) : Steady (drawn x) :=
  drawn_keeps x fun _ _ hs => hs

theorem steady_throw (fault : Fault) : Steady (throw fault : Proc α) :=
  .throw fun _ hs => hs

theorem steady_report (f : NodeEvents → NodeEvents) : Steady (report f) :=
  .modify fun _ hs => hs

variable {f : HostedNode → HostedNode}

theorem steady_update (hf : ∀ n, n.Settled → (f n).Settled) : Steady (update f) :=
  .modify fun h hs => hf h.node hs

theorem steady_update_frame (hsr : ∀ n, (f n).stream = n.stream)
    (hrc : ∀ n, (f n).recovery = n.recovery) (hhs : ∀ n, (f n).history = n.history) :
    Steady (update f) :=
  steady_update fun n hn => hn.congr (hsr n) (hrc n) (hhs n)

theorem steady_queue : Steady queue := by
  exact .bind (steady_drawn _) fun full => .bind .get fun h =>
    .ite (steady_throw _) (.pure _)

/-- **Installing a stream** keeps the node settled where the recovery is at
nothing. -/
theorem replaceTransport_settled (conn : ConnectionResult) :
    Leads (fun h => h.node.Settled ∧ h.node.recovery.Dormant) (replaceTransport conn)
      fun h => h.node.Settled := by
  refine .bind Keeps.get fun h => .ite ?_ ?_
  · exact fun _ => .throw fun _ hs => hs.1
  · intro _
    refine .bind (Q := fun _ h => h.node.Settled) (.modify fun _ hs => ?_) fun _ => ?_
    · exact hs.1.of_dormant hs.2 rfl
    · exact .bind steady_queue fun _ => steady_queue

theorem steady_start (conn : ConnectionResult) (exitNode relayName : String) :
    Steady (start conn exitNode relayName) := by
  refine .bind .get fun h => .bind (steady_drawn _) fun busy =>
    .ite (steady_throw _) (.ite (steady_throw _) ?_)
  refine .bind (steady_drawn _) fun heartbeat => .bind (steady_drawn _) fun probe =>
    .bind (steady_drawn _) fun maintenance => ?_
  refine Meets.bind (.modify fun h hs => ?_) fun _ => replaceTransport_settled conn
  have hd := h.node.recovery.dormant_configure conn.reconnect
  exact ⟨hs.of_dormant hd rfl, hd⟩

theorem steady_retireTransport : Steady retireTransport :=
  steady_update fun _ hn => hn.of_retired rfl rfl

theorem retireTransport_retired : Meets (fun h => h.node.Settled) retireTransport
      (fun _ h => h.node.Settled ∧ h.node.stream = false) (fun _ h => h.node.Settled) :=
  .modify fun _ hs => ⟨hs.of_retired rfl rfl, rfl⟩

theorem steady_stopRecovery : Steady stopRecovery :=
  steady_update fun n hn => hn.of_dormant n.recovery.dormant_cancel rfl

theorem failed_settled : Leads (fun h => h.node.Settled ∧ h.node.stream = false) failed
    fun h => h.node.Settled := by
  refine .bind (drawn_keeps (P := fun n => n.Settled ∧ n.stream = false) _ ?_) fun now => ?_
  · exact fun _ _ hs => hs.1
  · exact .modify fun _ hs => hs.1.of_retired hs.2 rfl

theorem steady_transportFailed (fault : Fault) : Steady (transportFailed fault) := by
  cases fault with
  | system =>
    exact .bind (steady_report _) fun _ => Meets.bind retireTransport_retired fun _ =>
      failed_settled
  | _ => exact steady_throw _

/-- **Resuming** the recovery is noted, and behind a working stream nothing
is promised any more. -/
theorem steady_resumeRecovery : Steady resumeRecovery := by
  refine Meets.bind (Q := fun _ h => h.node.Settled ∧ .resumed h.node.stream ∈ h.node.history)
    (.modify fun h hs => ⟨?_, by simp⟩) fun _ => ?_
  · constructor
    · intro hcl
      exact hs.dormant fun hmem => hcl (mem_append_left _ hmem)
    · intro hcl hmem
      rcases mem_append.mp hmem with hmem | hmem
      · exact hs.kept (fun h => hcl (mem_append_left _ h)) hmem
      · simp at hmem
  · refine .bind (drawn_keeps (P := fun n => n.Settled ∧ .resumed n.stream ∈ n.history) _ ?_)
      fun now => .modify fun h hs => ⟨fun hcl hlive => ?_, hs.1.kept⟩
    · exact fun _ _ hs => hs.1
    · exact absurd (hlive ▸ hs.2) hcl

theorem steady_requestDelegation : Steady requestDelegation := by
  exact .bind .get fun h => .ite (steady_throw _) steady_queue

theorem steady_changeNetwork (nif : String) : Steady (changeNetwork nif) := by
  refine Meets.bind retireTransport_retired fun _ =>
    Meets.bind (drawn_keeps (P := fun n => n.Settled ∧ n.stream = false) _ ?_)
      fun now => .modify fun h hs => hs.1.of_retired hs.2 rfl
  exact fun _ _ hs => hs.1

variable (net : NetworkConfig)

theorem steady_updateNetworkMap (outbound : Bool) : Steady (updateNetworkMap net outbound) := by
  exact .bind .get fun h => .ite (steady_throw _)
    (steady_update_frame (fun _ => rfl) (fun _ => rfl) (fun _ => rfl))

theorem steady_updateNetwork : Steady (updateNetwork net) := by
  refine .bind .get fun h => .ite (steady_throw _) ?_
  exact .bind (steady_updateNetworkMap net true) fun _ => .bind steady_queue
    fun _ => steady_update_frame (fun _ => rfl) (fun _ => rfl) (fun _ => rfl)

theorem steady_receiveFrame (fr : RelayFrame) : Steady (receiveFrame fr) := by
  cases fr with
  | networkMap net =>
    exact .bind (steady_updateNetworkMap net false) fun _ =>
      .bind (steady_updateNetwork net) fun _ => steady_report _
  | networkMapAck =>
    exact .bind .get fun h => .ite (steady_throw _) (steady_report _)
  | delegationReply reply =>
    exact steady_report fun r => { r with delegationReplies := r.delegationReplies ++ [reply] }
  | dataPathReady =>
    exact .bind (steady_report _) fun _ =>
      steady_update_frame (fun _ => rfl) (fun _ => rfl) (fun _ => rfl)
  | heartbeat =>
    exact .bind steady_queue fun _ => .bind (steady_drawn _) fun now =>
      steady_update_frame (fun _ => rfl) (fun _ => rfl) (fun _ => rfl)
  | other => exact steady_queue
  | malformed | invalid => exact steady_throw _

theorem steady_handle (reception : Reception) : Steady (handle reception) := by
  cases reception with
  | frames => exact .forM steady_receiveFrame
  | lost | undecodable => exact steady_throw _

/-- **Installing what the recovery has come up with.** With nothing under way
it comes up with nothing; a connection it does come up with leaves nothing
under way. -/
theorem steady_recover : Steady recover := by
  refine .bind (steady_drawn _) fun turn => Meets.bind (Q := fun replacement h => h.node.Settled
      ∧ ∀ conn, replacement = .ok (some conn) → h.node.recovery.Dormant) (.modifyGet fun h hs => ?_)
    fun replacement => ?_
  · have hsame (hno : ∀ conn, (h.node.recovery.pollAt turn).1 ≠ .ok (some conn)) :
        { h.node with recovery := (h.node.recovery.pollAt turn).2 : HostedNode }.Settled :=
      ⟨fun hcl hlive => ((hs.dormant hcl hlive).pollAt turn).2, hs.kept⟩
    cases hp : (h.node.recovery.pollAt turn).1 with
    | error =>
      dsimp only
      rw [hp]
      exact ⟨hsame (by simp [hp]), by simp⟩
    | ok replacement =>
    cases replacement with
    | none =>
      dsimp only
      rw [hp]
      exact ⟨hsame (by simp [hp]), by simp⟩
    | some =>
      have hd := Recovery.dormant_of_pollAt hp
      refine ⟨⟨fun _ _ => hd, fun hcl hmem => ?_⟩, fun _ _ => hd⟩
      simp only [hp] at hcl hmem
      have hcl' : .resumed true ∉ h.node.history :=
        fun hr => hcl (mem_append_left _ hr)
      rcases mem_append.mp hmem with hmem | hmem
      · exact hs.kept hcl' hmem
      · -- a stream would have kept the recovery at nothing
        have hlive : true = h.node.stream :=
          TransportEvent.replaced.inj (mem_singleton.mp hmem)
        rw [((hs.dormant hcl' hlive.symm).pollAt turn).1] at hp
        cases hp
  · match replacement with
    | .error _ => exact (steady_throw _).pre fun _ hs => hs.1
    | .ok none => exact .pure fun _ hs => hs.1
    | .ok (some conn) =>
      exact (replaceTransport_settled conn).pre fun _ hs => ⟨hs.1, hs.2 conn rfl⟩

theorem steady_receive : Steady receive := by
  exact .bind .get fun h => .ite (.pure _)
    (.tryCatch (.bind (steady_drawn _) steady_handle) steady_transportFailed)

theorem steady_queueDue (due : Bool) {f : HostedNode → HostedNode}
    (hsr : ∀ n, (f n).stream = n.stream) (hrc : ∀ n, (f n).recovery = n.recovery)
    (hhs : ∀ n, (f n).history = n.history) : Steady (queueDue due f) := by
  refine .ite (.bind steady_queue fun _ => ?_) (.pure _)
  exact steady_update_frame hsr hrc hhs

theorem steady_upkeep (processLocal : Bool) : Steady (upkeep processLocal) := by
  refine .bind (steady_drawn _) fun now => .bind .get fun h => .bind (steady_drawn _) fun pkts =>
    .bind ?_ fun _ => .bind ?_ fun _ => .bind ?_ fun _ => .forM fun _ => steady_queue
  all_goals exact steady_queueDue _ (fun _ => rfl) (fun _ => rfl) (fun _ => rfl)

theorem steady_flush : Steady flush := by
  exact .bind .get fun h => .ite (.pure _) (.bind (steady_drawn _) fun broken =>
    .ite (steady_transportFailed _) (.pure _))

theorem steady_poll (processLocal : Bool) : Steady (poll processLocal) := by
  exact .bind steady_recover fun _ => .bind steady_receive fun _ =>
    .bind (steady_upkeep processLocal) fun _ => steady_flush

theorem steady_pollTransport : Steady pollTransport := by
  exact .bind (steady_report _) fun _ => .bind (steady_poll false) fun _ =>
    .bind .get fun h => .pure _

theorem steady_updateFromSession : Steady (updateFromSession net) := by
  exact .bind (steady_updateNetwork net) fun _ => steady_report _

theorem steady_wait : Steady wait := by
  exact .bind (steady_report _) fun _ => .bind (steady_poll true) fun _ =>
    .bind (steady_drawn _) fun sess => .bind (.forM steady_updateFromSession) fun _ =>
    .bind (.forM fun _ => steady_queue) fun _ => .bind (steady_poll true) fun _ =>
    .bind .get fun h => .pure _

end HostedNode

/-! ## The methods of the switching node -/

namespace SwitchingNode

/-- A method keeps the hosted backend settled, whether it returns or
throws. -/
abbrev Steady {α : Type} (x : Proc α) : Prop :=
  Keeps (fun s => s.node.hosted.Settled) (fun _ s => s.node.hosted.Settled) x

variable {α : Type}

theorem steady_drawn (x : EStateM Fault World α) : Steady (drawn x) :=
  .frame x (fun _ _ hs => hs) (fun _ _ hs => hs)

theorem steady_throw (fault : Fault) : Steady (throw fault : Proc α) :=
  .throw fun _ hs => hs

theorem steady_update {f : SwitchingNode → SwitchingNode} (hf : ∀ n, (f n).hosted = n.hosted) :
    Steady (update f) :=
  .modify fun s hs => (hf s.node).symm ▸ hs

theorem steady_onNative (x : NativeNode.Proc α) : Steady (onNative x) :=
  .frame x (fun _ _ hs => hs) (fun _ _ hs => hs)

theorem steady_onHosted {x : HostedNode.Proc α} (hx : HostedNode.Steady x) : Steady (onHosted x) :=
  hx.within (fun _ hs => hs) (fun _ _ _ ht => ht) (fun _ _ _ _ ht => ht)

theorem steady_tell (input : TransitionCoordinator.Input) : Steady (tell input) := by
  exact .bind (steady_drawn _) fun now => steady_update fun _ => rfl

theorem steady_dropRelay : Steady dropRelay := steady_update fun _ => rfl

theorem steady_select (mode : NodeMode) : Steady (select mode) := steady_update fun _ => rfl

theorem steady_prepareRelay (opts : ConnectionOptions) : Steady (prepareRelay opts) := by
  exact .bind (steady_drawn _) fun now => steady_update fun _ => rfl

theorem steady_activateHosted : Steady activateHosted := by
  refine .bind .get fun s => ?_
  cases s.node.preparedRelay with
  | none => exact steady_tell _
  | some =>
    exact .bind (steady_onHosted (steady_start _ _ _)) fun _ =>
      steady_update fun _ => rfl

theorem steady_relayUnreachable (fault : Fault) : Steady (relayUnreachable fault) := by
  cases fault with
  | system => exact steady_tell _
  | _ => exact steady_throw _

theorem steady_carryOut (action : TransitionAction) : Steady (carryOut action) := by
  refine .bind .get fun s => ?_
  cases action.kind with
  | prepareNative =>
    exact .bind (steady_onHosted steady_stopRecovery) fun _ =>
      .bind (steady_onNative _) fun _ => steady_update fun _ => rfl
  | prepareHosted =>
    exact .bind (steady_prepareRelay _) fun _ => steady_update fun _ => rfl
  | suspendNative => exact steady_onNative _
  | activateNative =>
    exact .bind (steady_onNative _) fun _ => .ite (steady_select _) (.pure _)
  | activateHosted => exact steady_activateHosted
  | selectNative | selectHosted => exact steady_select _
  | retireNative =>
    exact .bind (steady_onNative _) fun _ => .bind (steady_onNative _) fun _ =>
      .ite (steady_onHosted steady_resumeRecovery) (.pure _)
  | retireHosted =>
    exact .bind steady_dropRelay fun _ =>
      .bind (steady_onHosted steady_stopRecovery) fun _ =>
        steady_onHosted steady_retireTransport
  | recoverHosted =>
    exact .bind (steady_onHosted steady_resumeRecovery) fun _ => steady_select _
  | delegation =>
    exact .tryCatch (steady_onHosted steady_requestDelegation) steady_relayUnreachable

theorem steady_applyActions : Steady applyActions := by
  refine .bind (.modifyGet fun _ hs => hs) fun actions => .tryCatch ?_ ?_
  · exact .forM fun act => .bind .get fun s => .ite (.pure _) (steady_carryOut act)
  · exact fun fault => .bind (steady_update fun _ => rfl) fun _ => steady_throw fault

theorem steady_reconcileMap : Steady reconcileMap := by
  exact .bind .get fun s => .ite (.pure _) (.bind (steady_tell _) fun _ => steady_tell _)

theorem steady_observe (res : NodeEvents) : Steady (observe res) := by
  refine .bind ?_ fun _ => .bind (.forM fun _ => steady_tell _) fun _ =>
    .ite (steady_tell _) (.pure _)
  cases res.appliedMapRevision with
  | none => exact .pure _
  | some => exact .bind (steady_update fun _ => rfl) fun _ => steady_tell _

theorem steady_pollPreparation : Steady pollPreparation := by
  refine .bind (steady_drawn _) fun turn => .bind (.modifyGet fun _ hs => hs) fun cand => ?_
  match cand with
  | .error _ => exact steady_throw _
  | .ok none => exact .pure _
  | .ok (some _) =>
    exact .bind (steady_update fun _ => rfl) fun _ => .bind .get fun s => steady_tell _

theorem steady_pollCandidate (st : TransitionStatus) : Steady (pollCandidate st) := by
  refine .ite ?_ (.pure _)
  cases st.desired with
  | hosted => exact steady_pollPreparation
  | native =>
    exact .bind (steady_drawn _) fun bound => .bind .get fun s => .ite (steady_tell _) (.pure _)

theorem steady_adoptHosted : Steady adoptHosted :=
  .bind .get fun _ => steady_onNative _

theorem steady_pollPassive : Steady pollPassive := by
  refine .bind .get fun s => .ite ?_ (.pure _)
  refine .bind (steady_onHosted steady_pollTransport) fun passive =>
    .bind (steady_observe passive) fun _ => .ite ?_ (.pure _)
  exact .bind steady_adoptHosted fun _ => .bind steady_reconcileMap fun _ => .pure _

theorem steady_observeOwnership : Steady observeOwnership := by
  exact .bind (steady_drawn _) fun changes => .bind (steady_onNative _) fun _ =>
    .bind .get fun s => .ite (steady_tell _) (.pure _)

theorem steady_advance (res : NodeEvents) : Steady (advance res) := by
  exact .bind steady_applyActions fun _ => .bind .get fun s =>
    .bind (steady_pollCandidate _) fun _ => .bind steady_pollPassive fun passive =>
    .bind steady_observeOwnership fun _ => .bind (steady_tell _) fun _ =>
    .bind steady_applyActions fun _ => .pure _

theorem steady_waitActive : Steady waitActive := by
  refine .bind .get fun s => ?_
  cases s.node.selected with
  | native => exact .bind (steady_drawn _) fun sess => steady_onNative _
  | hosted => exact steady_onHosted steady_wait

theorem steady_reconcileNetwork (changed : Bool) : Steady (reconcileNetwork changed) := by
  refine .ite (.bind (.bind .get fun s => ?_) fun _ => steady_reconcileMap) (.pure _)
  cases s.node.selected with
  | hosted => exact steady_adoptHosted
  | native => exact .ite (steady_onHosted (steady_updateNetwork _)) (.pure _)

variable (want : NodeMode)

theorem steady_recordMap : Steady (recordMap want) := by
  cases want with
  | native => exact .bind .get fun s => steady_tell _
  | hosted => exact steady_update fun _ => rfl

theorem steady_beginTransition : Steady (beginTransition want) := by
  refine .bind (steady_drawn _) fun now => .bind .get fun s => ?_
  split
  · exact steady_throw _
  · exact .bind (steady_update fun _ => rfl) fun _ => .bind (steady_recordMap want) fun _ =>
      .bind steady_applyActions fun _ => .pure _

theorem setRelay_hosted (n : SwitchingNode) (relay : Option ConnectionOptions) :
    (n.setRelay relay).hosted = n.hosted := by
  cases relay <;> rfl

theorem steady_requestMode (relay : Option ConnectionOptions) :
    Steady (requestMode want relay) := by
  refine .bind .get fun s => .ite (.pure _) (.ite (steady_throw _) (.ite (.pure _) ?_))
  exact .bind (steady_update fun n => n.setRelay_hosted relay) fun _ =>
    steady_beginTransition want

theorem steady_changeNetwork (nif : Option String) : Steady (changeNetwork nif) := by
  refine .bind steady_dropRelay fun _ => .bind (steady_onNative _) fun _ =>
    .bind (steady_onNative _) fun _ => .bind (steady_onHosted steady_stopRecovery)
    fun _ => .bind (steady_onHosted steady_retireTransport) fun _ =>
    .bind (steady_tell _) fun _ => ?_
  cases nif with
  | none => exact .pure _
  | some =>
    exact .bind (steady_onNative _) fun _ => .bind .get fun s => .bind (steady_onNative _) fun _ =>
      .ite (steady_onHosted (HostedNode.steady_changeNetwork _)) (.pure _)

/-- **Every call keeps the hosted backend settled.** -/
theorem steady_perform (call : Call) : Steady (perform call) := by
  cases call with
  | requestMode want relay => exact .bind (steady_requestMode want relay) fun _ => .pure _
  | cancelTransition =>
    exact .bind steady_dropRelay fun _ => .bind (steady_tell _) fun _ => steady_applyActions
  | changeNetwork nif => exact steady_changeNetwork nif
  | updateNetwork =>
    exact .bind (steady_onNative _) fun _ => .bind (.bind .get fun s =>
      .ite (steady_onHosted (steady_updateNetwork _)) (.pure _)) fun _ =>
      .bind steady_reconcileMap fun _ => steady_applyActions
  | wait =>
    exact .bind (.bind (steady_advance _) fun res => .bind steady_waitActive fun completed =>
      .bind (steady_observe completed) fun _ => .bind (steady_reconcileNetwork _) fun _ =>
      steady_advance _) fun _ => .pure _

theorem Fresh.settled {h : HostedNode} (hf : Fresh h) : h.Settled := by
  have hnew : HostedNode.Settled {} :=
    { dormant := fun _ hlive => absurd hlive (by decide), kept := fun _ => by simp }
  cases hf with
  | new => exact hnew
  | started hs => exact (steady_start _ _ _).of_ok hnew hs

theorem settled_of_reachable {n : SwitchingNode} (h : system.Reachable n) :
    n.hosted.Settled := by
  refine TransitionSystem.invariant (P := fun n => n.hosted.Settled) ?_ ?_ h
  · rintro _ ⟨_, _, _, _, hfh, rfl⟩
    exact hfh.settled
  · rintro n e n' hn rfl
    have hk := steady_perform e.call { node := n, world := e.world } hn
    unfold step
    cases hp : perform e.call { node := n, world := e.world } with
    | ok | error =>
      rw [hp] at hk
      exact hk

/-- **A working stream is not replaced** in a run that does not resume the
recovery behind one: whenever the recovery came up with a connection, the node
had no stream. -/
theorem stream_never_replaced {n : SwitchingNode} (h : system.Reachable n)
    (hcalm : .resumed true ∉ n.hosted.history) : .replaced true ∉ n.hosted.history :=
  (settled_of_reachable h).kept hcalm

def lostAndFound : List Event :=
  [{ call := .wait, world := { receptions := [.lost] } },
   { call := .wait, world := { clock := .replicate 40 2000 } },
   { call := .wait, world :=
      { clock := .replicate 40 3000, completions := [some (some homeRelay)] } }]

theorem lost_stream_replaced :
    ∃ n, system.Reachable n ∧ n.hosted.stream = true ∧ .replaced false ∈ n.hosted.history
      ∧ .replaced true ∉ n.hosted.history := by
  have hre := reachable_foldl reachable_startHosted lostAndFound
  refine ⟨_, hre, ?_, ?_, stream_never_replaced hre ?_⟩
  all_goals decide +kernel

/-- A switch to native that is cancelled as soon as it is asked for, with a
relay that never fails. -/
def cancelledSwitch : List Event :=
  [{ call := .requestMode .native none },
   { call := .cancelTransition .cancelled },
   { call := .wait, world := { clock := .replicate 40 2000 } },
   { call := .wait, world :=
      { clock := .replicate 40 3000, completions := [some (some homeRelay)] } }]

/-- **A working stream is replaced** after a switch to native has been
cancelled: the native path is retired, and with it the recovery resumed. -/
theorem working_stream_replaced :
    ∃ n, system.Reachable n ∧ n.hosted.history = [.resumed true, .replaced true] := by
  refine ⟨_, reachable_foldl reachable_startHosted cancelledSwitch, ?_⟩
  decide +kernel

end SwitchingNode

end Tailgate
