import Tailgate.ServerSession

/-!
# Pumps

A node that waits for a deadline asks its relay to call it in time: the
controller of the node numbers its requests, and the session at the relay calls
it with the number of the last request it knows of. A request that is pending is
on its way, or held by the relay, or answered by a call on its way back. Times
are in nanoseconds, delays in milliseconds.
-/

namespace Tailgate

open Procedure BigEndian ServerSession Option
open List hiding after

structure PumpController where
  deadline : Option ℕ := none
  nextRequestId : ℕ := 1
  /-- The number of the request that is pending, or zero. -/
  pendingRequestId : ℕ := 0
  immediate : Bool := false

namespace PumpController

def ceilMilliseconds (time : ℕ) : ℕ := (time + (milliseconds - 1)) / milliseconds

def lastRequestId : ℕ := 2 ^ 64 - 1

variable (localOutputPending : Bool) (deadline : Option ℕ) (c : PumpController)

def isCurrent : Bool :=
  c.pendingRequestId != 0 && (localOutputPending && c.immediate ||
      !localOutputPending && !c.immediate && deadline == c.deadline)

def delayFor (now : ℕ) : Option ℕ :=
  if localOutputPending then
    some 0
  else
    deadline.map fun deadline => min (ceilMilliseconds (deadline - now)) maximumPumpDelay

/-- **Say when the node wants to be called**, if that has changed. -/
def update (now : ℕ) :
    EStateM PumpError PumpController (Option PumpSchedule) := fun c =>
  let deadline := deadline.map fun deadline => ceilMilliseconds deadline * milliseconds
  if c.isCurrent localOutputPending deadline then
    .ok none c
  else if !localOutputPending && deadline.isNone && c.pendingRequestId == 0 then
    .ok none c
  else if c.nextRequestId = lastRequestId then
    .error .requestIdExhausted c
  else
    let delay := delayFor localOutputPending deadline now
    .ok (some { requestId := c.nextRequestId, delay })
      { deadline
        nextRequestId := c.nextRequestId + 1
        pendingRequestId := if delay.isSome then c.nextRequestId else 0
        immediate := localOutputPending }

def reset : PumpController where
  nextRequestId := c.nextRequestId

/-- **The node has been called.** -/
def complete (requestId : ℕ) (c : PumpController) : PumpController :=
  if requestId = c.pendingRequestId then
    { c with pendingRequestId := 0, deadline := none, immediate := false }
  else
    c

theorem complete_of_ne {requestId : ℕ} {c : PumpController} (h : requestId ≠ c.pendingRequestId) :
    c.complete requestId = c := if_neg h

theorem pendingRequestId_complete (requestId : ℕ) (c : PumpController) :
    (c.complete requestId).pendingRequestId =
      if requestId = c.pendingRequestId then 0 else c.pendingRequestId := by
  unfold complete
  split_ifs <;> rfl

@[simp] theorem nextRequestId_complete (requestId : ℕ) (c : PumpController) :
    (c.complete requestId).nextRequestId = c.nextRequestId := by
  unfold complete
  split_ifs <;> rfl

theorem delayFor_le {localOutputPending : Bool} {dl : Option ℕ} {now delay : ℕ}
    (h : delayFor localOutputPending dl now = some delay) : delay ≤ maximumPumpDelay := by
  unfold delayFor at h
  split_ifs at h
  · cases h
    exact Nat.zero_le _
  · obtain ⟨_, -, rfl⟩ := map_eq_some_iff.mp h
    exact min_le_right _ _

/-- **What an update may do**: nothing, or make the next request, which is then
pending if it asks for a call. -/
theorem update_cases (dl : Option ℕ) (now : ℕ) (c : PumpController) :
    update localOutputPending dl now c = .ok none c ∨
    update localOutputPending dl now c = .error .requestIdExhausted c ∨
    ∃ (delay : Option ℕ) (c' : PumpController), update localOutputPending dl now c =
        .ok (some { requestId := c.nextRequestId, delay }) c' ∧
      c.nextRequestId ≠ lastRequestId ∧
      (∀ d, delay = some d → d ≤ maximumPumpDelay) ∧
      c'.nextRequestId = c.nextRequestId + 1 ∧
      c'.pendingRequestId = if delay.isSome then c.nextRequestId else 0 := by
  unfold update
  dsimp only
  split
  · exact .inl rfl
  · split
    · exact .inl rfl
    · split
      · exact .inr (.inl rfl)
      · rename_i hla
        exact .inr (.inr ⟨_, _, rfl, hla, fun d hd => delayFor_le hd, rfl, rfl⟩)

end PumpController

/-! ## Requests and calls on the wire -/

namespace PumpSchedule

structure Valid (schedule : PumpSchedule) : Prop where
  requestId_ne : schedule.requestId ≠ 0
  requestId_lt : schedule.requestId < 2 ^ 64
  delay_le : ∀ delay, schedule.delay = some delay → delay ≤ maximumPumpDelay

def frame (schedule : PumpSchedule) : Frame where
  type := .pumpSchedule
  payload := bytes 8 schedule.requestId ++ bytes 4 (schedule.delay.getD cancelDeadline)

variable {schedule : PumpSchedule}

theorem encodePumpSchedule_eq (h : schedule.Valid) :
    encodePumpSchedule schedule = .ok schedule.frame := by
  refine if_neg ?_
  rintro (hzero | hln)
  · exact h.requestId_ne hzero
  · cases hdl : schedule.delay with
    | none =>
      rw [hdl] at hln
      cases hln
    | some delay =>
      rw [hdl, any_some, decide_eq_true_eq] at hln
      exact absurd (h.delay_le delay hdl) (not_le.mpr hln)

/-- **A request arrives as it was sent.** -/
theorem tryDecodePumpSchedule_frame (h : schedule.Valid) :
    tryDecodePumpSchedule schedule.frame.payload = some schedule := by
  obtain ⟨requestId, delay⟩ := schedule
  have hid : value (bytes 8 requestId) = requestId :=
    value_bytes h.requestId_lt
  have hdl : delay.getD cancelDeadline < 256 ^ 4 := by
    cases delay with
    | none => decide
    | some d => exact (h.delay_le d rfl).trans_lt (by decide)
  have hvl := value_bytes hdl
  unfold tryDecodePumpSchedule frame
  rw [length_append, length_bytes, length_bytes,
    if_neg (not_not.mpr rfl), take_left' (length_bytes 8 _),
    drop_left' (length_bytes 8 _), hid, hvl, if_neg]
  · cases delay with
    | none => rfl
    | some d =>
      have hne : d ≠ cancelDeadline := by
        have hle := h.delay_le d rfl
        unfold maximumPumpDelay at hle
        unfold cancelDeadline
        omega
      rw [getD_some, if_pos hne]
  · rintro (hzero | ⟨hne, hln⟩)
    · exact h.requestId_ne hzero
    · cases delay with
      | none => exact hne rfl
      | some d => exact absurd (h.delay_le d rfl) (not_le.mpr hln)

end PumpSchedule

def pumpFrame (requestId : ℕ) : Frame where
  type := .pump
  payload := bytes 8 requestId

variable {requestId : ℕ}

theorem encodePumpReply_eq (h : requestId ≠ 0) :
    encodePumpReply requestId = .ok (pumpFrame requestId) := if_neg h

theorem tryDecodePumpReply_pumpFrame (h : requestId ≠ 0) (hlt : requestId < 2 ^ 64) :
    tryDecodePumpReply (pumpFrame requestId).payload = some requestId := by
  have hid : value (bytes 8 requestId) = requestId := value_bytes hlt
  unfold tryDecodePumpReply pumpFrame
  rw [length_bytes, if_neg (not_not.mpr rfl), hid, if_neg h]

theorem pumpFrame_inj {a b : ℕ} (ha : a < 2 ^ 64) (hb : b < 2 ^ 64)
    (h : pumpFrame a = pumpFrame b) : a = b := by
  have hby : bytes 8 a = bytes 8 b := congrArg Frame.payload h
  have hvl : value (bytes 8 a) = a := value_bytes ha
  rw [hby] at hvl
  exact hvl.symm.trans (value_bytes hb)

/-! ## What the session does with them -/

namespace ServerSession

variable {s : ServerSession} {schedule : PumpSchedule}

theorem process_frame (lib : RelayLibrary) (hsta : s.state = .active)
    (h : schedule.Valid) (now : ℕ) :
    process lib schedule.frame now s = .ok { pumpScheduleChanged := (s.acceptPump schedule now).1 }
        (s.acceptPump schedule now).2 := by
  refine (requireState_of_eq hsta).trans ?_
  unfold processFrame
  rw [PumpSchedule.tryDecodePumpSchedule_frame h]
  rfl

/-- **A request that is not newer changes nothing.** -/
theorem acceptPump_of_le (h : schedule.requestId ≤ s.pumpRequestId) (now : ℕ) :
    s.acceptPump schedule now = (false, s) := if_pos h

theorem acceptPump_of_lt (h : s.pumpRequestId < schedule.requestId) (now : ℕ) :
    (s.acceptPump schedule now).2 = { s with
      pumpRequestId := schedule.requestId
      pumpDeadline :=
        (schedule.delay.map fun delay => now + delay * milliseconds).map (spaced s.lastPump) } := by
  unfold acceptPump
  rw [if_neg (not_le.mpr h)]

theorem le_spaced (last deadline : ℕ) :
    last + minimumPumpInterval ≤ spaced (some last) deadline := by
  unfold spaced
  dsimp only
  split_ifs with h
  · exact le_rfl
  · exact not_lt.mp h

theorem spaced_le (lastPump : Option ℕ) (dl : ℕ) : spaced lastPump dl ≤ dl ∨
      ∃ last, lastPump = some last ∧ spaced lastPump dl ≤ last + minimumPumpInterval := by
  cases lastPump with
  | none => exact .inl le_rfl
  | some last =>
    unfold spaced
    dsimp only
    split_ifs
    · exact .inr ⟨last, rfl, le_rfl⟩
    · exact .inl le_rfl

/-- **What taking a pump may do**: nothing, or call the node for the request
that is due. -/
theorem takeDuePump_cases (hsta : s.state = .active) (now later : ℕ)
    (hhe : ∀ dl, s.pumpDeadline = some dl → s.pumpRequestId ≠ 0) :
    takeDuePump now later s = .ok none s ∨
    ∃ dl, s.pumpDeadline = some dl ∧ dl ≤ now ∧
      takeDuePump now later s = .ok (some (pumpFrame s.pumpRequestId))
        { s with pumpDeadline := none, lastPump := some later } := by
  cases hdl : s.pumpDeadline with
  | none =>
    refine .inl ((requireState_of_eq hsta).trans ?_)
    rw [hdl]
  | some dl =>
    by_cases hnow : now < dl
    · refine .inl ((requireState_of_eq hsta).trans ?_)
      rw [hdl]
      exact if_pos hnow
    · refine .inr ⟨dl, rfl, not_lt.mp hnow, (requireState_of_eq hsta).trans ?_⟩
      rw [hdl, encodePumpReply_eq (hhe dl hdl)]
      exact if_neg hnow

end ServerSession

/-! ## The node and the relay joined -/

/-- **A node and its relay**, with the channels between them. -/
structure PumpLink where
  controller : PumpController := {}
  session : ServerSession
  requests : List Frame := []
  replies : List Frame := []
  now : ℕ
  issued : List PumpSchedule := []
  arrivals : List (PumpSchedule × ℕ) := []
  pumps : List ℕ := []

namespace PumpLink

open PumpController

inductive Event where
  | update (localOutputPending : Bool) (deadline : Option ℕ)
  | deliver
  /-- The relay calls the node if it is time; the clock may go on meanwhile. -/
  | takeDuePump (elapsed : ℕ)
  | complete
  | reset
  | advance (elapsed : ℕ)

def update (localOutputPending : Bool) (deadline : Option ℕ) (p : PumpLink) : PumpLink :=
  match p.controller.update localOutputPending deadline p.now with
  | .ok (some schedule) controller =>
    { p with
      controller
      issued := p.issued ++ [schedule]
      requests := p.requests ++ (encodePumpSchedule schedule).toOption.toList }
  | .ok none controller => { p with controller }
  | .error _ controller => { p with controller }

variable (lib : RelayLibrary)

def deliver (p : PumpLink) : PumpLink :=
  match p.requests with
  | [] => p
  | frame :: requests =>
    { p with
      session := after (process lib frame p.now) p.session
      requests
      arrivals := p.arrivals ++ ((tryDecodePumpSchedule frame.payload).map (·, p.now)).toList }

def takeDuePump (elapsed : ℕ) (p : PumpLink) : PumpLink :=
  let later := p.now + elapsed
  match ServerSession.takeDuePump p.now later p.session with
  | .ok (some frame) session =>
    { p with session, replies := p.replies ++ [frame], now := later, pumps := p.pumps ++ [later] }
  | .ok none session => { p with session, now := later }
  | .error _ session => { p with session, now := later }

def complete (p : PumpLink) : PumpLink :=
  match p.replies with
  | [] => p
  | frame :: replies =>
    match tryDecodePumpReply frame.payload with
    | none => { p with replies }
    | some requestId => { p with controller := p.controller.complete requestId, replies }

/-- **What happens.** -/
def next (p : PumpLink) : Event → PumpLink
  | .update localOutputPending deadline => p.update localOutputPending deadline
  | .deliver => p.deliver lib
  | .takeDuePump elapsed => p.takeDuePump elapsed
  | .complete => p.complete
  | .reset => { p with controller := p.controller.reset }
  | .advance elapsed => { p with now := p.now + elapsed }

/-- **Every interleaving** of a controller that starts and a session that has
become active. -/
def interleavings : TransitionSystem PumpLink Event where
  init p := ∃ (session : ServerSession) (now : ℕ), p = { session, now } ∧
    session.state = .active ∧ session.pumpRequestId = 0 ∧ session.pumpDeadline = none ∧
    session.lastPump = none
  step p event p' := p' = p.next lib event

def arrived (arrivals : List (PumpSchedule × ℕ)) : ℕ :=
  (arrivals.getLast?.map fun arrival => arrival.1.requestId).getD 0

/-- **The request that is pending is not lost.** -/
structure Tracked (p : PumpLink) : Prop where
  active : p.session.state = .active
  /-- There is a number for the next request. -/
  next_pos : p.controller.nextRequestId ≠ 0
  next_lt : p.controller.nextRequestId < 2 ^ 64
  /-- Requests have been made with rising numbers. -/
  rising : p.issued.Pairwise fun a b => a.requestId < b.requestId
  /-- All of them can be sent, and come before the next. -/
  valid : ∀ schedule ∈ p.issued, schedule.Valid ∧ schedule.requestId < p.controller.nextRequestId
  /-- They arrive in the order they have been made. -/
  channel : ∃ waiting, p.issued = p.arrivals.map Prod.fst ++ waiting ∧
    p.requests = waiting.map PumpSchedule.frame
  /-- Calls are for requests that have been made. -/
  replies : ∃ requestIds : List ℕ, p.replies = requestIds.map pumpFrame ∧
    ∀ requestId ∈ requestIds, requestId ≠ 0 ∧ requestId < 2 ^ 64
  /-- The relay knows the number of the last request. -/
  known : p.session.pumpRequestId = arrived p.arrivals
  /-- What is pending is the last request, and asks for a call. -/
  pending : p.controller.pendingRequestId ≠ 0 →
    ∃ delay, p.issued.getLast? = some ⟨p.controller.pendingRequestId, some delay⟩
  /-- A request that has arrived last is held, or has been answered. -/
  held : ∀ requestId delay time, p.arrivals.getLast? = some (⟨requestId, some delay⟩, time) →
    p.session.pumpDeadline =
        some (ServerSession.spaced p.session.lastPump (time + delay * milliseconds)) ∨
      pumpFrame requestId ∈ p.replies ∨ p.controller.pendingRequestId ≠ requestId
  /-- What is held is for a request that has arrived. -/
  deadline : ∀ deadline, p.session.pumpDeadline = some deadline → p.session.pumpRequestId ≠ 0
  spaced : ∀ deadline last, p.session.pumpDeadline = some deadline →
    p.session.lastPump = some last → last + minimumPumpInterval ≤ deadline
  /-- The relay knows when it has called the node last. -/
  last : p.session.lastPump = p.pumps.getLast?
  apart : p.pumps.IsChain fun a b => a + minimumPumpInterval ≤ b

section Steps

variable {p : PumpLink}

theorem Tracked.mem_issued (h : p.Tracked) {arrival : PumpSchedule × ℕ}
    (har : arrival ∈ p.arrivals) : arrival.1 ∈ p.issued := by
  obtain ⟨_, his, -⟩ := h.channel
  rw [his]
  exact mem_append_left _ (mem_map_of_mem har)

variable {delay : Option ℕ} {requestId time : ℕ} (h : p.Tracked)

include h

theorem Tracked.of_getLast (hla : p.arrivals.getLast? = some (⟨requestId, delay⟩, time)) :
    requestId ≠ 0 ∧ requestId < p.controller.nextRequestId := by
  obtain ⟨hvd, hlt⟩ := h.valid _ (h.mem_issued (mem_of_getLast? hla))
  exact ⟨hvd.requestId_ne, hlt⟩

theorem Tracked.of_getLast_lt
    (hla : p.arrivals.getLast? = some (⟨requestId, delay⟩, time)) : requestId < 2 ^ 64 :=
  (h.of_getLast hla).2.trans h.next_lt

theorem Tracked.issue {controller : PumpController}
    (hex : p.controller.nextRequestId ≠ lastRequestId)
    (hdl : ∀ d, delay = some d → d ≤ maximumPumpDelay)
    (hnx : controller.nextRequestId = p.controller.nextRequestId + 1)
    (hpd : controller.pendingRequestId =
      if delay.isSome then p.controller.nextRequestId else 0) : { p with
      controller
      issued := p.issued ++ [⟨p.controller.nextRequestId, delay⟩]
      requests := p.requests ++
        [PumpSchedule.frame ⟨p.controller.nextRequestId, delay⟩] : PumpLink }.Tracked := { h with
  next_pos := by
    rw [hnx]
    exact Nat.succ_ne_zero _
  next_lt := by
    have hlt := h.next_lt
    unfold lastRequestId at hex
    rw [hnx]
    omega
  rising := by
    refine pairwise_append.mpr ⟨h.rising, pairwise_singleton _ _, ?_⟩
    intro schedule hsc _ hot
    rw [mem_singleton.mp hot]
    exact (h.valid schedule hsc).2
  valid := by
    intro schedule hsc
    rw [hnx]
    obtain hold | hnew := mem_append.mp hsc
    · exact ⟨(h.valid schedule hold).1, (h.valid schedule hold).2.trans (Nat.lt_succ_self _)⟩
    · rw [mem_singleton.mp hnew]
      exact ⟨⟨h.next_pos, h.next_lt, hdl⟩, Nat.lt_succ_self _⟩
  channel := by
    obtain ⟨waiting, his, hrq⟩ := h.channel
    refine ⟨waiting ++ [⟨p.controller.nextRequestId, delay⟩], ?_, ?_⟩
    · rw [his, append_assoc]
    · rw [hrq, map_append]
      rfl
  pending := by
    intro hne
    cases delay with
    | none => exact absurd hpd hne
    | some d =>
      have hid : controller.pendingRequestId = p.controller.nextRequestId := hpd
      refine ⟨d, ?_⟩
      rw [getLast?_concat, hid]
  held := by
    intro _ _ _ hla
    -- What has arrived was asked for before, so it is not pending any more.
    obtain ⟨_, _⟩ := h.of_getLast hla
    refine .inr (.inr ?_)
    rw [hpd]
    split_ifs <;> omega }

theorem Tracked.update (localOutputPending : Bool) (dl : Option ℕ) :
    (p.update localOutputPending dl).Tracked := by
  unfold PumpLink.update
  obtain hno | hth | ⟨delay, controller, hso, hex, hdl, hnx, hpd⟩ :=
    update_cases localOutputPending dl p.now p.controller
  · rw [hno]
    exact h
  · rw [hth]
    exact h
  · have hvd : PumpSchedule.Valid ⟨p.controller.nextRequestId, delay⟩ :=
      ⟨h.next_pos, h.next_lt, hdl⟩
    rw [hso]
    dsimp only
    rw [PumpSchedule.encodePumpSchedule_eq hvd]
    exact h.issue hex hdl hnx hpd

theorem Tracked.arrived_lt {schedule : PumpSchedule} {waiting : List PumpSchedule}
    (his : p.issued = p.arrivals.map Prod.fst ++ schedule :: waiting)
    (hvd : schedule.Valid) : p.session.pumpRequestId < schedule.requestId := by
  have hrs := h.rising
  rw [h.known]
  unfold arrived
  cases hla : p.arrivals.getLast? with
  | none => exact Nat.pos_of_ne_zero hvd.requestId_ne
  | some arrival =>
    rw [his] at hrs
    have hbe := (pairwise_append.mp hrs).2.2
    exact hbe arrival.1 (mem_map_of_mem (mem_of_getLast? hla)) schedule mem_cons_self

theorem Tracked.deliver (lib : RelayLibrary) : (p.deliver lib).Tracked := by
  obtain ⟨waiting, his, hrq⟩ := h.channel
  unfold PumpLink.deliver
  cases waiting with
  | nil =>
    rw [hrq]
    exact h
  | cons schedule waiting =>
    have hvd : schedule.Valid := by
      refine (h.valid schedule ?_).1
      rw [his]
      exact mem_append_right _ mem_cons_self
    -- The numbers rise along the channel, so the relay takes the request.
    have hlt := h.arrived_lt his hvd
    have hpr : after (process lib schedule.frame p.now) p.session =
        (p.session.acceptPump schedule p.now).2 := by
      unfold after
      rw [process_frame lib h.active hvd]
    rw [hrq, map_cons]
    dsimp only
    rw [hpr, acceptPump_of_lt hlt, PumpSchedule.tryDecodePumpSchedule_frame hvd]
    refine { h with
      channel := ⟨waiting, ?_, rfl⟩
      known := ?_
      held := ?_
      deadline := fun _ _ => hvd.requestId_ne
      spaced := ?_ }
    · rw [his, map_append, append_assoc]
      rfl
    · show schedule.requestId = arrived (p.arrivals ++ [(schedule, p.now)])
      unfold arrived
      rw [getLast?_concat]
      rfl
    · intro _ _ _ hla
      change (p.arrivals ++ [(schedule, p.now)]).getLast? = _ at hla
      rw [getLast?_concat] at hla
      cases hla
      exact .inl rfl
    · intro dl last hdl hla
      rw [hla] at hdl
      obtain ⟨dl, -, rfl⟩ := map_eq_some_iff.mp hdl
      exact le_spaced last dl

theorem Tracked.pumpRequestId_lt : p.session.pumpRequestId < 2 ^ 64 := by
  rw [h.known]
  unfold arrived
  cases hla : p.arrivals.getLast? with
  | none => decide
  | some => exact (h.valid _ (h.mem_issued (mem_of_getLast? hla))).1.requestId_lt

theorem Tracked.takeDuePump (elapsed : ℕ) : (p.takeDuePump elapsed).Tracked := by
  unfold PumpLink.takeDuePump
  dsimp only
  obtain hno | ⟨dl, hdl, hdue, hpm⟩ :=
    takeDuePump_cases h.active p.now (p.now + elapsed) h.deadline
  · rw [hno]
    exact { h with }
  · have hne := h.deadline dl hdl
    have hlt := h.pumpRequestId_lt
    rw [hpm]
    refine { h with
      replies := ?_
      held := ?_
      deadline := nofun
      spaced := nofun
      last := ?_
      apart := ?_ }
    · obtain ⟨requestIds, hrp, hids⟩ := h.replies
      refine ⟨requestIds ++ [p.session.pumpRequestId], ?_, ?_⟩
      · rw [hrp, map_append]
        rfl
      · intro requestId hmem
        obtain hold | hnew := mem_append.mp hmem
        · exact hids requestId hold
        · rw [mem_singleton.mp hnew]
          exact ⟨hne, hlt⟩
    · intro requestId _ _ hla
      refine .inr (.inl (mem_append_right _ ?_))
      have hkn : p.session.pumpRequestId = requestId := by
        rw [h.known]
        unfold arrived
        rw [show p.arrivals.getLast? = _ from hla]
        rfl
      rw [hkn]
      exact mem_singleton_self _
    · rw [getLast?_concat]
    · refine isChain_append.mpr ⟨h.apart, isChain_singleton _, ?_⟩
      intro last hla _ hlr
      cases hlr
      -- The call comes no earlier than its deadline, which is spaced.
      have hsp := h.spaced dl last hdl (h.last.trans hla)
      omega

theorem Tracked.complete : p.complete.Tracked := by
  obtain ⟨requestIds, hrp, hids⟩ := h.replies
  unfold PumpLink.complete
  cases requestIds with
  | nil =>
    rw [hrp]
    exact h
  | cons requestId requestIds =>
    obtain ⟨hne, hlt⟩ := hids requestId mem_cons_self
    rw [hrp, map_cons]
    dsimp only
    rw [tryDecodePumpReply_pumpFrame hne hlt]
    dsimp only
    refine { h with
      next_pos := ?_
      next_lt := ?_
      valid := ?_
      replies := ⟨requestIds, rfl, fun id hid => hids id (mem_cons_of_mem _ hid)⟩
      pending := ?_
      held := ?_ }
    · rw [nextRequestId_complete]
      exact h.next_pos
    · rw [nextRequestId_complete]
      exact h.next_lt
    · intro schedule hsc
      rw [nextRequestId_complete]
      exact h.valid schedule hsc
    · intro hpd
      rw [pendingRequestId_complete] at hpd
      have hot : requestId ≠ p.controller.pendingRequestId := by
        rintro rfl
        exact hpd (if_pos rfl)
      rw [if_neg hot] at hpd
      rw [complete_of_ne hot]
      exact h.pending hpd
    · intro other delay time hla
      have hzero := (h.of_getLast hla).1
      have hdn (hth : other = requestId ∨ p.controller.pendingRequestId ≠ other) :
          (p.controller.complete requestId).pendingRequestId ≠ other := by
        rw [pendingRequestId_complete]
        split_ifs with hsm
        · exact hzero.symm
        · rintro rfl
          exact hth.elim (fun heq => hsm heq.symm) (fun hne => hne rfl)
      obtain hhe | hre | hpd := h.held other delay time hla
      · exact .inl hhe
      · -- The answer is the call that is taken, or it comes behind it.
        rw [hrp, map_cons] at hre
        obtain hth | hlr := mem_cons.mp hre
        · exact .inr (.inr (hdn (.inl (pumpFrame_inj (h.of_getLast_lt hla) hlt hth))))
        · exact .inr (.inl hlr)
      · exact .inr (.inr (hdn (.inr hpd)))

theorem Tracked.reset : { p with controller := p.controller.reset : PumpLink }.Tracked :=
  { h with
    pending := fun hne => absurd rfl hne
    held := fun _ _ _ hla => .inr (.inr (h.of_getLast hla).1.symm) }

/-- **Whatever happens next, the request that is pending is not lost.** -/
theorem Tracked.next (lib : RelayLibrary) (event : Event) : (p.next lib event).Tracked := by
  cases event with
  | update localOutputPending deadline => exact h.update localOutputPending deadline
  | deliver => exact h.deliver lib
  | takeDuePump elapsed => exact h.takeDuePump elapsed
  | complete => exact h.complete
  | reset => exact h.reset
  | advance => exact { h with }

end Steps

theorem tracked {lib : RelayLibrary} {p : PumpLink} (h : (interleavings lib).Reachable p) :
    p.Tracked := by
  refine TransitionSystem.invariant (P := Tracked) ?_ ?_ h
  · rintro _ ⟨_, _, rfl, hac, hid, hdl, hla⟩
    exact {
      active := hac
      next_pos := Nat.one_ne_zero
      next_lt := Nat.one_lt_two_pow (by decide)
      rising := .nil
      valid := nofun
      channel := ⟨[], rfl, rfl⟩
      replies := ⟨[], rfl, nofun⟩
      known := hid
      pending := fun hne => absurd rfl hne
      held := nofun
      deadline := fun _ hd => nomatch hdl.symm.trans hd
      spaced := fun _ _ hd => nomatch hdl.symm.trans hd
      last := hla
      apart := isChain_nil }
  · rintro p ev _ hp rfl
    exact hp.next lib ev

theorem Tracked.held_of_empty {p : PumpLink} (h : p.Tracked)
    (hpd : p.controller.pendingRequestId ≠ 0) (hrq : p.requests = [])
    (hre : p.replies = []) :
    ∃ delay time, p.arrivals.getLast? = some (⟨p.controller.pendingRequestId, some delay⟩, time) ∧
      p.session.pumpDeadline =
        some (ServerSession.spaced p.session.lastPump (time + delay * milliseconds)) := by
  obtain ⟨delay, his⟩ := h.pending hpd
  obtain ⟨waiting, hwt, hfr⟩ := h.channel
  obtain rfl : waiting = [] := map_eq_nil_iff.mp (hfr.symm.trans hrq)
  rw [hwt, append_nil, getLast?_map] at his
  obtain ⟨⟨_, time⟩, hla, rfl⟩ := map_eq_some_iff.mp his
  refine ⟨delay, time, hla, ?_⟩
  obtain hhe | hrp | hot := h.held _ _ _ hla
  · exact hhe
  · rw [hre] at hrp
    cases hrp
  · exact absurd rfl hot

/-- **No pump is lost.** However calls, deliveries and the clock interleave: if
a request is pending and nothing is on its way, the relay holds a deadline for
this very request, not later than its delay after it has arrived or than the
interval after the last pump. A request that is not newer than what the relay
knows changes nothing there, a call for an older request completes nothing, the
numbers of requests rise, and pumps are at least the interval apart. -/
theorem no_pump_lost {lib : RelayLibrary} {p : PumpLink} (h : (interleavings lib).Reachable p) :
    (p.controller.pendingRequestId ≠ 0 → p.requests = [] → p.replies = [] →
      p.session.pumpRequestId = p.controller.pendingRequestId ∧
      ∃ deadline delay time, p.session.pumpDeadline = some deadline ∧
        p.arrivals.getLast? = some (⟨p.controller.pendingRequestId, some delay⟩, time) ∧
        (deadline ≤ time + delay * milliseconds ∨
          ∃ last, p.pumps.getLast? = some last ∧ deadline ≤ last + minimumPumpInterval)) ∧
    (∀ (frame : Frame) (schedule : PumpSchedule) (now : ℕ), frame.type = .pumpSchedule →
      tryDecodePumpSchedule frame.payload = some schedule →
      schedule.requestId ≤ p.session.pumpRequestId →
      process lib frame now p.session = .ok {} p.session) ∧
    (∀ requestId, requestId < p.controller.pendingRequestId →
      p.controller.complete requestId = p.controller) ∧
    (p.issued.Pairwise fun a b => a.requestId < b.requestId) ∧
    p.pumps.IsChain fun a b => a + minimumPumpInterval ≤ b := by
  have htr := tracked h
  refine ⟨?_, ?_, ?_, htr.rising, htr.apart⟩
  · intro hpd hrq hrp
    obtain ⟨delay, time, hla, hdl⟩ := htr.held_of_empty hpd hrq hrp
    constructor
    · rw [htr.known]
      unfold arrived
      rw [hla]
      rfl
    · refine ⟨_, delay, time, hdl, hla, ?_⟩
      rw [← htr.last]
      exact spaced_le p.session.lastPump (time + delay * milliseconds)
  · intro _ _ _ hty hdc hsl
    refine (requireState_of_eq htr.active).trans ?_
    unfold processFrame
    rw [hty, hdc]
    dsimp only
    rw [acceptPump_of_le hsl]
  · intro _ hlt
    exact complete_of_ne hlt.ne

def waitingLink : PumpLink :=
  [Event.update false (some 2500000), .deliver, .advance 1000000].foldl
    (next plainLibrary) { session := { options := {}, state := .active }, now := 0 }

theorem no_pump_lost_waiting :
    waitingLink.controller.pendingRequestId = 1 ∧ waitingLink.requests = [] ∧
      waitingLink.replies = [] ∧ waitingLink.session.pumpRequestId = 1 ∧
      waitingLink.session.pumpDeadline = some 3000000 := by
  have hin : (interleavings plainLibrary).Reachable
      { session := { options := {}, state := .active }, now := 0 } :=
    .init ⟨_, _, rfl, rfl, rfl, rfl, rfl⟩
  have hrc : (interleavings plainLibrary).Reachable waitingLink :=
    hin.of_foldl (fun _ _ => rfl) _
  have hpd : waitingLink.controller.pendingRequestId = 1 := by decide +kernel
  have hrq : waitingLink.requests = [] := by decide +kernel
  have hrp : waitingLink.replies = [] := by decide +kernel
  obtain ⟨hid, -⟩ := (no_pump_lost hrc).1 (hpd ▸ Nat.one_ne_zero) hrq hrp
  exact ⟨hpd, hrq, hrp, hid.trans hpd, by decide +kernel⟩

end PumpLink

end Tailgate
