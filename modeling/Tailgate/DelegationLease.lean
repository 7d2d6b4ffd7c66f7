import Tailgate.Delegation
import Tailgate.DerpConnections
import Tailgate.TransitionSystem

/-!
# The delegation lease

`DelegationLease` answers the requests of one client about the client's DERP
connections, which the relay holds. A handoff is *prepared*, then either
*released* to the client or *acquired* from it, then *committed*; meanwhile a
lease runs, and when it expires the relay closes the connections.

A call reads the clock once, at `now`. `PollMove` and `AnswerMove` list what a
call can do.
-/

namespace Tailgate

open List Option DerpConnections

inductive LeaseError
  | noBufferSpace
  | derpNotProvisioned
  deriving DecidableEq

/-- **The lease** of one client. -/
structure DelegationLease where
  /-- The DERP connections the relay holds for the client. -/
  derps : DerpConnections
  revision : ℕ := 0
  request : Option DelegationRequest := none
  reply : Option DelegationReply := none
  deadline : Option ℕ := none
  output : List DelegationReply := []
  /-- Whether the current handoff has touched ownership. -/
  changedOwnership : Bool := false
  deriving DecidableEq

namespace DelegationLease

def leaseDuration : ℕ := 20000

def maximumReplies : ℕ := 64

section

variable (l : DelegationLease) (request : DelegationRequest)

def applyMap (revision : ℕ) : DelegationLease :=
  { l with revision := revision }

def push (reply : DelegationReply) : Except LeaseError DelegationLease :=
  if maximumReplies ≤ l.output.length then .error .noBufferSpace
  else .ok { l with output := l.output ++ [reply] }

def fail (failure : DelegationFailure) : Except LeaseError DelegationLease :=
  l.push (request.answer .failed failure)

def replyWith (status : DelegationStatus) (failure : DelegationFailure) :
    Except LeaseError DelegationLease :=
  { l with reply := some (request.answer status failure) }.push (request.answer status failure)

def enable (enabled : Bool) : DelegationLease :=
  { l with derps := l.derps.setEnabled enabled }

def ready (regions : List ℕ) : Except LeaseError Bool :=
  regions.allM fun region =>
    match l.derps.forRegion region with
    | none => .error .derpNotProvisioned
    | some d => .ok d.connected

def poll (now : ℕ) : Except LeaseError DelegationLease :=
  match l.deadline, l.request with
  | some deadline, some request =>
    if deadline ≤ now then
      let l := if l.changedOwnership then l.enable false else l
      { l with deadline := none }.replyWith request .failed .leaseExpired
    else if request.action = .acquire ∧ l.reply = none then do
      if ← l.ready request.regions then l.replyWith request .ready .none else .ok l
    else .ok l
  | _, _ => .ok l

def stale : Bool :=
  match l.request with
  | none => false
  | some last => decide (request.generation < last.generation
      ∨ request.generation = last.generation ∧ request.requestId ≤ last.requestId)

def continues : Bool :=
  match l.request with
  | none => false
  | some last => request.generation == last.generation && request.regions == last.regions
      && l.deadline.isSome

def repeats : Bool :=
  match l.request with
  | none => false
  | some last => request.generation == last.generation

/-- Whether a request comes in a newer generation than a handoff that has
touched ownership. -/
def supersedes : Bool :=
  match l.request with
  | none => false
  | some last => decide (last.generation < request.generation) && l.changedOwnership

/-- The checks a new request has to pass, in their order, and the failure it
is refused with. -/
def refusal : Option DelegationFailure :=
  if l.stale request then some .staleGeneration
  else if request.mapRevision ≠ l.revision then some .staleMap
  else if request.regions.any fun region => l.derps.entries.all fun d => d.region != region
    then some .unknownRegion
  else if request.action ≠ .prepare ∧ l.continues request = false then some .invalidState
  else if request.action = .prepare ∧ l.repeats request = true
      ∨ (request.action = .release ∨ request.action = .acquire)
        ∧ l.reply.map DelegationReply.status ≠ some .prepared then some .invalidState
  else if request.action = .commit ∧ l.reply.map DelegationReply.status ≠ some .ready
      ∧ l.reply.map DelegationReply.status ≠ some .released then some .invalidState
  else none

def grant (now : ℕ) (request : DelegationRequest) : Except LeaseError DelegationLease :=
  let l := if l.supersedes request then l.enable false else l
  let l := { l with
    request := some request, reply := none, deadline := some (now + leaseDuration) }
  match request.action with
  | .prepare => { l with changedOwnership := false }.replyWith request .prepared .none
  | .release => { l.enable false with changedOwnership := true }.replyWith request .released .none
  | .acquire => { l.enable true with changedOwnership := true }.poll now
  | .commit =>
    { l with deadline := none, changedOwnership := false }.replyWith request .committed .none

def accept (now : ℕ) (request : DelegationRequest) : Except LeaseError DelegationLease := do
  let l ← l.poll now
  if l.request = some request then
    match l.reply with
    | none => .ok l
    | some reply => l.push reply
  else
    match l.refusal request with
    | some failure => l.fail request failure
    | none => l.grant now request

def takeOutput : List DelegationReply × DelegationLease :=
  (l.output, { l with output := [] })

end

/-! ## What a call can do -/

/-- **The outcomes of a poll.** -/
inductive PollMove (l : DelegationLease) (now : ℕ) : DelegationLease → Prop
  | stay (hlive : ∀ r d, l.request = some r → l.deadline = some d → now < d) : PollMove l now l
  /-- The lease expires, and the connections are closed if it touched them. -/
  | expired (request : DelegationRequest) (deadline : ℕ) (hreq : l.request = some request)
      (hdead : l.deadline = some deadline) (hnow : deadline ≤ now) :
      PollMove l now { l with
        derps := if l.changedOwnership then l.derps.setEnabled false else l.derps
        deadline := none
        reply := some (request.answer .failed .leaseExpired)
        output := l.output ++ [request.answer .failed .leaseExpired] }
  | ready (request : DelegationRequest) (deadline : ℕ) (hreq : l.request = some request)
      (hdead : l.deadline = some deadline) (hnow : now < deadline)
      (hact : request.action = .acquire) (hrep : l.reply = none) :
      PollMove l now { l with
        reply := some (request.answer .ready .none)
        output := l.output ++ [request.answer .ready .none] }

variable {l l' : DelegationLease} {request : DelegationRequest} {now : ℕ} {es : List Call}

theorem push_eq_ok {reply : DelegationReply}
    (h : l.push reply = .ok l') : l' = { l with output := l.output ++ [reply] } := by
  unfold push at h
  split at h
  · cases h
  · cases h; rfl

theorem replyWith_eq_ok {st : DelegationStatus} {fail : DelegationFailure}
    (h : l.replyWith request st fail = .ok l') :
    l' = { l with
      reply := some (request.answer st fail)
      output := l.output ++ [request.answer st fail] } :=
  push_eq_ok h

theorem poll_move (h : l.poll now = .ok l') : PollMove l now l' := by
  unfold poll at h
  split at h
  · next deadline request hdead hreq =>
    split at h
    · next hnow =>
      rw [replyWith_eq_ok h]
      have hm := PollMove.expired request deadline hreq hdead hnow
      cases hch : l.changedOwnership with
      | true | false => simpa [enable, hch] using hm
    next hnow =>
    have hsy : PollMove l now l := by
      refine .stay fun r d _ hd => ?_
      rw [hdead] at hd
      cases hd
      exact not_le.mp hnow
    split at h
    · next hacq =>
      cases hry : l.ready request.regions with
      | error => simp [hry, bind, Except.bind] at h
      | ok b =>
        simp only [hry, bind, Except.bind] at h
        cases b with
        | true =>
          rw [replyWith_eq_ok h]
          exact .ready request deadline hreq hdead (not_le.mp hnow) hacq.1 hacq.2
        | false => cases h; exact hsy
    · cases h; exact hsy
  · next hno =>
    cases h
    refine .stay fun r d hr hd => ?_
    exact absurd hr (hno d r hd)

theorem PollMove.request_eq (h : PollMove l now l') : l'.request = l.request := by
  cases h <;> rfl

structure Admissible (l : DelegationLease) (request : DelegationRequest) : Prop where
  not_stale : l.stale request = false
  /-- It was made against the map last applied. -/
  revision_eq : request.mapRevision = l.revision
  /-- A first request opens a generation. -/
  opens : request.action = .prepare → l.repeats request = false
  continues : request.action ≠ .prepare → ∃ last, l.request = some last
    ∧ request.generation = last.generation ∧ request.regions = last.regions
    ∧ l.deadline.isSome = true
  /-- A release or an acquisition follows a preparation. -/
  after_prepared : request.action = .release ∨ request.action = .acquire →
    ∃ p, l.reply = some p ∧ p.status = .prepared
  /-- A commitment follows a release or a completed acquisition. -/
  after_moved : request.action = .commit →
    ∃ p, l.reply = some p ∧ (p.status = .ready ∨ p.status = .released)

theorem admissible_of_refusal (h : l.refusal request = none) : l.Admissible request := by
  unfold refusal at h
  split_ifs at h with hsl hrev hreg hcn hprep hcm
  simp only [not_or, not_and, not_not, ne_eq] at hrev hcn hprep hcm
  constructor
  case not_stale => simpa using hsl
  case revision_eq => exact hrev
  case opens => intro ha; simpa using hprep.1 ha
  case continues =>
    intro ha
    have hc := hcn ha
    unfold DelegationLease.continues at hc
    cases hreq : l.request with
    | none => simp [hreq] at hc
    | some last =>
      simp only [hreq, Bool.not_eq_false, Bool.and_eq_true, beq_iff_eq] at hc
      exact ⟨last, rfl, hc.1.1, hc.1.2, hc.2⟩
  case after_prepared =>
    intro ha
    obtain ⟨p, hp, hs⟩ := map_eq_some_iff.mp (hprep.2 ha)
    exact ⟨p, hp, hs⟩
  case after_moved =>
    intro ha
    by_cases hr : l.reply.map DelegationReply.status = some .ready
    · obtain ⟨p, hp, hs⟩ := map_eq_some_iff.mp hr
      exact ⟨p, hp, .inl hs⟩
    · obtain ⟨p, hp, hs⟩ := map_eq_some_iff.mp (hcm ha hr)
      exact ⟨p, hp, .inr hs⟩

/-- The lease once a request is accepted and answered: `derps` is what becomes
of the connections, `deadline` of the lease. -/
def answered (l : DelegationLease) (request : DelegationRequest) (derps : DerpConnections)
    (deadline : Option ℕ) (changed : Bool) (reply : Option DelegationReply) : DelegationLease :=
  { l with
    derps := derps
    request := some request
    reply := reply
    deadline := deadline
    changedOwnership := changed
    output := l.output ++ reply.toList }

/-- **The outcomes of a request**, once the lease has been polled. -/
inductive AnswerMove (l : DelegationLease) (now : ℕ) (request : DelegationRequest) :
    DelegationLease → Prop
  /-- The request accepted last comes again: its reply, if any, is repeated. -/
  | replayed (hreq : l.request = some request) :
      AnswerMove l now request { l with output := l.output ++ l.reply.toList }
  | refused (failure : DelegationFailure) (hreq : l.request ≠ some request)
      (href : l.refusal request = some failure) :
      AnswerMove l now request { l with output := l.output ++ [request.answer .failed failure] }
  /-- A handoff is prepared. One that it supersedes loses the connections. -/
  | prepared (hadm : l.Admissible request) (hact : request.action = .prepare) :
      AnswerMove l now request (l.answered request
        (if l.supersedes request then l.derps.setEnabled false else l.derps)
        (some (now + leaseDuration)) false (some (request.answer .prepared .none)))
  | released (hadm : l.Admissible request) (hact : request.action = .release) :
      AnswerMove l now request (l.answered request (l.derps.setEnabled false)
        (some (now + leaseDuration)) true (some (request.answer .released .none)))
  /-- The connections are acquired; the reply tells when they are open. -/
  | acquired (hadm : l.Admissible request) (hact : request.action = .acquire)
      (reply : Option DelegationReply)
      (hrep : reply = none ∨ reply = some (request.answer .ready .none)) :
      AnswerMove l now request (l.answered request (l.derps.setEnabled true)
        (some (now + leaseDuration)) true reply)
  /-- The handoff is complete, and no lease runs any more. -/
  | committed (hadm : l.Admissible request) (hact : request.action = .commit) :
      AnswerMove l now request (l.answered request l.derps none false
        (some (request.answer .committed .none)))

theorem Admissible.supersedes_eq_false
    (h : l.Admissible request) (hact : request.action ≠ .prepare) :
    l.supersedes request = false := by
  obtain ⟨_, hla, hgen, -, -⟩ := h.continues hact
  simp [supersedes, hla, hgen]

theorem grant_move (hadm : l.Admissible request) (h : l.grant now request = .ok l') :
    AnswerMove l now request l' := by
  unfold grant at h
  cases hact : request.action with
  | prepare =>
    have hm : AnswerMove l now request _ := .prepared hadm hact
    simp only [hact] at h
    rw [replyWith_eq_ok h]
    cases hsup : l.supersedes request with
    | true => simpa [answered, enable, hsup] using hm
    | false => simpa [answered, hsup] using hm
  | release =>
    have hsup := hadm.supersedes_eq_false (by rw [hact]; decide)
    simp only [hact, hsup] at h
    rw [replyWith_eq_ok h]
    exact .released hadm hact
  | acquire =>
    have hsup := hadm.supersedes_eq_false (by rw [hact]; decide)
    simp only [hact, hsup] at h
    have h' : (l.answered request (l.derps.setEnabled true) (some (now + leaseDuration)) true
        none).poll now = .ok l' := by simpa [answered, enable] using h
    cases poll_move h' with
    | stay => exact .acquired hadm hact none (.inl rfl)
    | expired _ _ _ hdead hnow =>
      -- a lease just granted has not expired yet
      cases hdead
      simp [leaseDuration] at hnow
    | ready _ _ hreq =>
      cases hreq
      have hm : AnswerMove l now request _ :=
        .acquired hadm hact (some (request.answer .ready .none)) (.inr rfl)
      simpa [answered] using hm
  | commit =>
    have hsup := hadm.supersedes_eq_false (by rw [hact]; decide)
    simp only [hact, hsup] at h
    rw [replyWith_eq_ok h]
    exact .committed hadm hact

/-- **A request that returns has first polled, then taken one of its
outcomes.** -/
theorem accept_move (h : l.accept now request = .ok l') :
    ∃ l₁, l.poll now = .ok l₁ ∧ AnswerMove l₁ now request l' := by
  unfold accept at h
  cases hpl : l.poll now with
  | error => rw [hpl] at h; cases h
  | ok l₁ =>
    refine ⟨l₁, rfl, ?_⟩
    rw [hpl] at h
    simp only [bind, Except.bind] at h
    by_cases hreq : l₁.request = some request
    · rw [if_pos hreq] at h
      have hm : AnswerMove l₁ now request _ := .replayed hreq
      cases hrep : l₁.reply with
      | none =>
        have heq : l₁.output ++ l₁.reply.toList = l₁.output := by simp [hrep]
        simp only [hrep] at h
        cases h
        rw [heq] at hm
        exact hm
      | some =>
        simp only [hrep] at h
        rw [push_eq_ok h]
        simpa [hrep] using hm
    · rw [if_neg hreq] at h
      cases href : l₁.refusal request with
      | some failure =>
        simp only [href] at h
        rw [push_eq_ok h]
        exact .refused failure hreq href
      | none =>
        simp only [href] at h
        exact grant_move (admissible_of_refusal href) h

theorem AnswerMove.drained (h : AnswerMove l now request l') : ∃ out, l'.output = l.output ++ out
      ∧ AnswerMove { l with output := [] } now request { l' with output := out } := by
  cases h with
  | replayed hreq => exact ⟨l.reply.toList, rfl, .replayed hreq⟩
  | refused failure hreq href =>
    exact ⟨[request.answer .failed failure], rfl, .refused failure hreq href⟩
  | prepared hadm hact => exact ⟨_, rfl, .prepared { hadm with } hact⟩
  | released hadm hact => exact ⟨_, rfl, .released { hadm with } hact⟩
  | acquired hadm hact reply hrep =>
    refine ⟨reply.toList, rfl, ?_⟩
    exact acquired (l := { l with output := [] }) { hadm with } hact reply hrep
  | committed hadm hact => exact ⟨_, rfl, .committed { hadm with } hact⟩

/-! ## Calls and runs -/

/-- What is done to a lease: the requests and polls of its session, the maps
and regions of the relay, and the state of the network under its
connections. -/
inductive Call
  | accept (now : ℕ) (request : DelegationRequest)
  | poll (now : ℕ)
  | applyMap (revision : ℕ)
  | ensure (region : ℤ) (host : String)
  | link (region : ℤ) (up : Bool)
  | takeOutput
  deriving DecidableEq

/-- The lease after a call that returns. Refusing an invalid region leaves it
as it was. -/
def call (l : DelegationLease) : Call → Except LeaseError DelegationLease
  | .accept now request => l.accept now request
  | .poll now => l.poll now
  | .applyMap revision => .ok (l.applyMap revision)
  | .ensure region host =>
    match l.derps.ensure region host with
    | .ok (_, derps) => .ok { l with derps := derps }
    | .error _ => .ok l
  | .link region up => .ok { l with derps := l.derps.setConnected region up }
  | .takeOutput => .ok l.takeOutput.2

/-- The lease of a new session, over the connections the relay has then,
under calls that return. -/
def system : TransitionSystem DelegationLease Call where
  init l := ∃ derps, l = { derps := derps }
  step l e l' := l.call e = .ok l'

/-- **What a call that returns does**: only requests and polls touch the handoff. -/
inductive CallMove (l : DelegationLease) : Call → DelegationLease → Prop
  | accept {l' : DelegationLease} (l₁ : DelegationLease) (now : ℕ) (request : DelegationRequest)
      (hpl : PollMove l now l₁) (han : AnswerMove l₁ now request l') :
      CallMove l (.accept now request) l'
  | poll {l' : DelegationLease} (now : ℕ) (hpl : PollMove l now l') : CallMove l (.poll now) l'
  | quiet {e : Call} {l' : DelegationLease} (hreq : l'.request = l.request)
      (hrep : l'.reply = l.reply) (hch : l'.changedOwnership = l.changedOwnership)
      (hen : l'.derps.enabled = l.derps.enabled) (hout : l'.output ⊆ l.output) : CallMove l e l'

theorem call_move {e : Call} (h : l.call e = .ok l') : CallMove l e l' := by
  cases e with
  | accept now request =>
    obtain ⟨l₁, hpl, han⟩ := accept_move h
    exact .accept l₁ now request (poll_move hpl) han
  | poll now => exact .poll now (poll_move h)
  | ensure region host =>
    simp only [call] at h
    cases hens : l.derps.ensure region host with
    | error => rw [hens] at h; cases h; exact .quiet rfl rfl rfl rfl (Subset.refl _)
    | ok =>
      rw [hens] at h
      cases h
      exact .quiet rfl rfl rfl (ensure_enabled hens) (Subset.refl _)
  | takeOutput => cases h; exact .quiet rfl rfl rfl rfl (nil_subset _)
  | _ => cases h; exact .quiet rfl rfl rfl rfl (Subset.refl _)

theorem reachable_of_foldlM
    (hl : system.Reachable l) (h : es.foldlM call l = .ok l') : system.Reachable l' := by
  induction es generalizing l with
  | nil => cases h; exact hl
  | cons e _ ih =>
    rw [foldlM_cons] at h
    cases hcl : l.call e with
    | error => rw [hcl] at h; cases h
    | ok => rw [hcl] at h; exact ih (hl.step hcl) h

def success : DelegationAction → DelegationStatus
  | .prepare => .prepared
  | .release => .released
  | .acquire => .ready
  | .commit => .committed

/-- **The invariant of a lease.** -/
structure Coherent (l : DelegationLease) : Prop where
  /-- A reply stands only for the request accepted last: it is its success or
  the expiry of its lease. -/
  reply_request : ∀ p, l.reply = some p → ∃ r, l.request = some r ∧ p.Answers r
    ∧ (p.status = success r.action ∧ p.failure = .none
      ∨ p.status = .failed ∧ p.failure = .leaseExpired)
  /-- Ownership is touched by a release or an acquisition only. -/
  changed_iff : l.changedOwnership = true ↔
    ∃ r, l.request = some r ∧ (r.action = .release ∨ r.action = .acquire)
  /-- A release leaves the connections closed. -/
  release_off : ∀ r, l.request = some r → r.action = .release → l.derps.enabled = false
  /-- An acquisition opens them until its lease expires. -/
  acquire_on : ∀ r, l.request = some r → r.action = .acquire →
    (∀ p, l.reply = some p → p.status = .ready) → l.derps.enabled = true
  /-- An expiry leaves them closed where ownership was touched. -/
  expired_off : ∀ p, l.reply = some p → p.status = .failed → l.changedOwnership = true →
    l.derps.enabled = false

namespace Coherent

theorem fresh (derps : DerpConnections) : Coherent { derps := derps } := by
  constructor <;> simp

variable {l l' : DelegationLease}

/-- The invariant only reads the request, its reply, the ownership flag and
whether the connections are enabled. -/
theorem congr (hl : Coherent l) (hreq : l'.request = l.request)
    (hrep : l'.reply = l.reply) (hch : l'.changedOwnership = l.changedOwnership)
    (hen : l'.derps.enabled = l.derps.enabled) : Coherent l' := by
  constructor
  case reply_request => rw [hreq, hrep]; exact hl.reply_request
  case changed_iff => rw [hreq, hch]; exact hl.changed_iff
  case release_off => rw [hreq, hen]; exact hl.release_off
  case acquire_on => rw [hreq, hrep, hen]; exact hl.acquire_on
  case expired_off => rw [hrep, hch, hen]; exact hl.expired_off

theorem pollMove {now : ℕ} (hl : Coherent l) (h : PollMove l now l') : Coherent l' := by
  cases h with
  | stay => exact hl
  | expired request _ hreq =>
    constructor
    case reply_request =>
      intro _ hp
      cases hp
      exact ⟨request, hreq, ⟨rfl, rfl, rfl⟩, .inr ⟨rfl, rfl⟩⟩
    case changed_iff => exact hl.changed_iff
    case release_off =>
      intro r hr ha
      split
      · rfl
      · exact hl.release_off r hr ha
    case acquire_on =>
      intro _ _ _ hry
      exact absurd (hry _ rfl) (by simp [DelegationRequest.answer])
    case expired_off =>
      intro p hp hs (hch : l.changedOwnership = true)
      rw [if_pos hch]
      rfl
  | ready request _ hreq _ _ hact hrep =>
    constructor
    case reply_request =>
      intro _ hp
      cases hp
      exact ⟨request, hreq, ⟨rfl, rfl, rfl⟩, .inl ⟨by rw [hact]; rfl, rfl⟩⟩
    case changed_iff => exact hl.changed_iff
    case release_off => exact hl.release_off
    case acquire_on =>
      intro r hr ha _
      exact hl.acquire_on r hr ha (by rw [hrep]; simp)
    case expired_off =>
      intro _ hp hs
      cases hp
      exact absurd hs (by simp [DelegationRequest.answer])

theorem answered {request : DelegationRequest} {derps : DerpConnections}
    {dl : Option ℕ} {changed : Bool} {reply : Option DelegationReply}
    (hrep : reply = none ∨ reply = some (request.answer (success request.action) .none))
    (hch : changed = true ↔ request.action = .release ∨ request.action = .acquire)
    (hrelease : request.action = .release → derps.enabled = false)
    (hacquire : request.action = .acquire → derps.enabled = true) :
    Coherent (l.answered request derps dl changed reply) := by
  have hss {p : DelegationReply} (hp : reply = some p) :
      p = request.answer (success request.action) .none := by
    rcases hrep with h | h
    · rw [h] at hp; cases hp
    · rw [h] at hp; cases hp; rfl
  constructor
  case reply_request =>
    intro _ hp
    rw [hss hp]
    exact ⟨request, rfl, ⟨rfl, rfl, rfl⟩, .inl ⟨rfl, rfl⟩⟩
  case changed_iff =>
    refine hch.trans ⟨fun h => ⟨request, rfl, h⟩, ?_⟩
    rintro ⟨_, hr, h⟩
    cases hr
    exact h
  case release_off =>
    intro _ hr ha
    cases hr
    exact hrelease ha
  case acquire_on =>
    intro _ hr ha _
    cases hr
    exact hacquire ha
  case expired_off =>
    intro _ hp hs
    rw [hss hp] at hs
    cases ha : request.action <;> simp [DelegationRequest.answer, success, ha] at hs

theorem answerMove {now : ℕ} {request : DelegationRequest}
    (hl : Coherent l) (h : AnswerMove l now request l') : Coherent l' := by
  cases h with
  | replayed | refused => exact hl.congr rfl rfl rfl rfl
  | prepared _ hact | committed _ hact =>
    exact answered (.inr (by rw [hact]; rfl)) (by simp [hact]) (by simp [hact]) (by simp [hact])
  | released _ hact =>
    exact answered (.inr (by rw [hact]; rfl)) (by simp [hact]) (by simp) (by simp [hact])
  | acquired _ hact _ hrep =>
    exact answered (by rw [hact]; exact hrep) (by simp [hact]) (by simp [hact]) (by simp)

/-- **Every call that returns keeps the invariant.** -/
theorem call {e : Call} (hl : Coherent l) (h : l.call e = .ok l') : Coherent l' := by
  cases call_move h with
  | accept _ _ _ hpl han => exact (hl.pollMove hpl).answerMove han
  | poll _ hpl => exact hl.pollMove hpl
  | quiet hreq hrep hch hen => exact hl.congr hreq hrep hch hen

end Coherent

theorem coherent_of_reachable (h : system.Reachable l) : Coherent l := by
  refine TransitionSystem.invariant ?_ (fun _ _ _ hl h => hl.call h) h
  rintro _ ⟨derps, rfl⟩
  exact .fresh derps

/-- What is said in answer to a request answers it, and *released* is said of
connections that are closed. -/
theorem AnswerMove.said (h : AnswerMove l now request l') (hl : Coherent l) (hout : l.output = []) :
    ∀ p ∈ l'.output, p.Answers request ∧ (p.status = .released → l'.derps.enabled = false) := by
  intro p hp
  cases h with
  | replayed hreq =>
    rw [hout, nil_append, mem_toList] at hp
    obtain ⟨_, hq, hans, hst⟩ := hl.reply_request p hp
    cases hreq.symm.trans hq
    refine ⟨hans, fun hs => hl.release_off request hreq ?_⟩
    rw [hs] at hst
    cases hact : request.action <;> simp [success, hact] at hst
    rfl
  | refused =>
    rw [hout, nil_append, mem_singleton] at hp
    rw [hp]
    exact ⟨⟨rfl, rfl, rfl⟩, by simp [DelegationRequest.answer]⟩
  | acquired _ _ _ hrep =>
    rcases hrep with rfl | rfl <;> simp [DelegationLease.answered, hout] at hp
    rw [hp]
    exact ⟨⟨rfl, rfl, rfl⟩, by simp [DelegationRequest.answer]⟩
  | released =>
    simp [DelegationLease.answered, hout] at hp
    rw [hp]
    exact ⟨⟨rfl, rfl, rfl⟩, fun _ => rfl⟩
  | _ =>
    simp [DelegationLease.answered, hout] at hp
    rw [hp]
    exact ⟨⟨rfl, rfl, rfl⟩, by simp [DelegationRequest.answer]⟩

/-! ## Order

A request is answered *stale generation* only when it comes out of order. -/

def replies (l : DelegationLease) : List Call → Except LeaseError (List DelegationReply)
  | [] => .ok l.output
  | e :: es => do
    let rest ← replies (← l.call e) es
    if e = .takeOutput then .ok (l.output ++ rest) else .ok rest

def Call.requests (es : List Call) : List DelegationRequest :=
  es.filterMap fun e =>
    match e with
    | .accept _ request => some request
    | _ => none

def Follows (q r : DelegationRequest) : Prop :=
  q.requestId < r.requestId ∧ q.generation ≤ r.generation

/-- A request that follows the one accepted last passes the ordering check. -/
theorem stale_eq_false
    (h : ∀ last, l.request = some last → Follows last request) : l.stale request = false := by
  unfold stale
  split
  · rfl
  · next last hla =>
    obtain ⟨hid, hgen⟩ := h last hla
    rw [decide_eq_false_iff_not]
    rintro (hlt | ⟨-, hle⟩)
    · exact absurd hgen (not_le.mpr hlt)
    · exact absurd hid (not_lt.mpr hle)

structure InOrder (l : DelegationLease) : Prop where
  /-- No reply waiting to be taken is. -/
  output : ∀ p ∈ l.output, p.failure ≠ .staleGeneration
  /-- The reply to the request accepted last is not. -/
  reply : ∀ p, l.reply = some p → p.failure ≠ .staleGeneration

namespace InOrder

variable {l l' : DelegationLease}

theorem answer (hl : InOrder l) {p : Option DelegationReply}
    (hp : ∀ q, p = some q → q.failure ≠ .staleGeneration)
    (hout : l'.output = l.output ++ p.toList) (hrep : l'.reply = l.reply ∨ l'.reply = p) :
    InOrder l' := by
  constructor
  · intro q hq
    rw [hout, mem_append] at hq
    rcases hq with hq | hq
    · exact hl.output q hq
    · exact hp q (mem_toList.mp hq)
  · intro q hq
    rcases hrep with h | h
    · exact hl.reply q (h ▸ hq)
    · exact hp q (h ▸ hq)

theorem answered {request : DelegationRequest} {status : DelegationStatus}
    {failure : DelegationFailure} (hl : InOrder l)
    (hout : l'.output = l.output ++ [request.answer status failure])
    (hrep : l'.reply = some (request.answer status failure))
    (hne : failure ≠ .staleGeneration := by decide) : InOrder l' := by
  refine hl.answer (p := some _) (fun q hq => ?_) hout (.inr hrep)
  cases hq
  exact hne

theorem pollMove {now : ℕ} (hl : InOrder l) (h : PollMove l now l') : InOrder l' := by
  cases h with
  | stay => exact hl
  | expired | ready => exact hl.answered rfl rfl

theorem answerMove {now : ℕ} {request : DelegationRequest}
    (hl : InOrder l) (hsl : l.stale request = false) (h : AnswerMove l now request l') :
    InOrder l' := by
  cases h with
  | replayed => exact hl.answer hl.reply rfl (.inl rfl)
  | refused failure _ href =>
    refine hl.answer (p := some (request.answer .failed failure)) ?_ rfl (.inl rfl)
    intro _ hq
    cases hq
    -- past the ordering check every failure is another one
    rintro rfl
    unfold refusal at href
    rw [hsl, if_neg Bool.false_ne_true] at href
    split_ifs at href <;> cases href
  | prepared | released | committed => exact hl.answered rfl rfl
  | acquired _ _ reply hrep =>
    refine hl.answer (p := reply) ?_ rfl (.inr rfl)
    rcases hrep with rfl | rfl
    · simp
    · simp [DelegationRequest.answer]

/-- A call keeps the lease in order, if the request it may bring follows the
one accepted last. -/
theorem call {e : Call} (hl : InOrder l)
    (hfl : ∀ last, l.request = some last → ∀ r ∈ Call.requests [e], Follows last r)
    (h : l.call e = .ok l') : InOrder l' := by
  cases call_move h with
  | accept _ _ request hpl han =>
    refine (hl.pollMove hpl).answerMove (stale_eq_false fun last hla => ?_) han
    exact hfl last (hpl.request_eq ▸ hla) request (by simp [Call.requests])
  | poll _ hpl => exact hl.pollMove hpl
  | quiet _ hrep _ _ hout =>
    exact ⟨fun p hp => hl.output p (hout hp), fun p hp => hl.reply p (hrep ▸ hp)⟩

end InOrder

variable {e : Call}

/-- After a call the request accepted last is the same, or the one it
brought. -/
theorem request_of_call (h : l.call e = .ok l') :
    l'.request = l.request ∨ ∃ r ∈ Call.requests [e], l'.request = some r := by
  cases call_move h with
  | accept _ now request hpl han =>
    have hmem : request ∈ Call.requests [.accept now request] := by simp [Call.requests]
    cases han with
    | replayed | refused => exact .inl hpl.request_eq
    | prepared | released | acquired | committed => exact .inr ⟨request, hmem, rfl⟩
  | poll _ hpl => exact .inl hpl.request_eq
  | quiet hreq => exact .inl hreq

/-- **Requests that come in order are never answered *stale generation*.** -/
theorem replies_not_stale {sent : List DelegationReply}
    (hl : InOrder l) (hord : (Call.requests es).Pairwise Follows)
    (hla : ∀ last, l.request = some last → ∀ r ∈ Call.requests es, Follows last r)
    (h : l.replies es = .ok sent) : ∀ p ∈ sent, p.failure ≠ .staleGeneration := by
  induction es generalizing l sent with
  | nil => cases h; exact hl.output
  | cons e es ih =>
    have hsp : Call.requests (e :: es) = Call.requests [e] ++ Call.requests es := by
      rw [← singleton_append, Call.requests, filterMap_append]
      rfl
    rw [hsp] at hord hla
    obtain ⟨-, hor', hcr⟩ := pairwise_append.mp hord
    cases hcl : l.call e with
    | error => simp [replies, hcl, bind, Except.bind] at h
    | ok l₁ =>
      cases hrs : l₁.replies es with
      | error => simp [replies, hcl, hrs, bind, Except.bind] at h
      | ok =>
        simp only [replies, hcl, hrs, bind, Except.bind] at h
        have hl₁ := hl.call (fun last hr r hm => hla last hr r (mem_append_left _ hm)) hcl
        have hrs' := ih hl₁ hor' (fun last hr r hm => by
          rcases request_of_call hcl with heq | ⟨q, hq, heq⟩
          · exact hla last (heq ▸ hr) r (mem_append_right _ hm)
          · obtain rfl : q = last := some.inj (heq.symm.trans hr)
            exact hcr q hq r hm) hrs
        split at h
        · cases h
          intro p hp
          rcases mem_append.mp hp with hp | hp
          · exact hl.output p hp
          · exact hrs' p hp
        · cases h
          exact hrs'

/-! ## Ownership

The relay takes the connections back in one place only, and gives them up in
several. -/

theorem PollMove.enabled_of_enabled
    (h : PollMove l now l') (hon : l'.derps.enabled = true) : l.derps.enabled = true := by
  cases h with
  | stay => exact hon
  | expired =>
    cases hch : l.changedOwnership with
    | true => simp [hch] at hon
    | false => simpa [hch] using hon
  | ready => exact hon

/-- A lease under which an acquisition is granted is prepared and runs: the
poll that came first did nothing. -/
theorem Admissible.prepared_running {l₁ : DelegationLease}
    (hl : Coherent l) (hpl : PollMove l now l₁)
    (hadm : l₁.Admissible request) (hact : request.action = .acquire) :
    (∃ p, l.reply = some p ∧ p.status = .prepared ∧ p.generation = request.generation)
      ∧ request.mapRevision = l.revision ∧ ∃ d, l.deadline = some d ∧ now < d := by
  obtain ⟨last, hla, hgen, -, hrun⟩ := hadm.continues (by rw [hact]; decide)
  obtain ⟨p, hp, hs⟩ := hadm.after_prepared (.inr hact)
  cases hpl with
  | stay hlive =>
    obtain ⟨_, hr, hans, -⟩ := hl.reply_request p hp
    cases hla.symm.trans hr
    obtain ⟨d, hd⟩ := isSome_iff_exists.mp hrun
    exact ⟨⟨p, hp, hs, hans.1.trans hgen.symm⟩, hadm.revision_eq, d, hd, hlive last d hla hd⟩
  | expired => cases hrun
  | ready =>
    cases hp
    exact absurd hs (by simp [DelegationRequest.answer])

/-- **The connections are opened by an acquisition only.** -/
theorem acquire_of_enabled (hl : Coherent l)
    (h : l.call e = .ok l') (hoff : l.derps.enabled = false) (hon : l'.derps.enabled = true) :
    ∃ now request, e = .accept now request ∧ request.action = .acquire
      ∧ (∃ p, l.reply = some p ∧ p.status = .prepared ∧ p.generation = request.generation)
      ∧ request.mapRevision = l.revision ∧ ∃ d, l.deadline = some d ∧ now < d := by
  cases call_move h with
  | accept l₁ now request hpl han =>
    have hof₁ : l₁.derps.enabled = false := by
      cases hen : l₁.derps.enabled with
      | false => rfl
      | true => exact absurd (hpl.enabled_of_enabled hen) (by rw [hoff]; decide)
    cases han with
    | acquired hadm hact =>
      exact ⟨now, request, rfl, hact, Admissible.prepared_running hl hpl hadm hact⟩
    | prepared =>
      cases hsup : l₁.supersedes request <;> simp [answered, hsup, hof₁] at hon
    | released => simp [answered] at hon
    | replayed | refused | committed => exact absurd (hof₁.symm.trans hon) Bool.false_ne_true
  | poll _ hpl => exact absurd (hpl.enabled_of_enabled hon) (by rw [hoff]; decide)
  | quiet _ _ _ hen => exact absurd (hen ▸ hon) (by rw [hoff]; decide)

def Call.acquires : Call → Bool
  | .accept _ request => request.action == .acquire
  | _ => false

theorem off_of_run (hl : Coherent l) (h : system.Run l es l') (hes : ∀ e ∈ es, e.acquires = false)
    (hoff : l.derps.enabled = false) : l'.derps.enabled = false := by
  induction h with
  | nil => exact hoff
  | @cons l l₁ l' e es hsp _ ih =>
    refine ih (hl.call hsp) (fun e' h => hes e' (mem_cons_of_mem _ h)) ?_
    cases hon : l₁.derps.enabled with
    | false => rfl
    | true =>
      obtain ⟨_, _, rfl, hact, -⟩ := acquire_of_enabled hl hsp hoff hon
      have := hes _ mem_cons_self
      simp [Call.acquires, hact] at this

/-- **A request that comes again** polls the lease, as any call does, and
repeats its reply. -/
theorem accept_again (hreq : l.request = some request) (h : l.accept now request = .ok l') :
    ∃ l₁, l.poll now = .ok l₁ ∧ l' = { l₁ with output := l₁.output ++ l₁.reply.toList } := by
  obtain ⟨l₁, hpl, han⟩ := accept_move h
  have hrq₁ : l₁.request = some request := (poll_move hpl).request_eq.trans hreq
  cases han with
  | replayed => exact ⟨l₁, hpl, rfl⟩
  | refused _ hne => exact absurd hrq₁ hne
  | prepared hadm | released hadm | acquired hadm | committed hadm =>
    exact absurd hadm.not_stale (by simp [stale, hrq₁])

/-- The deadline has passed after a request to release or to acquire. -/
def Lapses (l : DelegationLease) (now : ℕ) (request : DelegationRequest) : Prop :=
  (request.action = .release ∨ request.action = .acquire) ∧ ∃ d, l.deadline = some d ∧ d ≤ now

/-- A poll does nothing to the connections, unless the lease expires. -/
theorem PollMove.derps_eq (h : PollMove l now l')
    (hno : ∀ d, l.changedOwnership = true → l.deadline = some d → now < d) :
    l'.derps = l.derps := by
  cases h with
  | stay => rfl
  | expired _ dl _ hdead hnow =>
    refine if_neg fun hch => ?_
    have hlt := hno dl hch hdead
    omega
  | ready => rfl

/-- A poll that finds that the lease has expired. -/
theorem PollMove.eq_of_expired {d : ℕ} (h : PollMove l now l') (hreq : l.request = some request)
    (hch : l.changedOwnership = true) (hdead : l.deadline = some d) (hnow : d ≤ now) :
    l'.derps = l.derps.setEnabled false
      ∧ l'.reply = some (request.answer .failed .leaseExpired)
      ∧ l'.output = l.output ++ [request.answer .failed .leaseExpired] := by
  cases h with
  | stay hlive => exact absurd (hlive request d hreq hdead) (by omega)
  | expired _ _ hreq' =>
    obtain rfl := Option.some.inj (hreq.symm.trans hreq')
    exact ⟨if_pos hch, rfl, rfl⟩
  | ready _ d' _ hdead' hlt =>
    obtain rfl := Option.some.inj (hdead.symm.trans hdead')
    omega

/-- **Who owns the connections.** They go from closed to open only while a
request to acquire them is accepted, in a generation last answered *prepared*,
for the map applied last and before the lease expires. They are all closed while
the last reply is *released* and after an expiry that follows a release or an
acquisition, and remain so until an acquisition. A request equal to the one
accepted last repeats its reply; it changes ownership exactly if the lease has
lapsed, and then closes the connections and repeats that it has expired. -/
theorem ownership_of_reachable {l : DelegationLease} (h : system.Reachable l) :
    (∀ e l', l.call e = .ok l' → ¬ l.derps.on → l'.derps.on →
        ∃ now request, e = .accept now request ∧ request.action = .acquire
          ∧ (∃ p, l.reply = some p ∧ p.status = .prepared ∧ p.generation = request.generation)
          ∧ request.mapRevision = l.revision ∧ ∃ d, l.deadline = some d ∧ now < d)
      ∧ (∀ p, l.reply = some p → p.status = .released → l.derps.off)
      ∧ (∀ p r, l.reply = some p → p.failure = .leaseExpired → l.request = some r →
          r.action = .release ∨ r.action = .acquire → l.derps.off)
      ∧ (∀ es l', system.Run l es l' → (∀ e ∈ es, e.acquires = false) → l.derps.off → l'.derps.off)
      ∧ (∀ now request l', l.request = some request → l.accept now request = .ok l' →
          (∃ l₁, l.poll now = .ok l₁ ∧ l' = { l₁ with output := l₁.output ++ l₁.reply.toList })
          ∧ (¬l.Lapses now request → l'.derps = l.derps)
          ∧ (l.Lapses now request → l'.derps = l.derps.setEnabled false
            ∧ l'.reply = some (request.answer .failed .leaseExpired)
            ∧ l'.output = l.output ++ replicate 2 (request.answer .failed .leaseExpired))) := by
  have hl := coherent_of_reachable h
  refine ⟨?_, ?_, ?_, ?_, ?_⟩
  · intro _ _ hcl hoff hon
    rw [on_iff, Bool.not_eq_true] at hoff
    exact acquire_of_enabled hl hcl hoff ((on_iff _).mp hon)
  · intro p hp hs
    obtain ⟨r, hr, -, ⟨hsc, -⟩ | ⟨hfl, -⟩⟩ := hl.reply_request p hp
    · have hact : r.action = .release := by
        rw [hs] at hsc
        cases ha : r.action <;> rw [ha] at hsc <;> first | rfl | cases hsc
      exact (off_iff _).mpr (hl.release_off r hr hact)
    · rw [hs] at hfl; cases hfl
  · intro p r hp hf hr hact
    obtain ⟨_, _, -, ⟨-, hno⟩ | ⟨hfl, -⟩⟩ := hl.reply_request p hp
    · rw [hf] at hno; cases hno
    · exact (off_iff _).mpr (hl.expired_off p hp hfl (hl.changed_iff.mpr ⟨r, hr, hact⟩))
  · intro _ _ hrun hes hoff
    rw [off_iff] at hoff ⊢
    exact off_of_run hl hrun hes hoff
  · intro now request _ hreq hacc
    obtain ⟨l₁, hpl, rfl⟩ := accept_again hreq hacc
    have hch : l.changedOwnership = true ↔
        request.action = .release ∨ request.action = .acquire := by
      simp [hl.changed_iff, hreq]
    refine ⟨⟨l₁, hpl, rfl⟩, fun hno => ?_, fun ⟨hact, d, hdead, hnow⟩ => ?_⟩
    · refine (poll_move hpl).derps_eq fun d hch' hdead => ?_
      by_contra hge
      exact hno ⟨hch.mp hch', d, hdead, Nat.le_of_not_lt hge⟩
    · obtain ⟨hdp, hrp, hout⟩ := (poll_move hpl).eq_of_expired hreq (hch.mpr hact) hdead hnow
      refine ⟨hdp, hrp, ?_⟩
      show l₁.output ++ l₁.reply.toList = _
      rw [hout, hrp, append_assoc]
      rfl

/-- A lease over one region in which a handoff is prepared and an acquisition
accepted, both at time 0. -/
def acquiring : DelegationLease where
  derps := { entries := [⟨1, "derp.example.com", true, false⟩] }
  revision := 7
  request := some ⟨1, 2, 7, .acquire, [1]⟩
  deadline := some 20000
  output := [⟨1, 1, 7, .prepared, .none⟩]
  changedOwnership := true

def acquiringAgain : DelegationLease where
  derps := { entries := [⟨1, "derp.example.com", false, false⟩], enabled := false }
  revision := 7
  request := some ⟨1, 2, 7, .acquire, [1]⟩
  reply := some ⟨1, 2, 7, .failed, .leaseExpired⟩
  output := [⟨1, 1, 7, .prepared, .none⟩, ⟨1, 2, 7, .failed, .leaseExpired⟩,
    ⟨1, 2, 7, .failed, .leaseExpired⟩]
  changedOwnership := true

theorem acquiring_reachable : system.Reachable acquiring := by
  have hfh : system.Reachable
      { derps := { entries := [⟨1, "derp.example.com", true, false⟩] } } := .init ⟨_, rfl⟩
  have hcl : [Call.applyMap 7, .accept 0 ⟨1, 1, 7, .prepare, [1]⟩,
      .accept 0 ⟨1, 2, 7, .acquire, [1]⟩].foldlM call
      { derps := { entries := [⟨1, "derp.example.com", true, false⟩] } } = .ok acquiring := by
    decide
  exact reachable_of_foldlM hfh hcl

/-- The acquisition comes again when its lease has expired: the connections
are closed although the request is the one accepted last. -/
theorem duplicate_acquire_closes : system.Reachable acquiring
    ∧ acquiring.request = some ⟨1, 2, 7, .acquire, [1]⟩
    ∧ acquiring.accept 20000 ⟨1, 2, 7, .acquire, [1]⟩ = .ok acquiringAgain
    ∧ acquiring.derps.on ∧ acquiringAgain.derps.off := by
  refine ⟨acquiring_reachable, rfl, by decide, ?_, ?_⟩
  · exact (on_iff _).mpr rfl
  · exact (off_iff _).mpr rfl

/-- From then on the connections stay closed, that of a new region included. -/
theorem ownership_after_duplicate : ∃ l : DelegationLease,
    acquiringAgain.call (.ensure 2 "other.example.com") = .ok l ∧ l.derps.off := by
  have hag : system.Reachable acquiringAgain :=
    acquiring_reachable.step (e := .accept 20000 ⟨1, 2, 7, .acquire, [1]⟩)
      (by show _ = Except.ok _; decide)
  have had : acquiringAgain.call (.ensure 2 "other.example.com") = .ok { acquiringAgain with
      derps := { entries := [⟨1, "derp.example.com", false, false⟩,
        ⟨2, "other.example.com", false, false⟩], enabled := false } } := by decide
  exact ⟨_, had, (ownership_of_reachable hag).2.2.2.1 [.ensure 2 "other.example.com"] _
    (.cons had (.nil _)) (by decide) ((off_iff _).mpr rfl)⟩

end DelegationLease

end Tailgate
