import Tailgate.Recovery

/-!
# The threads of a reconnection

`Recovery` is used by one thread, which starts another one for each attempt to
connect. Here every access to what the two share is a step of its own, and any
list of events is an interleaving. A thread may fail to start: the poll throws,
and the deadline is gone by then. `run_sound` is about every run, of which
`history` is kept, the latest first.
-/

namespace Tailgate

open Option
open List hiding map_map

/-! ## Two threads -/

/-- How far a worker is. -/
inductive Progress
  | connecting
  | attempted (connection : Option ConnectionResult)
  /-- It has the lock, and has seen whether it is to stop. -/
  | checked (connection : Option ConnectionResult)
  | delivered
  | ended
  deriving DecidableEq

/-- A worker. -/
structure WorkerThread where
  id : ℕ
  generation : ℕ
  options : ConnectionOptions
  stopRequested : Bool := false
  progress : Progress := .connecting

/-- What a worker hands over. -/
structure Handed extends Completion where
  thread : ℕ
  deriving DecidableEq

inductive AfterCancel
  | nothing
  | configure (options : ConnectionOptions)
  | changeNetwork (networkInterface : String)
  | reset
  deriving DecidableEq

/-- What the first thread is at. -/
inductive Doing
  | nothing
  | stopping (rest : AfterCancel)
  | unscheduling (rest : AfterCancel)
  | dropping (rest : AfterCancel)
  | cancelled (rest : AfterCancel)
  | joining (handed : Handed)
  | deciding
  deriving DecidableEq

/-- What is recorded of a run. -/
inductive Action
  /-- What is under way is cancelled, or the network changes. -/
  | cancelled
  /-- The connection is said to have failed, and it is known how to connect. -/
  | failed
  | started (thread : ℕ)
  /-- A thread was to be started, and the poll has thrown. -/
  | notStarted
  | connected (thread : ℕ) (connection : ConnectionResult)
  | returned (thread : ℕ) (connection : ConnectionResult)
  deriving DecidableEq

/-- **The scheduling with its threads.** -/
structure RecoveryThreads where
  options : Option ConnectionOptions := none
  deadline : Option ℕ := none
  backoff : RetryBackoff := .new
  generation : ℕ := 0
  completion : Option Handed := none
  worker : Option ℕ := none
  /-- The threads that have been started and not joined. -/
  threads : List WorkerThread := []
  spawned : ℕ := 0
  now : ℕ := 0
  doing : Doing := .nothing
  history : List Action := []

def Progress.locks : Progress → Bool
  | .checked _ => true
  | _ => false

namespace RecoveryThreads

variable (s : RecoveryThreads)

def locked : Bool := s.threads.any fun t => t.progress.locks

def workerEnded : Bool :=
  s.threads.all fun t => decide (s.worker = some t.id → t.progress = .ended)

def join : RecoveryThreads :=
  { s with threads := s.threads.filter fun t => s.worker ≠ some t.id, worker := none }

def schedule : RecoveryThreads :=
  if s.options.isSome ∧ s.deadline = none then
    { s with deadline := some (s.now + s.backoff.nextDelay), backoff := s.backoff.advance }
  else s

def beginCancel (rest : AfterCancel) : RecoveryThreads :=
  { s with
    generation := s.generation + 1
    doing := .stopping rest
    history := .cancelled :: s.history }

inductive Call
  | configure (options : ConnectionOptions)
  | cancel
  | failed
  | changeNetwork (networkInterface : String)
  | poll
  | reset

/-- **The first step of a call.** -/
def call : Call → RecoveryThreads
  | .configure options => s.beginCancel (.configure options)
  | .cancel => s.beginCancel .nothing
  | .reset => s.beginCancel .reset
  | .failed =>
    if s.options.isSome then { s.schedule with history := .failed :: s.history } else s.schedule
  | .changeNetwork networkInterface =>
    if s.options.isSome then s.beginCancel (.changeNetwork networkInterface)
    else { s with history := .cancelled :: s.history }
  | .poll =>
    if s.locked then s
    else
      match s.completion with
      | none => { s with doing := .deciding }
      | some handed => { s with completion := none, doing := .joining handed }

def finish : AfterCancel → RecoveryThreads
  | .nothing => { s with doing := .nothing }
  | .configure options =>
    { s with options := some options, backoff := s.backoff.reset, doing := .nothing }
  | .changeNetwork networkInterface =>
    { s with
      options := s.options.map fun options => { options with networkInterface }
      deadline := some s.now
      doing := .nothing }
  | .reset =>
    if s.workerEnded then
      { s.join with
        completion := none
        options := none
        backoff := s.backoff.reset
        doing := .nothing }
    else s

def settle (handed : Handed) : RecoveryThreads :=
  if handed.generation % 2 ^ 64 = s.generation % 2 ^ 64 then
    match handed.connection with
    | some connection =>
      { s with
        backoff := s.backoff.reset
        deadline := none
        doing := .nothing
        history := .returned handed.thread connection :: s.history }
    | none => { ({ s with deadline := none } : RecoveryThreads).schedule with doing := .deciding }
  else { s with doing := .deciding }

/-- The end of a poll: a worker is started when an attempt is due and there is
none. If that fails, the deadline is no longer set. -/
def start (starts : Bool) : RecoveryThreads :=
  match s.options, s.deadline, s.worker with
  | some options, some deadline, none =>
    if s.now < deadline then { s with doing := .nothing }
    else if ¬starts then
      { s with deadline := none, doing := .nothing, history := .notStarted :: s.history }
    else
      { s with
        deadline := none
        worker := some s.spawned
        threads := s.threads ++ [{ id := s.spawned, generation := s.generation, options }]
        spawned := s.spawned + 1
        doing := .nothing
        history := .started s.spawned :: s.history }
  | _, _, _ => { s with doing := .nothing }

/-- **The next step of the scheduling thread.** -/
def proceed (starts : Bool) : RecoveryThreads :=
  match s.doing with
  | .nothing => s
  | .stopping rest =>
    { s with
      threads := s.threads.map fun t =>
        if s.worker = some t.id then { t with stopRequested := true } else t
      doing := .unscheduling rest }
  | .unscheduling rest => { s with deadline := none, doing := .dropping rest }
  | .dropping rest =>
    if s.locked then s
    else
      { s with
        completion := s.completion.map fun handed => { handed with connection := none }
        doing := .cancelled rest }
  | .cancelled rest => s.finish rest
  | .joining handed => if s.workerEnded then s.join.settle handed else s
  | .deciding => s.start starts

variable (t : WorkerThread) (connection : Option ConnectionResult)

def put (progress : Progress) : RecoveryThreads :=
  { s with threads := s.threads.map fun t' => if t'.id = t.id then { t' with progress } else t' }

def attempt : RecoveryThreads :=
  { s.put t (.attempted connection) with
    history := (connection.map (.connected t.id)).toList ++ s.history }

def advance : RecoveryThreads :=
  match t.progress with
  | .connecting => s.attempt t connection
  | .attempted connection =>
    if s.locked then s
    else s.put t (.checked (if t.stopRequested then none else connection))
  | .checked connection =>
    { s.put t .delivered with
      completion := some { generation := t.generation, connection, thread := t.id } }
  | .delivered => s.put t .ended
  | .ended => s

/-- **The next step of a worker.** -/
def work (id : ℕ) (connection : Option ConnectionResult) : RecoveryThreads :=
  match s.threads.find? (·.id = id) with
  | none => s
  | some t => s.advance t connection

/-- A step of one of the threads. -/
inductive Event
  | call (call : Call)
  /-- The scheduling thread goes on; a worker that it is to start can be started or not. -/
  | proceed (starts : Bool)
  /-- A worker goes on; if its attempt ends, it comes to this. -/
  | work (id : ℕ) (connection : Option ConnectionResult)
  | tick (duration : ℕ)

/-- **One step of a thread or of the clock.** -/
def step : Event → RecoveryThreads
  | .call call => if s.doing = .nothing then s.call call else s
  | .proceed starts => s.proceed starts
  | .work id connection => s.work id connection
  | .tick duration => { s with now := s.now + duration }

def run (events : List Event) : RecoveryThreads := events.foldl step {}

/-! ## What a history says -/

def sinceCancelled (history : List Action) : List Action :=
  history.takeWhile (· ≠ .cancelled)

/-- **A connection is the work of a thread** that was started after the last
cancellation. -/
def Made (history : List Action) (thread : ℕ) (connection : ConnectionResult) : Prop :=
  .started thread ∈ sinceCancelled history ∧ .connected thread connection ∈ sinceCancelled history

/-- **Whether there is to be a retry**: the connection has failed, and since then
nothing was cancelled and no connection was returned. -/
def owes : List Action → Bool
  | [] => false
  | .failed :: _ => true
  | .cancelled :: _ => false
  | .returned _ _ :: _ => false
  | .started _ :: earlier => owes earlier
  | .notStarted :: earlier => owes earlier
  | .connected _ _ :: earlier => owes earlier

/-- **Whether a thread has not started** since the connection has failed. -/
def stuck : List Action → Bool
  | [] => false
  | .failed :: _ => false
  | .notStarted :: _ => true
  | _ :: earlier => stuck earlier

/-- Every connection that was returned was the work of a thread that was started
after the last cancellation before that. -/
def Honest (history : List Action) : Prop :=
  ∀ later earlier thread connection,
    history = later ++ .returned thread connection :: earlier → Made earlier thread connection

section History

variable {history : List Action} {action : Action} {thread : ℕ} {connection : ConnectionResult}

theorem sinceCancelled_cons (h : action ≠ .cancelled) :
    sinceCancelled (action :: history) = action :: sinceCancelled history :=
  takeWhile_cons_of_pos (decide_eq_true h)

theorem mem_sinceCancelled_cons {other : Action} (h : action ≠ .cancelled)
    (hmem : other ∈ sinceCancelled history) : other ∈ sinceCancelled (action :: history) := by
  rw [sinceCancelled_cons h]
  exact mem_cons_of_mem _ hmem

theorem Made.cons (h : Made history thread connection) (hac : action ≠ .cancelled) :
    Made (action :: history) thread connection :=
  ⟨mem_sinceCancelled_cons hac h.1, mem_sinceCancelled_cons hac h.2⟩

/-- One more action: only a connection that is returned has to be looked at. -/
theorem Honest.cons (h : Honest history)
    (hac : ∀ thread connection, action = .returned thread connection →
      Made history thread connection) : Honest (action :: history) := by
  intro later earlier thread connection heq
  cases later with
  | nil =>
    cases heq
    exact hac thread connection rfl
  | cons _ later => exact h later earlier thread connection (cons.inj heq).2

theorem Honest.cons_of_ne (h : Honest history)
    (hac : ∀ thread connection, action ≠ .returned thread connection) :
    Honest (action :: history) :=
  h.cons fun thread connection heq => absurd heq (hac thread connection)

end History

end RecoveryThreads

/-! ## The invariant -/

def Doing.stops : Doing → Bool
  | .stopping _ => true
  | _ => false

def Doing.cancels : Doing → Bool
  | .stopping _ => true
  | .unscheduling _ => true
  | .dropping _ => true
  | _ => false

def Doing.inCancelCall : Doing → Bool
  | .cancelled _ => true
  | doing => doing.cancels

def WorkerThread.delivery (t : WorkerThread) : Option (ℕ × ℕ) :=
  match t.progress with
  | .delivered => some (t.id, t.generation)
  | .ended => some (t.id, t.generation)
  | _ => none

def WorkerThread.running (t : WorkerThread) : Bool := t.delivery.isNone

def Handed.source (handed : Handed) : ℕ × ℕ := (handed.thread, handed.generation)

namespace RecoveryThreads

open WorkerThread

def held (s : RecoveryThreads) : Option Handed :=
  match s.doing with
  | .joining handed => some handed
  | _ => s.completion

/-- A retry is scheduled or under way, or its thread has not started. -/
def Retried (s : RecoveryThreads) (o : Option WorkerThread) : Prop :=
  stuck s.history = false ∧ (s.deadline.isSome = true ∨ ∃ t ∈ o, t.generation = s.generation)
    ∨ stuck s.history = true ∧ s.deadline = none ∧ o = none

/-- **The threads are in order**, with this one or none at work. -/
structure Sound (s : RecoveryThreads) (o : Option WorkerThread) : Prop where
  threads_eq : s.threads = o.toList
  /-- It is the one that has to be joined. -/
  worker_eq : s.worker = o.map WorkerThread.id
  /-- What has been handed over is from it. -/
  held_eq : s.held.map Handed.source = o.bind delivery
  joining_eq : ∀ handed, s.doing = .joining handed → s.completion = none
  /-- A connection that has been handed over is its work, unless it is about to
  be dropped. -/
  held_made : s.doing.cancels = false → ∀ handed ∈ s.held, ∀ connection ∈ handed.connection,
    Made s.history handed.thread connection
  /-- So is one that is about to be handed over. -/
  checked_made : s.doing.cancels = false → ∀ t ∈ o, ∀ connection,
    t.progress = .checked (some connection) → Made s.history t.id connection
  /-- It has been asked to stop, or was started after the last cancellation. -/
  working : ∀ t ∈ o, t.stopRequested = true ∨ s.doing.stops = true
    ∨ .started t.id ∈ sinceCancelled s.history ∧ ∀ connection,
      t.progress = .attempted (some connection) → Made s.history t.id connection
  /-- What has been returned was its work. -/
  honest : Honest s.history
  idle : s.options = none → o = none
  /-- A retry is not forgotten, unless its thread has not started. -/
  kept : owes s.history = true → s.doing.inCancelCall = false ∧ s.options.isSome = true
    ∧ s.Retried o

section Steps

variable {s : RecoveryThreads} {o : Option WorkerThread}

theorem sound_start : Sound {} none where
  threads_eq := rfl
  worker_eq := rfl
  held_eq := rfl
  joining_eq _ _ := rfl
  held_made _ _ h := nomatch h
  checked_made _ _ h := nomatch h
  working _ h := nomatch h
  honest later _ _ _ h := by cases later <;> cases h
  idle _ := rfl
  kept h := nomatch h

theorem Sound.owes_eq (h : Sound s o) (hdn : s.doing.inCancelCall = true) :
    owes s.history = false := by
  by_contra how
  rw [(h.kept (by simpa using how)).1] at hdn
  cases hdn

theorem held_of_ne (h : ∀ handed, s.doing ≠ .joining handed) : s.held = s.completion := by
  unfold held
  split
  · next handed hdn => exact absurd hdn (h handed)
  · rfl

/-- **Beginning to cancel** settles what is owed, and makes what is under way
stale. -/
theorem Sound.beginCancel (h : Sound s o) (hdn : s.doing = .nothing) (rest : AfterCancel) :
    Sound (s.beginCancel rest) o :=
  { h with
    held_eq := by
      rw [← h.held_eq, held_of_ne (s := s) (by simp [hdn])]
      rfl
    joining_eq _ hjn := nomatch hjn
    held_made hcn := nomatch hcn
    checked_made hcn := nomatch hcn
    working _ _ := .inr (.inl rfl)
    honest := h.honest.cons_of_ne fun _ _ heq => nomatch heq
    kept how := nomatch how }

/-- **A step that leaves the worker alone**, and what has been handed over. -/
theorem Sound.goOn (h : Sound s o) {s' : RecoveryThreads}
    (hjn : ∀ handed, s.doing ≠ .joining handed) (hjn' : ∀ handed, s'.doing ≠ .joining handed)
    (hcn : s'.doing.cancels = false → s.doing.cancels = false)
    (hss : s.doing.stops = true → s'.doing.stops = true)
    (hkp : owes s.history = true → s'.doing.inCancelCall = false ∧ s'.options.isSome = true
      ∧ s'.Retried o)
    (hcm : s'.completion = s.completion := by rfl) (hth : s'.threads = s.threads := by rfl)
    (hwr : s'.worker = s.worker := by rfl) (hhs : s'.history = s.history := by rfl)
    (hil : s'.options = none → s.options = none := by exact fun hn => hn) : Sound s' o := by
  have hhe : s'.held = s.held := by
    rw [held_of_ne hjn, held_of_ne hjn', hcm]
  exact {
    threads_eq := hth.trans h.threads_eq
    worker_eq := hwr.trans h.worker_eq
    held_eq := by rw [hhe, h.held_eq]
    joining_eq := fun handed hdn => absurd hdn (hjn' handed)
    held_made := fun hdn => by rw [hhe, hhs]; exact h.held_made (hcn hdn)
    checked_made := fun hdn => by rw [hhs]; exact h.checked_made (hcn hdn)
    working := fun t ht => by
      rw [hhs]
      exact (h.working t ht).imp_right fun hor => hor.imp_left hss
    honest := by rw [hhs]; exact h.honest
    idle := fun hno => h.idle (hil hno)
    kept := by rw [hhs]; exact hkp }

/-- **Something happens** that is no cancellation and returns nothing. -/
theorem Sound.note (h : Sound s o) (action : Action) (deadline : Option ℕ) (backoff : RetryBackoff)
    (hcn : action ≠ .cancelled) (hrt : ∀ thread connection, action ≠ .returned thread connection)
    (hkp : owes (action :: s.history) = true → s.doing.inCancelCall = false
      ∧ s.options.isSome = true
      ∧ Retried { s with deadline, backoff, history := action :: s.history } o) :
    Sound { s with deadline, backoff, history := action :: s.history } o :=
  { h with
    held_made hdn handed hhe connection hco :=
      (h.held_made hdn handed hhe connection hco).cons hcn
    checked_made hdn t ht connection hpg :=
      (h.checked_made hdn t ht connection hpg).cons hcn
    working t ht := (h.working t ht).imp_right fun hor => hor.imp_right fun hfh =>
      ⟨mem_sinceCancelled_cons hcn hfh.1, fun connection hpg =>
        (hfh.2 connection hpg).cons hcn⟩
    honest := h.honest.cons_of_ne hrt
    kept := hkp }

theorem schedule_eq (s : RecoveryThreads) : ∃ deadline backoff,
    s.schedule = { s with deadline, backoff }
      ∧ (s.options.isSome = true → deadline.isSome = true) := by
  unfold schedule
  split
  · exact ⟨_, _, rfl, fun _ => rfl⟩
  · next hnot =>
    refine ⟨s.deadline, s.backoff, rfl, fun hop => ?_⟩
    rw [isSome_iff_ne_none]
    exact fun hno => hnot ⟨hop, hno⟩

/-- **A failure** schedules a retry. -/
theorem Sound.failed (h : Sound s o) (hdn : s.doing = .nothing) : Sound (s.call .failed) o := by
  obtain ⟨deadline, backoff, hsc, hso⟩ := s.schedule_eq
  unfold call
  dsimp only
  split
  · next hop =>
    rw [hsc]
    refine h.note .failed deadline backoff (fun heq => nomatch heq) (fun _ _ heq => nomatch heq)
      fun _ => ⟨?_, hop, .inl ⟨rfl, .inl (hso hop)⟩⟩
    rw [hdn]
    rfl
  · next hop =>
    unfold schedule
    rwa [if_neg fun hand => hop hand.1]

/-- **The start of a poll** takes what has been handed over. -/
theorem Sound.poll (h : Sound s o) (hdn : s.doing = .nothing) : Sound (s.call .poll) o := by
  have hjn : ∀ handed, s.doing ≠ .joining handed := by simp [hdn]
  have hcn : s.doing.cancels = false := by rw [hdn]; rfl
  unfold call
  dsimp only
  split
  · exact h
  · cases hcm : s.completion with
    | none =>
      refine h.goOn hjn (fun _ heq => nomatch heq) (fun _ => hcn) (fun hss => ?_)
        (fun how => ⟨rfl, (h.kept how).2⟩) hcm.symm
      rw [hdn] at hss
      cases hss
    | some handed =>
      have hhe : s.held = some handed := by rw [held_of_ne hjn, hcm]
      exact { h with
        held_eq := by rw [← h.held_eq, hhe]; rfl
        joining_eq := fun _ _ => rfl
        held_made := fun _ => by
          have hmd := h.held_made hcn
          rw [hhe] at hmd
          exact hmd
        checked_made := fun _ => h.checked_made hcn
        working := fun t ht => (h.working t ht).imp_right fun hor => hor.imp_left fun hss => by
          rw [hdn] at hss
          cases hss
        kept := fun how => ⟨rfl, (h.kept how).2⟩ }

/-- **A system without threads** is in order if nothing is held and a retry is
scheduled. -/
theorem sound_none (hth : s.threads = []) (hwr : s.worker = none)
    (hcm : s.completion = none) (hho : Honest s.history)
    (hkp : owes s.history = true → s.doing.inCancelCall = false ∧ s.options.isSome = true
      ∧ s.Retried none)
    (hjn : ∀ handed, s.doing ≠ .joining handed) : Sound s none where
  threads_eq := hth
  worker_eq := hwr
  held_eq := by rw [held_of_ne hjn, hcm]; rfl
  joining_eq _ _ := hcm
  held_made _ handed hhn := by
    rw [held_of_ne hjn, hcm] at hhn
    cases hhn
  checked_made _ _ ht := nomatch ht
  working _ ht := nomatch ht
  honest := hho
  idle _ := rfl
  kept := hkp

/-- **Another network**, when it is not known how to connect: nothing is under
way. -/
theorem Sound.networkChanged (h : Sound s o) (hdn : s.doing = .nothing) (hop : s.options = none) :
    Sound { s with history := .cancelled :: s.history } none := by
  have hno := h.idle hop
  have hhe := h.held_eq
  rw [hno, held_of_ne (by simp [hdn])] at hhe
  refine sound_none ?_ ?_ (map_eq_none_iff.mp hhe) ?_ (fun how => nomatch how) (by simp [hdn])
  · rw [h.threads_eq, hno]
    rfl
  · rw [h.worker_eq, hno]
    rfl
  · exact h.honest.cons_of_ne fun _ _ heq => nomatch heq

theorem Sound.call (h : Sound s o) (hdn : s.doing = .nothing) (call : Call) :
    ∃ o', Sound (s.call call) o' := by
  cases call with
  | configure | cancel | reset => exact ⟨o, h.beginCancel hdn _⟩
  | failed => exact ⟨o, h.failed hdn⟩
  | poll => exact ⟨o, h.poll hdn⟩
  | changeNetwork =>
    unfold RecoveryThreads.call
    dsimp only
    split
    · exact ⟨o, h.beginCancel hdn _⟩
    · next hop => exact ⟨none, h.networkChanged hdn (by simpa using hop)⟩

/-! ### The steps of the scheduling thread -/

variable {rest : AfterCancel} {connection : Option ConnectionResult} (h : Sound s o)

include h

/-- **The worker is asked to stop.** -/
theorem Sound.stopping (hdn : s.doing = .stopping rest) : Sound { s with
      threads := s.threads.map fun t =>
        if s.worker = some t.id then { t with stopRequested := true } else t
      doing := .unscheduling rest } (o.map fun t => { t with stopRequested := true }) := by
  have hjn : ∀ handed, s.doing ≠ .joining handed := by simp [hdn]
  have how := h.owes_eq (by rw [hdn]; rfl)
  have hhe := h.held_eq
  rw [held_of_ne hjn] at hhe
  refine ⟨?_, ?_, ?_, (fun _ heq => nomatch heq), (fun hc => nomatch hc), (fun hc => nomatch hc),
    ?_, h.honest, fun hno => ?_, fun how' => ?_⟩
  · rw [h.threads_eq, h.worker_eq]
    cases o with
    | none => rfl
    | some => simp
  · rw [h.worker_eq, map_map]
    rfl
  · refine hhe.trans ?_
    cases o with
    | none | some => rfl
  · intro _ ht
    obtain ⟨_, -, rfl⟩ := mem_map.mp ht
    exact .inl rfl
  · rw [h.idle hno]
    rfl
  · rw [how] at how'
    cases how'

/-- **What has been handed over is dropped**, when no worker is about to hand
over. -/
theorem Sound.dropping (hdn : s.doing = .dropping rest) (hlc : s.locked = false) : Sound { s with
      completion := s.completion.map fun handed => { handed with connection := none }
      doing := .cancelled rest } o := by
  have hjn : ∀ handed, s.doing ≠ .joining handed := by simp [hdn]
  have how := h.owes_eq (by rw [hdn]; rfl)
  have hhe := h.held_eq
  rw [held_of_ne hjn] at hhe
  refine ⟨h.threads_eq, h.worker_eq, ?_, (fun _ heq => nomatch heq), ?_, ?_, ?_, h.honest,
    h.idle, fun how' => ?_⟩
  · refine Eq.trans ?_ hhe
    show (s.completion.map _).map Handed.source = _
    rw [map_map]
    rfl
  · intro _ handed hhn connection hcn
    obtain ⟨_, -, rfl⟩ := mem_map.mp
      (show handed ∈ s.completion.map fun handed => { handed with connection := none } from hhn)
    cases hcn
  · intro _ _ ht _ hpg
    unfold locked at hlc
    rw [h.threads_eq, mem_def.mp ht] at hlc
    simp [hpg, Progress.locks] at hlc
  · intro t ht
    refine (h.working t ht).imp_right fun hor => hor.imp_left fun hss => ?_
    rw [hdn] at hss
    cases hss
  · rw [how] at how'
    cases how'

theorem Sound.join_eq : s.join.threads = [] := by
  unfold join
  rw [h.threads_eq, h.worker_eq]
  cases o with
  | none => rfl
  | some => simp

/-- **The end of a call that has cancelled.** -/
theorem Sound.finish (hdn : s.doing = .cancelled rest) : ∃ o', Sound (s.finish rest) o' := by
  have hjn : ∀ handed, s.doing ≠ .joining handed := by simp [hdn]
  have hcn : s.doing.cancels = false := by rw [hdn]; rfl
  have hss : s.doing.stops = false := by rw [hdn]; rfl
  have how := h.owes_eq (by rw [hdn]; rfl)
  have hdo {s' : RecoveryThreads} (hth : s'.threads = s.threads)
      (hwr : s'.worker = s.worker) (hcm : s'.completion = s.completion)
      (hhs : s'.history = s.history) (hdn' : s'.doing = .nothing)
      (hil : s'.options = none → s.options = none) : Sound s' o := by
    refine h.goOn hjn (by simp [hdn']) (fun _ => hcn) (fun hs => ?_) (fun how' => ?_)
      hcm hth hwr hhs hil
    · rw [hss] at hs
      cases hs
    · rw [how] at how'
      cases how'
  cases rest with
  | nothing => exact ⟨o, hdo rfl rfl rfl rfl rfl fun hno => hno⟩
  | configure => exact ⟨o, hdo rfl rfl rfl rfl rfl fun hno => nomatch hno⟩
  | changeNetwork =>
    exact ⟨o, hdo rfl rfl rfl rfl rfl map_eq_none_iff.mp⟩
  | reset =>
    unfold RecoveryThreads.finish
    dsimp only
    split
    · refine ⟨none, sound_none h.join_eq rfl rfl h.honest (fun how' => ?_) fun _ heq => nomatch heq⟩
      rw [show owes s.history = true from how'] at how
      cases how
    · exact ⟨o, h⟩

/-- **What was handed over is settled**: a connection is returned, or a retry is
scheduled. -/
theorem Sound.settle {handed : Handed} (hdn : s.doing = .joining handed) :
    Sound (s.join.settle handed) none := by
  have hhe : s.held = some handed := by
    unfold held
    rw [hdn]
  have hcn : s.doing.cancels = false := by rw [hdn]; rfl
  have hcm := h.joining_eq handed hdn
  have hsr := h.held_eq
  rw [hhe] at hsr
  -- there is a worker, so no thread has failed to start
  have hgo (how : owes s.history = true) : stuck s.history = false
      ∧ (s.deadline.isSome = true ∨ ∃ t ∈ o, t.generation = s.generation) := by
    obtain ⟨-, -, hgo | ⟨-, -, hno⟩⟩ := h.kept how
    · exact hgo
    · rw [hno] at hsr
      cases hsr
  unfold RecoveryThreads.settle
  split
  · -- the worker is of the current generation, as far as can be told
    cases hco : handed.connection with
    | some connection =>
      have hmd := h.held_made hcn handed hhe connection hco
      refine sound_none h.join_eq rfl hcm ?_ (fun how => nomatch how) fun _ heq => nomatch heq
      refine h.honest.cons fun thread conn' heq => ?_
      cases heq
      exact hmd
    | none =>
      obtain ⟨_, _, hsc, hso⟩ :=
        schedule_eq { s.join with deadline := none }
      rw [hsc]
      refine sound_none h.join_eq rfl hcm h.honest (fun how => ?_) fun _ heq => nomatch heq
      have hop := (h.kept how).2.1
      exact ⟨rfl, hop, .inl ⟨(hgo how).1, .inl (hso hop)⟩⟩
  · next hge =>
    -- it is not, so the retry cannot be its work
    refine sound_none h.join_eq rfl hcm h.honest (fun how => ?_) fun _ heq => nomatch heq
    refine ⟨rfl, (h.kept how).2.1, .inl ⟨(hgo how).1, .inl ?_⟩⟩
    obtain hde | ⟨t, ht, hcr⟩ := (hgo how).2
    · exact hde
    · rw [mem_def.mp ht] at hsr
      have hdl : t.delivery = some handed.source := hsr.symm
      unfold delivery at hdl
      refine absurd ?_ hge
      have hsm : handed.generation = t.generation := by
        split at hdl
        · exact (congrArg Prod.snd (some.inj hdl)).symm
        · exact (congrArg Prod.snd (some.inj hdl)).symm
        · cases hdl
      rw [hsm, hcr]
      rfl

/-- **The end of a poll**: a worker that is started is of the current
generation. -/
theorem Sound.start (hdn : s.doing = .deciding) (starts : Bool) :
    ∃ o', Sound (s.start starts) o' := by
  have hjn : ∀ handed, s.doing ≠ .joining handed := by simp [hdn]
  have hdo : Sound { s with doing := .nothing } o := by
    refine h.goOn hjn (fun _ heq => nomatch heq) (fun _ => by rw [hdn]; rfl)
      (fun hs => ?_) fun how => ⟨rfl, (h.kept how).2⟩
    rw [hdn] at hs
    cases hs
  unfold RecoveryThreads.start
  split
  · next options deadline hop hde hwr =>
    have hno : o = none := by
      have hmap := h.worker_eq
      rw [hwr] at hmap
      exact map_eq_none_iff.mp hmap.symm
    have hsome : s.options.isSome = true := by rw [hop]; rfl
    split
    · exact ⟨o, hdo⟩
    split
    · exact ⟨o, hdo.note .notStarted none s.backoff (fun heq => nomatch heq)
        (fun _ _ heq => nomatch heq) fun _ => ⟨rfl, hsome, .inr ⟨rfl, rfl, hno⟩⟩⟩
    · have hth := h.threads_eq
      have hhe := h.held_eq
      rw [hno] at hth hhe
      rw [held_of_ne hjn] at hhe
      refine ⟨some { id := s.spawned, generation := s.generation, options }, ?_⟩
      refine ⟨?_, rfl, hhe, (fun _ heq => nomatch heq), ?_, ?_, ?_, ?_, fun hn => ?_, ?_⟩
      · rw [hth]
        rfl
      · intro _ handed hhn
        have hcm : s.completion = some handed := hhn
        rw [map_eq_none_iff.mp hhe] at hcm
        cases hcm
      · rintro _ t ht connection hpg
        obtain rfl := mem_some.mp ht
        cases hpg
      · intro _ ht
        obtain rfl := mem_some.mp ht
        refine .inr (.inr ⟨?_, fun _ hpg => nomatch hpg⟩)
        exact mem_cons_self
      · exact h.honest.cons_of_ne fun _ _ heq => nomatch heq
      · rw [hop] at hn
        cases hn
      · intro how
        refine ⟨rfl, hsome, .inl ⟨?_, .inr ⟨_, rfl, rfl⟩⟩⟩
        obtain ⟨-, -, hgo | ⟨-, hnd, -⟩⟩ := h.kept how
        · exact hgo.1
        · rw [hde] at hnd
          cases hnd
  · exact ⟨o, hdo⟩

theorem Sound.proceed (starts : Bool) : ∃ o', Sound (s.proceed starts) o' := by
  unfold RecoveryThreads.proceed
  cases hdn : s.doing with
  | nothing => exact ⟨o, h⟩
  | stopping => exact ⟨_, h.stopping hdn⟩
  | unscheduling =>
    refine ⟨o, h.goOn (by simp [hdn]) (fun _ heq => nomatch heq)
      (fun hc => nomatch hc) (fun hs => ?_) fun how => ?_⟩
    · rw [hdn] at hs
      cases hs
    · rw [h.owes_eq (by rw [hdn]; rfl)] at how
      cases how
  | dropping =>
    dsimp only
    split
    · exact ⟨o, h⟩
    · next hlc => exact ⟨o, h.dropping hdn (by simpa using hlc)⟩
  | cancelled => exact h.finish hdn
  | joining =>
    dsimp only
    split
    · exact ⟨none, h.settle hdn⟩
    · exact ⟨o, h⟩
  | deciding => exact h.start hdn starts

/-! ### The steps of a worker -/

omit h

variable {t : WorkerThread}

/-- **The worker comes further**, and may hand something over. -/
theorem Sound.put (h : Sound s (some t)) (progress : Progress) (completion : Option Handed)
    (hhe : ({ s with completion } : RecoveryThreads).held.map Handed.source
      = ({ t with progress } : WorkerThread).delivery)
    (hjn : ∀ handed, s.doing = .joining handed → completion = none)
    (hmd : s.doing.cancels = false → ∀ handed ∈ ({ s with completion } : RecoveryThreads).held,
      ∀ connection ∈ handed.connection, Made s.history handed.thread connection)
    (hcd : s.doing.cancels = false → ∀ connection, progress = .checked (some connection) →
      Made s.history t.id connection)
    (hat : ∀ connection, progress = .attempted (some connection) →
      .connected t.id connection ∈ sinceCancelled s.history) :
    Sound { s.put t progress with completion } (some { t with progress }) := by
  refine ⟨?_, h.worker_eq, hhe, hjn, hmd, ?_, ?_, h.honest, (fun hno => nomatch h.idle hno), ?_⟩
  · show s.threads.map _ = _
    rw [h.threads_eq]
    simp
  · intro hcn _ ht' connection hpg
    obtain rfl := mem_some.mp ht'
    exact hcd hcn connection hpg
  · intro _ ht'
    obtain rfl := mem_some.mp ht'
    refine (h.working t rfl).imp_right fun hor => hor.imp_right fun hfh => ?_
    exact ⟨hfh.1, fun connection hpg => ⟨hfh.1, hat connection hpg⟩⟩
  · intro how
    obtain ⟨hcl, hop, ⟨hsk, hrt⟩ | ⟨-, -, hno⟩⟩ := h.kept how
    · refine ⟨hcl, hop, .inl ⟨hsk, hrt.imp_right ?_⟩⟩
      rintro ⟨_, ht', hge⟩
      obtain rfl := mem_some.mp ht'
      exact ⟨_, rfl, hge⟩
    · cases hno

theorem Sound.goFurther (h : Sound s (some t)) (progress : Progress)
    (hdl : ({ t with progress } : WorkerThread).delivery = t.delivery)
    (hcd : s.doing.cancels = false → ∀ connection, progress = .checked (some connection) →
      Made s.history t.id connection)
    (hat : ∀ connection, progress = .attempted (some connection) →
      .connected t.id connection ∈ sinceCancelled s.history) :
    Sound (s.put t progress) (some { t with progress }) :=
  h.put progress s.completion (h.held_eq.trans hdl.symm) h.joining_eq h.held_made hcd hat

/-- **An attempt ends.** -/
theorem Sound.attempt (h : Sound s (some t)) (hpg : t.progress = .connecting)
    (connection : Option ConnectionResult) :
    Sound (s.attempt t connection) (some { t with progress := .attempted connection }) := by
  have hdl : ({ t with progress := .attempted connection } : WorkerThread).delivery
      = t.delivery := by
    unfold delivery
    rw [hpg]
  cases connection with
  | none =>
    exact h.goFurther _ hdl (fun _ _ heq => nomatch heq) fun _ heq => nomatch heq
  | some connection =>
    have hnt := h.note (.connected t.id connection) s.deadline s.backoff (by simp) (by simp) h.kept
    refine hnt.goFurther _ hdl (fun _ _ heq => nomatch heq) fun connection' heq => ?_
    cases heq
    exact mem_cons_self

/-- **The worker looks whether it is to stop.** If it was not asked to, it was
started after the last cancellation. -/
theorem Sound.check (h : Sound s (some t)) (hpg : t.progress = .attempted connection) :
    Sound (s.put t (.checked (if t.stopRequested then none else connection)))
      (some { t with progress := .checked (if t.stopRequested then none else connection) }) := by
  refine h.goFurther _ ?_ (fun hcn connection' heq => ?_) fun _ heq => nomatch heq
  · unfold delivery
    rw [hpg]
  · have hrt := Progress.checked.inj heq
    rcases h.working t rfl with hsp | hss | ⟨-, hmd⟩
    · rw [hsp, if_pos rfl] at hrt
      cases hrt
    · cases hdn : s.doing with
      | stopping =>
        rw [hdn] at hcn
        cases hcn
      | _ =>
        rw [hdn] at hss
        cases hss
    · split at hrt
      · cases hrt
      · rw [hrt] at hpg
        exact hmd connection' hpg

/-- **The worker hands over** what it has achieved. -/
theorem Sound.deliver (h : Sound s (some t)) (hpg : t.progress = .checked connection) :
    Sound { s.put t .delivered with
      completion := some { generation := t.generation, connection, thread := t.id } }
      (some { t with progress := .delivered }) := by
  have hno : s.held = none := by
    have hhe := h.held_eq
    have hdl : t.delivery = none := by
      unfold delivery
      rw [hpg]
    rw [bind_some, hdl] at hhe
    exact map_eq_none_iff.mp hhe
  have hjn : ∀ handed, s.doing ≠ .joining handed := by
    intro _ hdn
    unfold held at hno
    rw [hdn] at hno
    cases hno
  have hhe (completion : Option Handed) :
      ({ s with completion } : RecoveryThreads).held = completion := held_of_ne hjn
  refine h.put _ _ ?_ (fun handed hdn => absurd hdn (hjn handed)) ?_
    (fun _ _ heq => nomatch heq) fun _ heq => nomatch heq
  · rw [hhe]
    rfl
  · intro hcn _ hhn connection' hco
    rw [hhe] at hhn
    obtain rfl := mem_some.mp hhn
    rw [show connection = some connection' from hco] at hpg
    exact h.checked_made hcn t rfl connection' hpg

/-- **A step of a worker.** -/
theorem Sound.work (h : Sound s o) (id : ℕ) (connection : Option ConnectionResult) :
    ∃ o', Sound (s.work id connection) o' := by
  unfold RecoveryThreads.work
  cases hfd : s.threads.find? (·.id = id) with
  | none => exact ⟨o, h⟩
  | some t =>
    have hmem := mem_of_find?_eq_some hfd
    rw [h.threads_eq, mem_toList] at hmem
    obtain rfl : o = some t := hmem
    dsimp only
    unfold RecoveryThreads.advance
    cases hpg : t.progress with
    | connecting => exact ⟨_, h.attempt hpg connection⟩
    | attempted =>
      dsimp only
      split
      · exact ⟨_, h⟩
      · exact ⟨_, h.check hpg⟩
    | checked => exact ⟨_, h.deliver hpg⟩
    | delivered =>
      refine ⟨_, h.goFurther .ended ?_ (fun _ _ heq => nomatch heq) fun _ heq => nomatch heq⟩
      unfold delivery
      rw [hpg]
    | ended => exact ⟨_, h⟩

/-- **Every step keeps the threads in order.** -/
theorem Sound.step (h : Sound s o) (ev : Event) : ∃ o', Sound (s.step ev) o' := by
  cases ev with
  | call call =>
    unfold RecoveryThreads.step
    dsimp only
    split
    · next hdn => exact h.call hdn call
    · exact ⟨o, h⟩
  | proceed starts => exact h.proceed starts
  | work id connection => exact h.work id connection
  | tick =>
    exact ⟨o, { h with }⟩

end Steps

/-! ## Runs -/

theorem exists_sound_run (evs : List Event) : ∃ o, Sound (run evs) o := by
  exact foldlRecOn (motive := fun s => ∃ o, Sound s o) evs step ⟨none, sound_start⟩
    fun _ ⟨_, h⟩ ev _ => h.step ev

/-- **A retry is scheduled or under way**: a worker is at it, or has handed over;
unless its thread has not started. -/
theorem Sound.retry {s : RecoveryThreads} {o : Option WorkerThread} (h : Sound s o)
    (how : owes s.history = true) :
    (s.deadline.isSome = true ∨ (∃ t ∈ s.threads, t.running = true) ∨ s.held.isSome = true)
      ↔ stuck s.history = false := by
  obtain ⟨-, -, ⟨hsk, hrt⟩ | ⟨hsk, hnd, hno⟩⟩ := h.kept how
  swap
  · have hth := h.threads_eq
    have hhe := h.held_eq
    rw [hno] at hth hhe
    rw [hsk, hnd, hth, map_eq_none_iff.mp hhe]
    simp
  refine iff_of_true (hrt.imp_right ?_) hsk
  rintro ⟨t, ht, -⟩
  have hhe := h.held_eq
  rw [mem_def.mp ht, bind_some] at hhe
  cases hdl : t.delivery with
  | none =>
    refine .inl ⟨t, ?_, ?_⟩
    · rw [h.threads_eq]
      exact mem_toList.mpr ht
    · unfold running
      rw [hdl]
      rfl
  | some =>
    rw [hdl] at hhe
    obtain ⟨_, hhn, -⟩ := map_eq_some_iff.mp hhe
    exact .inr (by rw [hhn]; rfl)

/-- **No cancelled attempt comes back, and no retry is forgotten**, however the
steps of the threads are interleaved: there is at most one worker; a connection
that was returned was made by a worker that was started after the last
cancellation before that; and as long as a retry is owed, it is scheduled, or a
worker is running, or what it has handed over waits or is being taken, exactly if
no thread has failed to start since the failure. -/
theorem run_sound (events : List Event) : (run events).threads.length ≤ 1
      ∧ (∀ later earlier thread connection,
        (run events).history = later ++ .returned thread connection :: earlier →
        .started thread ∈ sinceCancelled earlier
          ∧ .connected thread connection ∈ sinceCancelled earlier)
      ∧ (owes (run events).history = true →
        ((run events).deadline.isSome = true ∨ (∃ t ∈ (run events).threads, t.running = true)
          ∨ (run events).held.isSome = true ↔ stuck (run events).history = false)) := by
  obtain ⟨o, h⟩ := exists_sound_run events
  refine ⟨?_, h.honest, h.retry⟩
  rw [h.threads_eq]
  cases o with
  | none => exact Nat.zero_le _
  | some => exact le_refl _

/-- A worker is started once the delay is over, and its connection is returned. -/
example : (run ([.call (.configure {})] ++ replicate 4 (.proceed true) ++ [.call .failed,
    .tick 1000, .call .poll, .proceed true] ++ .replicate 4 (.work 0 (some {})) ++ [.call .poll,
    .proceed true])).history
    = [.returned 0 {}, .connected 0 {}, .started 0, .failed, .cancelled] := by
  decide

/-- A failure is told, and the thread of the retry does not start. -/
def unstarted : RecoveryThreads :=
  run ([.call (.configure {})] ++ replicate 4 (.proceed true) ++
    [.call .failed, .tick 1000, .call .poll, .proceed false])

/-- **A retry is forgotten** if its thread does not start. -/
theorem retry_forgotten : owes unstarted.history = true ∧ unstarted.deadline = none
    ∧ unstarted.threads.length = 0 ∧ unstarted.held = none :=
  ⟨by decide, by decide, by decide, by decide⟩

end RecoveryThreads

end Tailgate
