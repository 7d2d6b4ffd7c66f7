import Tailgate.NetworkConfig

/-!
# Reconnecting to the relay

`Recovery` schedules attempts to connect to a relay. An attempt is made by a
worker, one at most, which hands over a *completion*. Cancelling starts a new
generation: what a worker of an earlier one achieves is dropped.

Times are in milliseconds. `poll` may read the clock twice. It throws if a worker
that it is to start is refused, and the deadline is gone by then.
-/

namespace Tailgate

open Option

/-- **Delays that double up to a bound.** The delay to be used next never
leaves the bounds it was made with. -/
structure RetryBackoff where
  initialDelay : ℕ
  maximumDelay : ℕ
  nextDelay : ℕ
  positive : 0 < initialDelay
  initial_le : initialDelay ≤ nextDelay
  le_maximum : nextDelay ≤ maximumDelay

namespace RetryBackoff

/-- The delays of a node that looks for its relay: from one second to half a
minute. -/
def new : RetryBackoff := ⟨1000, 30000, 1000, by decide, by decide, by decide⟩

def advance (b : RetryBackoff) : RetryBackoff :=
  { b with
    nextDelay := if b.maximumDelay - b.nextDelay < b.nextDelay then b.maximumDelay
      else b.nextDelay * 2
    initial_le := by
      have h₁ := b.initial_le
      have h₂ := b.le_maximum
      split <;> omega
    le_maximum := by
      have h := b.le_maximum
      split <;> omega }

def reset (b : RetryBackoff) : RetryBackoff :=
  { b with
    nextDelay := b.initialDelay
    initial_le := le_refl _
    le_maximum := b.initial_le.trans b.le_maximum }

end RetryBackoff

structure ConnectionOptions where
  connectAddress : String := ""
  /-- The name the relay proves it has, when it is not its address. -/
  tlsServerName : Option String := none
  networkInterface : String := ""
  network : NetworkConfig := {}
  exitNode : String := ""
  deriving DecidableEq

structure ConnectionResult where
  network : NetworkConfig := {}
  reconnect : ConnectionOptions := {}
  deriving DecidableEq

structure Completion where
  generation : ℕ
  connection : Option ConnectionResult
  deriving DecidableEq

structure Worker where
  generation : ℕ
  options : ConnectionOptions
  stopped : Bool := false

theorem worker_none : ∀ w ∈ (none : Option Worker), w.generation ≤ 0 := by simp

theorem done_none : ∀ c ∈ (none : Option Completion), ∃ w ∈ (none : Option Worker),
    c.generation = w.generation := by simp

/-- **The state of the scheduling.** The worker never belongs to a generation
that is yet to come, and what has been achieved, the worker has achieved. -/
structure Recovery where
  options : Option ConnectionOptions := none
  deadline : Option ℕ := none
  backoff : RetryBackoff := .new
  generation : ℕ := 0
  completion : Option Completion := none
  worker : Option Worker := none
  /-- The worker is of a generation there has been. -/
  worker_le : ∀ w ∈ worker, w.generation ≤ generation := by exact worker_none
  /-- What has been achieved is of the worker's generation. -/
  completion_worker : ∀ c ∈ completion, ∃ w ∈ worker, c.generation = w.generation := by
    exact done_none

namespace Recovery

variable (r : Recovery)

def cancel : Recovery where
  options := r.options
  deadline := none
  backoff := r.backoff
  generation := r.generation + 1
  completion := r.completion.map fun c => { c with connection := none }
  worker := r.worker.map fun w => { w with stopped := true }
  worker_le := by
    intro _ hw
    obtain ⟨w', hw', rfl⟩ := mem_map.mp hw
    exact Nat.le_succ_of_le (r.worker_le w' hw')
  completion_worker := by
    intro _ hc
    obtain ⟨c', hc', rfl⟩ := mem_map.mp hc
    obtain ⟨w, hw, hgen⟩ := r.completion_worker c' hc'
    exact ⟨{ w with stopped := true }, mem_map_of_mem _ hw, hgen⟩

def configure (options : ConnectionOptions) : Recovery :=
  { r.cancel with options := some options, backoff := r.backoff.reset }

def failed (now : ℕ) : Recovery :=
  if r.options.isSome ∧ r.deadline = none then
    { r with deadline := some (now + r.backoff.nextDelay), backoff := r.backoff.advance }
  else r

def changeNetwork (networkInterface : String) (now : ℕ) : Recovery :=
  match r.options with
  | none => r
  | some options =>
    let options := { options with networkInterface := networkInterface }
    { r.cancel with options := some options, deadline := some now }

def complete (connection : Option ConnectionResult) : Recovery :=
  match hw : r.worker, r.completion with
  | some w, none =>
    let completion : Completion :=
      { generation := w.generation, connection := if w.stopped then none else connection }
    { r with
      completion := some completion
      completion_worker := by
        intro c hc
        obtain rfl : completion = c := mem_some.mp hc
        exact ⟨w, hw, rfl⟩ }
  | _, _ => r

/-- The end of a poll: a worker is started when an attempt is due and there is
none, unless the thread is refused. -/
def start (refused : Bool) (now : ℕ) : Except Unit (Option ConnectionResult) × Recovery :=
  match hw : r.worker, r.options, r.deadline with
  | none, some options, some deadline =>
    if now < deadline then (.ok none, r)
    else if refused then (.error (), { r with deadline := none })
    else
      let worker : Worker := { generation := r.generation, options := options }
      (.ok none, { r with
        deadline := none
        worker := some worker
        worker_le := by
          intro w h
          obtain rfl : worker = w := mem_some.mp h
          exact le_refl _
        completion_worker := by
          intro c hc
          obtain ⟨_, h, -⟩ := r.completion_worker c hc
          rw [hw] at h
          cases h })
  | _, _, _ => (.ok none, r)

def settle : Recovery :=
  { r with completion := none, worker := none, worker_le := by simp, completion_worker := by simp }

/-- Takes what the worker has achieved, and starts another attempt when one is
due. -/
def poll (refused : Bool) (retryAt now : ℕ) : Except Unit (Option ConnectionResult) × Recovery :=
  match r.completion with
  | none => r.start refused now
  | some c =>
    let r := r.settle
    if c.generation = r.generation then
      match c.connection with
      | some connection =>
        (.ok (some connection), { r with backoff := r.backoff.reset, deadline := none })
      | none =>
        let r := { r with deadline := none }
        (r.failed retryAt).start refused now
    else r.start refused now

/-- What a poll meets: a worker that has finished by then, if one has, what the
clock shows, and whether a thread is refused. -/
structure Turn where
  completed : Option (Option ConnectionResult) := none
  retryAt : ℕ := 0
  now : ℕ := 0
  refused : Bool := false

def completeAt (turn : Turn) : Recovery :=
  match turn.completed with
  | none => r
  | some connection => r.complete connection

def pollAt (turn : Turn) : Except Unit (Option ConnectionResult) × Recovery :=
  (r.completeAt turn).poll turn.refused turn.retryAt turn.now

/-! ## Having nothing under way -/

/-- **Nothing is under way**: no attempt is scheduled, and a worker that may
still be running belongs to a generation that is over. -/
structure Dormant (r : Recovery) : Prop where
  deadline : r.deadline = none
  /-- The worker's generation is over. -/
  worker : ∀ w ∈ r.worker, w.generation < r.generation

variable {r : Recovery}

theorem Dormant.completion (h : r.Dormant) : ∀ c ∈ r.completion, c.generation < r.generation := by
  intro c hc
  obtain ⟨w, hw, hgen⟩ := r.completion_worker c hc
  rw [hgen]
  exact h.worker w hw

theorem dormant_cancel (r : Recovery) : r.cancel.Dormant where
  deadline := rfl
  worker := by
    intro _ hw
    obtain ⟨w', hw', rfl⟩ := mem_map.mp hw
    exact Nat.lt_succ_of_le (r.worker_le w' hw')

theorem dormant_configure (r : Recovery) (opts : ConnectionOptions) : (r.configure opts).Dormant :=
  ⟨r.dormant_cancel.deadline, r.dormant_cancel.worker⟩

theorem complete_frame (r : Recovery) (conn : Option ConnectionResult) :
    (r.complete conn).deadline = r.deadline ∧ (r.complete conn).worker = r.worker
      ∧ (r.complete conn).generation = r.generation := by
  unfold complete
  split
  all_goals exact ⟨rfl, rfl, rfl⟩

theorem Dormant.completeAt (h : r.Dormant) (turn : Turn) : (r.completeAt turn).Dormant := by
  unfold Recovery.completeAt
  split
  · exact h
  · next conn _ =>
    obtain ⟨hd, hw, hg⟩ := r.complete_frame conn
    refine ⟨hd.trans h.deadline, ?_⟩
    rw [hw, hg]
    exact h.worker

theorem start_of_deadline (refused : Bool) (now : ℕ) (h : r.deadline = none) :
    r.start refused now = (.ok none, r) := by
  unfold start
  split
  · next hd => rw [h] at hd; cases hd
  · rfl

theorem start_ne_some (r : Recovery) (refused : Bool) (now : ℕ) (conn : ConnectionResult) :
    (r.start refused now).1 ≠ .ok (some conn) := by
  unfold start
  split
  · split_ifs <;> nofun
  · nofun

/-- **Nothing comes of nothing**: a poll with nothing under way returns no
connection and starts nothing. -/
theorem Dormant.pollAt (h : r.Dormant) (turn : Turn) :
    (r.pollAt turn).1 = .ok none ∧ (r.pollAt turn).2.Dormant := by
  have hr := h.completeAt turn
  unfold Recovery.pollAt poll
  generalize r.completeAt turn = r at hr
  cases hc : r.completion with
  | none =>
    dsimp only
    rw [start_of_deadline _ _ hr.deadline]
    exact ⟨rfl, hr⟩
  | some c =>
    have hne : c.generation ≠ r.settle.generation := (hr.completion c hc).ne
    have hs : r.settle.Dormant := ⟨hr.deadline, by simp [settle]⟩
    dsimp only
    rw [if_neg hne, start_of_deadline _ _ hs.deadline]
    exact ⟨rfl, hs⟩

theorem dormant_of_pollAt {turn : Turn} {conn : ConnectionResult}
    (h : (r.pollAt turn).1 = .ok (some conn)) : (r.pollAt turn).2.Dormant := by
  unfold pollAt poll at h ⊢
  generalize r.completeAt turn = r at h ⊢
  cases hc : r.completion with
  | none =>
    rw [hc] at h
    exact absurd h (start_ne_some _ _ _ _)
  | some c =>
    simp only [hc] at h ⊢
    by_cases hgen : c.generation = r.settle.generation
    · rw [if_pos hgen] at h ⊢
      cases hcon : c.connection with
      | none =>
        rw [hcon] at h
        exact absurd h (start_ne_some _ _ _ _)
      | some => exact ⟨rfl, by simp [settle]⟩
    · rw [if_neg hgen] at h
      exact absurd h (start_ne_some _ _ _ _)

end Recovery

end Tailgate
