import Tailgate.TransitionSystem

/-!
# The members of the relay server

The members of the server are constructed in the order in which they are declared, and one
of them is the thread that accepts connections. It runs from then on, while the members
declared behind it are still to be constructed, and it uses them as soon as a client has
connected. The destructor waits for that thread and for the workers before any member is
destroyed.
-/

namespace Tailgate

open Option

namespace RelayServer

inductive Member where
  | listener
  | handler
  | stopping
  | thread
  | connectionMutex
  | connectionFds
  | connections
  | handshakeLimiter
  deriving DecidableEq

def Member.index : Member → ℕ
  | listener => 0
  | handler => 1
  | stopping => 2
  | thread => 3
  | connectionMutex => 4
  | connectionFds => 5
  | connections => 6
  | handshakeLimiter => 7

inductive Owner where
  | constructing
  | constructed
  /-- It has asked the thread to stop and waits for it. -/
  | stopping
  /-- The thread is done, and it waits for the workers. -/
  | joining
  | destroying
  deriving DecidableEq

/-- Where `Run` is. -/
inductive Acceptor where
  | unstarted
  | testing
  | accepting
  | failing
  | reaping
  | admitting
  | done
  deriving DecidableEq

/-- Where `Handle` is. -/
inductive Handler where
  | handling
  | failing
  | finishing
  | leaving
  | done
  deriving DecidableEq

structure State where
  owner : Owner := .constructing
  /-- How many members there are: the first ones of their order. -/
  members : ℕ := 0
  acceptor : Acceptor := .unstarted
  workers : ℕ → Option Handler := fun _ => none

inductive Event where
  | construct
  | stop
  | joinThread
  | joinWorkers
  | destroy
  | acceptor (next : Acceptor)
  | admits (worker : ℕ)
  | worker (id : ℕ) (next : Handler)
  deriving DecidableEq

def Acceptor.follows : Acceptor → List Acceptor
  | unstarted => []
  | testing => [accepting, done]
  | accepting => [failing, reaping]
  | failing => [testing, done]
  | reaping => [admitting, testing]
  | admitting => [testing]
  | done => []

def Handler.follows : Handler → List Handler
  | handling => [failing, finishing]
  | failing => [finishing]
  | finishing => [leaving]
  | leaving => [done]
  | done => []

def Acceptor.uses : Acceptor → List Member
  | testing => [.stopping]
  | accepting => [.listener]
  | failing => [.stopping]
  | reaping => [.connectionMutex, .connections]
  | admitting => [.connectionMutex, .connectionFds, .handshakeLimiter, .connections]
  | unstarted | done => []

def Handler.uses : Handler → List Member
  | handling => [.handler, .connectionMutex, .handshakeLimiter]
  | failing => [.stopping]
  | finishing => [.connectionMutex, .handshakeLimiter]
  | leaving => [.connectionMutex, .connectionFds]
  | done => []

def step (s : State) : Event → Option State
  | .construct =>
    if s.owner = .constructing then
      some { s with
        members := s.members + 1
        owner := if s.members + 1 = 8 then .constructed else .constructing
        acceptor := if s.members = Member.thread.index then .testing else s.acceptor }
    else none
  | .stop => if s.owner = .constructed then some { s with owner := .stopping } else none
  | .joinThread =>
    if s.owner = .stopping ∧ s.acceptor = .done then some { s with owner := .joining } else none
  -- that every worker is done is asked by `system`: it is about all ids
  | .joinWorkers =>
    if s.owner = .joining then some { s with owner := .destroying } else none
  | .destroy =>
    if s.owner = .destroying then some { s with members := s.members - 1 } else none
  | .acceptor next =>
    if next ∈ s.acceptor.follows then some { s with acceptor := next } else none
  | .admits id =>
    if s.acceptor = .admitting ∧ s.workers id = none then
      some { s with
        acceptor := .testing
        workers := Function.update s.workers id (some .handling) }
    else none
  | .worker id next =>
    match s.workers id with
    | some stage =>
      if next ∈ stage.follows then
        some { s with workers := Function.update s.workers id (some next) }
      else none
    | none => none

/-- The owner, the thread that accepts and the workers, in any order. -/
def system : TransitionSystem State Event where
  init s := s = {}
  step s e s' := step s e = some s' ∧
    (e = .joinWorkers → ∀ id, s.workers id = none ∨ s.workers id = some .done)

/-- **Only members that there are are used.** -/
def Live (s : State) : Prop :=
  (∀ m ∈ s.acceptor.uses, m.index < s.members)
    ∧ ∀ id stage, s.workers id = some stage → ∀ m ∈ stage.uses, m.index < s.members

/-- No client is accepted while members are still to be constructed. -/
def Patient (s : State) (e : Event) : Prop :=
  e = .acceptor .reaping → s.owner ≠ .constructing

structure Sound (s : State) : Prop where
  constructing : s.owner = .constructing → s.members < 8 ∧ s.acceptor ≠ .reaping
    ∧ s.acceptor ≠ .admitting ∧ ∀ id, s.workers id = none
  started : s.acceptor ≠ .unstarted → s.owner = .constructing → 4 ≤ s.members
  whole : s.owner = .constructed ∨ s.owner = .stopping ∨ s.owner = .joining → s.members = 8
  joined : s.owner = .joining ∨ s.owner = .destroying → s.acceptor = .done
  destroying : s.owner = .destroying → ∀ id, s.workers id = none ∨ s.workers id = some .done

variable {s s' : State} {e : Event}

theorem Sound.step (h : Sound s) (hpt : Patient s e) (hsp : system.step s e s') : Sound s' := by
  obtain ⟨_, _, _, _, _⟩ := h
  obtain ⟨hsp, _⟩ := hsp
  cases e with
  | construct =>
    obtain ⟨_, hsp⟩ := ite_none_right_eq_some.mp hsp
    cases hsp
    constructor <;> dsimp only [Member.index] <;> grind
  | stop | joinThread =>
    obtain ⟨_, _⟩ := ite_none_right_eq_some.mp hsp
    constructor <;> grind
  | joinWorkers | destroy =>
    obtain ⟨_, hsp⟩ := ite_none_right_eq_some.mp hsp
    cases hsp
    constructor <;> grind
  | acceptor next =>
    obtain ⟨hnx, hsp⟩ := ite_none_right_eq_some.mp hsp
    cases hsp
    have hsd : s.acceptor ≠ .unstarted ∧ s.acceptor ≠ .done
        ∧ (next = .admitting → s.acceptor = .reaping) ∧ next ≠ .unstarted := by
      cases hac : s.acceptor <;> simp [hac, Acceptor.follows] at hnx <;> grind
    have hrp : next = .reaping → s.owner ≠ .constructing := fun h => hpt (h ▸ rfl)
    constructor <;> grind
  | admits =>
    obtain ⟨⟨_, _⟩, hsp⟩ := ite_none_right_eq_some.mp hsp
    cases hsp
    constructor <;> dsimp only <;> grind [Function.update_apply]
  | worker id =>
    dsimp only [RelayServer.step] at hsp
    cases hwr : s.workers id with
    | none => simp [hwr] at hsp
    | some stage =>
      rw [hwr] at hsp
      obtain ⟨hnx, hsp⟩ := ite_none_right_eq_some.mp hsp
      cases hsp
      have hbs : stage ≠ .done := by
        rintro rfl
        cases hnx
      constructor <;> dsimp only <;> grind [Function.update_apply]

theorem Sound.live (h : Sound s) : Live s := by
  obtain ⟨_, _, _, _, _⟩ := h
  constructor
  · intro _ _
    cases how : s.owner <;> cases hac : s.acceptor <;>
      grind [Acceptor.uses, Member.index]
  · intro _ stage _ _ _
    cases how : s.owner <;> cases stage <;> grind [Handler.uses, Member.index]

/-- **The threads of the server use only members that there are**, as long as no client is
accepted before the server is constructed. -/
theorem live_of_patient (h : (system.restrict Patient).Reachable s) : Live s := by
  refine Sound.live (TransitionSystem.invariant ?_ (fun s e s' hs hsp => ?_) h)
  · rintro s rfl
    exact ⟨fun _ => ⟨by decide, nofun, nofun, fun _ => rfl⟩, nofun, nofun, nofun, nofun⟩
  · exact hs.step hsp.1 hsp.2

def patientStep (s : State) (e : Event) : Option State :=
  if e = .joinWorkers ∨ e = .acceptor .reaping ∧ s.owner = .constructing then none else step s e

/-- A client is accepted and its worker runs, once the server has been constructed. -/
def served : List Event :=
  List.replicate 8 .construct ++
    [.acceptor .accepting, .acceptor .reaping, .acceptor .admitting, .admits 0]

theorem live_of_patient_served : ∃ s, (system.restrict Patient).Reachable s
    ∧ s.workers 0 = some .handling ∧ Live s := by
  have hnx (s : State) (e : Event) (s' : State) (h : patientStep s e = some s') :
      (system.restrict Patient).step s e s' := by
    obtain ⟨hno, hsp⟩ := ite_none_left_eq_some.mp h
    exact ⟨fun he how => hno (.inr ⟨he, how⟩), hsp, fun he => absurd (.inl he) hno⟩
  have hin : (system.restrict Patient).Reachable {} := .init rfl
  have hrun : served.foldlM patientStep {} = some ((served.foldlM patientStep {}).get (by rfl)) :=
    (some_get _).symm
  have hre := hin.of_foldlM hnx hrun
  exact ⟨_, hre, rfl, live_of_patient hre⟩

/-- **A mutex that has not been constructed is used**: the thread is started, and a client
connects at once. -/
theorem connectionMutex_not_live : ∃ s, system.Reachable s ∧ s.owner = .constructing
    ∧ Member.connectionMutex ∈ s.acceptor.uses ∧ ¬Member.connectionMutex.index < s.members
    ∧ ¬Live s := by
  have hth := (((TransitionSystem.Reachable.init (S := system) rfl).step (e := .construct)
    ⟨rfl, nofun⟩).step (e := .construct) ⟨rfl, nofun⟩).step (e := .construct) ⟨rfl, nofun⟩
  have hre := ((hth.step (e := .construct) ⟨rfl, nofun⟩).step (e := .acceptor .accepting)
    ⟨rfl, nofun⟩).step (e := .acceptor .reaping) ⟨rfl, nofun⟩
  exact ⟨_, hre, rfl, by decide, by decide, fun h => absurd (h.1 .connectionMutex (by decide))
    (by decide)⟩

end RelayServer

end Tailgate
