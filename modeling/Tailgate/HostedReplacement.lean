import Tailgate.TransitionSystem

/-!
# Replacing a hosted connection

When the path of a client is ready, its worker registers the connection, and if there is
one of the same profile it shuts down the socket with the descriptor that connection was
accepted under. The other worker may have closed it meanwhile, and the kernel gives a
descriptor that has been closed to the next connection.
-/

namespace Tailgate

open Option Function

inductive WorkerStage where
  | accepted
  /-- It has registered its connection, in place of the previous one, and has not closed
  that one yet. -/
  | registered (previous : Option ℕ)
  | serving
  | unregistered
  | closed
  deriving DecidableEq

structure ConnectionWorker where
  fd : ℕ
  profileKey : String
  stage : WorkerStage

/-- The workers, by the numbers of their connections; the connections in the registry; and
the connection whose socket a descriptor is. An entry of the registry is erased before its
registration is released, so that it can always be locked. -/
structure HostedWorkers where
  workers : ℕ → Option ConnectionWorker := fun _ => none
  connections : String → Option ℕ := fun _ => none
  descriptors : ℕ → Option ℕ := fun _ => none

namespace HostedWorkers

inductive Event where
  | accept (id fd : ℕ) (profileKey : String)
  | register (id : ℕ)
  | close (id : ℕ)
  | unregister (id : ℕ)
  | closeDescriptor (id : ℕ)

variable (s : HostedWorkers)

def setStage (id : ℕ) (w : ConnectionWorker) (stage : WorkerStage) : HostedWorkers :=
  { s with workers := update s.workers id (some { w with stage }) }

def step : Event → Option HostedWorkers
  | .accept id fd profileKey =>
    -- the kernel gives out a descriptor that is not in use
    if s.workers id = none ∧ s.descriptors fd = none then
      some { s with
        workers := update s.workers id (some ⟨fd, profileKey, .accepted⟩)
        descriptors := update s.descriptors fd (some id) }
    else none
  | .register id => do
    let w ← s.workers id
    if w.stage = .accepted then
      some { s.setStage id w (.registered (s.connections w.profileKey)) with
        connections := update s.connections w.profileKey (some id) }
    else none
  | .close id => do
    let w ← s.workers id
    match w.stage with
    | .registered _ => some (s.setStage id w .serving)
    | _ => none
  | .unregister id => do
    let w ← s.workers id
    if w.stage = .accepted ∨ w.stage = .serving then
      some { s.setStage id w .unregistered with
        connections := if s.connections w.profileKey = some id then
            update s.connections w.profileKey none
          else s.connections }
    else none
  | .closeDescriptor id => do
    let w ← s.workers id
    if w.stage = .unregistered then
      some { s.setStage id w .closed with
        descriptors := update s.descriptors w.fd none }
    else none

def system : TransitionSystem HostedWorkers Event where
  init s := s = {}
  step s e s' := s.step e = some s'

def previous (s : HostedWorkers) (id : ℕ) : Option ℕ := do
  let w ← s.workers id
  match w.stage with
  | .registered previous => previous
  | _ => none

def shutSocket (id : ℕ) : Option ℕ := do
  let previous ← s.previous id
  let w ← s.workers previous
  s.descriptors w.fd

/-- No descriptor is closed while another worker is about to close its connection. -/
def Unhurried (e : Event) : Prop :=
  ∀ id, e = .closeDescriptor id → ∀ other, s.previous other ≠ some id

/-- **What holds of the workers.** -/
structure Sound (s : HostedWorkers) : Prop where
  /-- The descriptor of a connection is its own until it is closed. -/
  own : ∀ id w, s.workers id = some w → w.stage ≠ .closed → s.descriptors w.fd = some id
  entry : ∀ key id, s.connections key = some id → ∃ w, s.workers id = some w
    ∧ w.profileKey = key ∧ w.stage ≠ .accepted ∧ w.stage ≠ .unregistered ∧ w.stage ≠ .closed
  /-- A connection that is about to be closed has its descriptor. -/
  awaited : ∀ id w p, s.workers id = some w → w.stage = .registered (some p) →
    ∃ v, s.workers p = some v ∧ v.stage ≠ .closed

variable {s} {s' : HostedWorkers} {id j : ℕ}

theorem previous_eq_some_iff :
    s.previous id = some j ↔ ∃ w, s.workers id = some w ∧ w.stage = .registered (some j) := by
  unfold previous
  cases s.workers id with
  | none => simp
  | some w => cases hsg : w.stage <;> simp [hsg]

theorem Sound.step {e : Event} (h : Sound s) (hqt : Unhurried s e)
    (hsp : s.step e = some s') : Sound s' := by
  obtain ⟨_, entry, _⟩ := h
  cases e with
  | accept =>
    obtain ⟨⟨_, _⟩, hsp⟩ := ite_none_right_eq_some.mp hsp
    cases hsp
    constructor <;> dsimp only <;> grind [update_apply]
  | register | unregister =>
    obtain ⟨_, _, hsp⟩ := bind_eq_some_iff.mp hsp
    obtain ⟨_, hsp⟩ := ite_none_right_eq_some.mp hsp
    cases hsp
    -- an entry is of another connection, unless this one has been registered
    constructor <;> dsimp only [setStage] <;> grind [update_apply]
  | close =>
    obtain ⟨_, _, hsp⟩ := bind_eq_some_iff.mp hsp
    split at hsp
    · cases hsp
      constructor <;> dsimp only [setStage] <;> grind [update_apply]
    · cases hsp
  | closeDescriptor id =>
    obtain ⟨_, _, hsp⟩ := bind_eq_some_iff.mp hsp
    obtain ⟨hsg, hsp⟩ := ite_none_right_eq_some.mp hsp
    cases hsp
    have hla (j : ℕ) (v : ConnectionWorker) (hv : s.workers j = some v) :
        v.stage ≠ .registered (some id) :=
      fun hsg => hqt id rfl j (previous_eq_some_iff.mpr ⟨v, hv, hsg⟩)
    constructor <;> dsimp only [setStage] <;> grind [update_apply]

/-- **A connection that is replaced is shut down, and no other**, as long as no descriptor is
closed while another worker is about to close its connection. -/
theorem shutSocket_eq_previous (h : (system.restrict Unhurried).Reachable s)
    (hprevious : s.previous id = some j) : s.shutSocket id = some j := by
  have hsn : Sound s := by
    refine TransitionSystem.invariant ?_ (fun s e s' hs hsp => hs.step hsp.1 hsp.2) h
    rintro s rfl
    exact ⟨nofun, nofun, nofun⟩
  obtain ⟨w, hw, hsg⟩ := previous_eq_some_iff.mp hprevious
  obtain ⟨v, hv, hop⟩ := hsn.awaited id w j hw hsg
  rw [shutSocket, hprevious]
  show (s.workers j >>= fun w => s.descriptors w.fd) = some j
  rw [hv]
  exact hsn.own j v hv hop

/-- One client connects twice, and the second connection is to replace the first. -/
def replacing : List Event :=
  [.accept 0 5 "profile", .register 0, .close 0, .accept 1 6 "profile", .register 1]

def openStep (s : HostedWorkers) : Event → Option HostedWorkers
  | .closeDescriptor _ => none
  | e => s.step e

theorem shutSocket_replacing : ∃ s, (system.restrict Unhurried).Reachable s
    ∧ s.previous 1 = some 0 ∧ s.shutSocket 1 = some 0 := by
  have hnx (s : HostedWorkers) (e : Event) (s' : HostedWorkers) (h : s.openStep e = some s') :
      (system.restrict Unhurried).step s e s' := by
    cases e with
    | closeDescriptor => cases h
    | _ => exact ⟨nofun, h⟩
  have hin : (system.restrict Unhurried).Reachable {} := .init rfl
  have hrun : replacing.foldlM openStep {} = some ((replacing.foldlM openStep {}).get (by rfl)) :=
    (some_get _).symm
  have hre := hin.of_foldlM hnx hrun
  exact ⟨_, hre, rfl, shutSocket_eq_previous hre rfl⟩

/-- The first connection ends by itself before it is closed, and a third one is accepted
under its descriptor. -/
def ending : List Event :=
  replacing ++ [.unregister 0, .closeDescriptor 0, .accept 2 5 "other"]

/-- **Another connection is shut down.** -/
theorem reused_descriptor_shut : ∃ s, system.Reachable s ∧ s.previous 1 = some 0
    ∧ s.shutSocket 1 = some 2 := by
  have hin : system.Reachable {} := .init rfl
  have hrun : ending.foldlM step {} = some ((ending.foldlM step {}).get (by rfl)) :=
    (some_get _).symm
  exact ⟨_, hin.of_foldlM (fun _ _ _ h => h) hrun, rfl, rfl⟩

end HostedWorkers

end Tailgate
