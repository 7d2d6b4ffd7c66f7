import Tailgate.BigEndian
import Tailgate.NetworkConfig
import Tailgate.Procedures
import Tailgate.TransitionSystem

/-!
# Reconnecting to the control server

When the session with the control server is lost, a worker builds another one
and posts it, and the next call of `maintain` picks it up. The connection counts
changes of the network, and a worker knows the count it was started under. What
a session or the system answers and the clock, in nanoseconds, are arguments.
-/

namespace Tailgate

open Procedure

inductive Thrown
  /-- An exception of the standard kind, with its text. -/
  | standard (what : String)
  | other

inductive EndpointType
  | unknown
  | localInterface
  | stun
  | portmapped
  | stun4LocalPort
  | explicitConf
  deriving DecidableEq

structure MapEndpoint where
  addressPort : String
  type : EndpointType := .unknown

inductive RegistrationState
  | complete
  | loginRequired
  | machineApprovalRequired

structure RegistrationResult where
  state : RegistrationState := .complete
  network : Option NetworkConfig := none
  networkMapStreaming : Bool := false

structure ControlSessionOptions where
  networkInterface : String := ""
  readinessToken : ℕ := 0

/-- Where a session comes from: the worker that has built it, if it was one,
and when that was started. -/
structure Origin where
  worker : Option ℕ
  /-- The count of network changes it was started under. -/
  generation : UInt64
  changes : ℕ

structure ControlSession where
  origin : Origin
  options : ControlSessionOptions
  discoPrivateKey : Option Bytes := none
  endpoints : Option (List MapEndpoint) := none
  preferredDerp : Option ℤ := none
  nonBlocking : Bool := false

structure ReconnectWorker where
  number : ℕ
  /-- The count of network changes it was started under. -/
  generation : UInt64
  changes : ℕ
  options : ControlSessionOptions
  discoPrivateKey : Option Bytes
  endpoints : Option (List MapEndpoint)
  stopRequested : Bool := false
  posted : Bool := false

def ReconnectWorker.origin (w : ReconnectWorker) : Origin :=
  ⟨some w.number, w.generation, w.changes⟩

structure ReconnectResult where
  session : Option ControlSession := none
  network : Option NetworkConfig := none
  error : Option Thrown := none
  /-- The count of network changes the worker was started under. -/
  generation : UInt64 := 0

structure WorkerAnswers where
  createSession : Except Thrown Unit := .ok ()
  setDiscoPrivateKey : Except Thrown Unit := .ok ()
  setEndpoints : Except Thrown Unit := .ok ()
  registerUntilAuthorized : Except Thrown RegistrationResult
  updateHostInfo : Except Thrown Unit := .ok ()
  setPreferredDerp : Except Thrown Unit := .ok ()

namespace ReconnectWorker

def tell {α : Type} (value : Option α) (answer : Except Thrown Unit)
    (f : α → ControlSession → ControlSession) (session : ControlSession) :
    Except Thrown ControlSession :=
  match value with
  | none => .ok session
  | some a => do
    answer
    pure (f a session)

/-- **Build a session** and register with it. -/
def build (w : ReconnectWorker) (answers : WorkerAnswers) :
    Except Thrown (ControlSession × NetworkConfig) := do
  answers.createSession
  let created : ControlSession := { origin := w.origin, options := w.options }
  let keyed ← tell w.discoPrivateKey answers.setDiscoPrivateKey
    (fun key session => { session with discoPrivateKey := some key }) created
  let session ← tell w.endpoints answers.setEndpoints
    (fun endpoints session => { session with endpoints := some endpoints }) keyed
  let registration ← answers.registerUntilAuthorized
  match registration.state, registration.network with
  | .complete, some network => do
    answers.updateHostInfo
    answers.setPreferredDerp
    pure ({ session with preferredDerp := some network.derpRegion }, network)
  | _, _ => throw (.standard "Control reconnect registration did not return a network map.")

def result (w : ReconnectWorker) (answers : WorkerAnswers) : ReconnectResult :=
  match w.build answers with
  | .ok (session, network) =>
    { session := some session, network := some network, generation := w.generation }
  | .error thrown => { error := some thrown, generation := w.generation }

end ReconnectWorker

/-- A session that has been installed, and the network it was installed
under. -/
structure Installation where
  session : ControlSession
  generation : UInt64
  changes : ℕ

/-- **The connection to the control server**, the threads it has started, and
what is left to read of the clock. -/
structure ConnectionImpl where
  options : ControlSessionOptions
  session : Option ControlSession := none
  reconnectThread : Option ℕ := none
  networkGeneration : UInt64 := 0
  networkAvailable : Bool := true
  reconnectResult : Option ReconnectResult := none
  discoPrivateKey : Option Bytes := none
  endpoints : Option (List MapEndpoint) := none
  preferredDerp : Option ℤ := none
  lastActivity : ℕ := 0
  nextReconnect : ℕ := 0
  reconnectDelay : ℕ
  streaming : Bool := false
  reconnecting : Bool := false
  reconnectInProgress : Bool := false
  reconnectRequested : Bool := false
  /-- The threads that have been started and not joined. -/
  workers : List ReconnectWorker := []
  started : ℕ := 0
  changes : ℕ := 0
  /-- The reading of the clock when it was last decided when to reconnect. -/
  scheduledAt : ℕ := 0
  /-- The sessions of workers that have been installed. -/
  installed : List Installation := []
  time : ℕ := 0
  readings : List ℕ := []

abbrev Connecting := EStateM Thrown ConnectionImpl

namespace ConnectionImpl

def seconds : ℕ := 10 ^ 9

def silenceTimeout : ℕ := 2 * 60 * seconds

def initialReconnectDelay : ℕ := 1 * seconds

def maximumReconnectDelay : ℕ := 30 * seconds

def timePointMax : ℕ := 2 ^ 63 - 1

def read (s : ConnectionImpl) : ℕ × ConnectionImpl :=
  match s.readings with
  | [] => (s.time, s)
  | t :: readings => (t, { s with time := t, readings })

def now : Connecting ℕ := modifyGet read

def setNextReconnect (next time : ℕ) : Connecting Unit :=
  modify fun s => { s with nextReconnect := next, scheduledAt := time }

def disconnect : Connecting Unit := modify fun s => { s with session := none }

def scheduleReconnect : Connecting Unit := do
  disconnect
  modify fun s => { s with reconnecting := true }
  let time ← now
  let s ← get
  -- The wait was decided when the session was lost the last time.
  setNextReconnect (time + s.reconnectDelay) time
  modify fun s => { s with reconnectDelay := min (s.reconnectDelay * 2) maximumReconnectDelay }

def post (number : ℕ) (answers : WorkerAnswers) (s : ConnectionImpl) : ConnectionImpl :=
  match s.workers.find? fun w => w.number == number && !w.posted with
  | none => s
  | some worker =>
    { s with
      workers := s.workers.map fun w => if w.number = number then { w with posted := true } else w
      reconnectResult := some (worker.result answers) }

/-- Wait for the thread to end: if it is still at it, it comes to its result
first. -/
def join (answers : WorkerAnswers) : Connecting Unit := do
  let s ← get
  match s.reconnectThread with
  | none => throw (.standard "Invalid argument")
  | some number => do
    modify (post number answers)
    modify fun s =>
      { s with workers := s.workers.filter fun w => w.number ≠ number, reconnectThread := none }

structure MaintainAnswers where
  /-- What the worker is answered, if it has to be waited for. -/
  worker : WorkerAnswers
  startThread : Except Thrown Unit := .ok ()
  /-- Whether the calls of the session are made to return at once. -/
  setNonBlocking : Except Thrown Unit := .ok ()
  /-- Whether the session has to write to go on reading. -/
  readNeedsWrite : Except Thrown Bool := .ok false
  hasPendingOutput : Except Thrown Bool := .ok false
  setWriteInterest : Bool → Except Thrown Unit := fun _ => .ok ()

def withWorker (s : ConnectionImpl) : ConnectionImpl :=
  { s with
    workers := s.workers ++ [{
      number := s.started
      generation := s.networkGeneration
      changes := s.changes
      options := s.options
      discoPrivateKey := s.discoPrivateKey
      endpoints := s.endpoints }]
    reconnectThread := some s.started
    started := s.started + 1 }

variable (answers : MaintainAnswers)

/-- **Start a worker.** -/
def startReconnect : Connecting Unit := do
  let s ← get
  whenever (s.reconnectThread.isSome = true) (join answers.worker)
  -- This is noted first, and stays so if the thread cannot be started.
  modify fun s => { s with reconnectInProgress := true }
  answers.startThread
  modify withWorker

def takeReconnectResult : Connecting (Option ReconnectResult) :=
  modifyGet fun s => (s.reconnectResult, { s with reconnectResult := none })

def writeInterest (readNeedsWrite hasPendingOutput : Except Thrown Bool) : Except Thrown Bool := do
  if ← readNeedsWrite then pure true else hasPendingOutput

def install (reconnect : ReconnectResult) :
    Connecting (List NetworkConfig) := do
  -- The session is in place before the calls that may throw.
  modify fun s =>
    { s with
      session := reconnect.session
      installed := s.installed ++ reconnect.session.toList.map fun session =>
        ⟨session, s.networkGeneration, s.changes⟩ }
  answers.setNonBlocking
  modify fun s => { s with session := s.session.map fun x => { x with nonBlocking := true } }
  let interest ← writeInterest answers.readNeedsWrite answers.hasPendingOutput
  answers.setWriteInterest interest
  modify fun s =>
    { s with
      reconnecting := false
      nextReconnect := timePointMax
      reconnectDelay := initialReconnectDelay }
  let time ← now
  modify fun s => { s with lastActivity := time }
  match reconnect.network with
  | none => pure []
  | some network => do
    whenever (network.derpRegion ≠ 0) do
      modify fun s => { s with preferredDerp := some network.derpRegion }
    pure [network]

def finishReconnect (reconnect : ReconnectResult) :
    Connecting (List NetworkConfig) := do
  let s ← get
  if reconnect.generation ≠ s.networkGeneration then do
    -- The network has been abandoned: another worker may start at once.
    let time ← now
    setNextReconnect time time
    pure []
  else
    match reconnect.error with
    | some (.standard _) => do
      scheduleReconnect
      pure []
    -- It is rethrown to be logged, and only what is standard is caught.
    | some .other => throw .other
    | none => install answers reconnect

def checkSilence : Connecting (List NetworkConfig) := do
  let s ← get
  whenever (s.streaming = true) do
    let time ← now
    whenever (silenceTimeout ≤ time - s.lastActivity) scheduleReconnect
  pure []

def reconnectWhenDue : Connecting (List NetworkConfig) := do
  let s ← get
  whenever (s.networkAvailable = true) do
    let time ← now
    whenever (s.nextReconnect ≤ time) (startReconnect answers)
  pure []

def collectReconnect : Connecting (List NetworkConfig) := do
  match ← takeReconnectResult with
  | none => pure []
  | some reconnect => do
    join answers.worker
    modify fun s => { s with reconnectInProgress := false }
    finishReconnect answers reconnect

def takeRequest : Connecting Unit := do
  let s ← get
  -- While a worker is at it, a request waits.
  whenever (s.reconnectInProgress = false ∧ s.reconnectRequested = true) do
    modify fun s => { s with reconnectRequested := false }
    scheduleReconnect
    let time ← now
    setNextReconnect time time

/-- **Look after the connection.** -/
def maintain : Connecting (List NetworkConfig) := do
  takeRequest
  let s ← get
  if s.session.isSome then
    checkSilence
  else if s.reconnectInProgress = false then
    reconnectWhenDue answers
  else
    collectReconnect answers

/-- **Another network, or none.** -/
def changeNetwork (networkInterface : Option String) : Connecting Unit := do
  -- A worker is only asked to stop: what it posts is told by its count.
  modify fun s =>
    { s with
      networkGeneration := s.networkGeneration + 1
      changes := s.changes + 1
      workers := s.workers.map fun w =>
        if s.reconnectThread = some w.number then { w with stopRequested := true } else w
      networkAvailable := networkInterface.isSome
      options := match networkInterface with
        | some networkInterface => { s.options with networkInterface }
        | none => s.options }
  disconnect
  modify fun s => { s with reconnecting := true }
  let time ← now
  setNextReconnect time time

def requestReconnect : Connecting Unit := modify fun s => { s with reconnectRequested := true }

structure Readiness where
  readable : Bool := false
  writable : Bool := false
  closed : Bool := false
  error : Bool := false

structure ConnectionEventResult where
  handled : Bool := false
  disconnected : Bool := false
  networkMaps : List NetworkConfig := []

structure EventAnswers where
  /-- Whether the session has to write to go on reading. -/
  readNeedsWrite : Except Thrown Bool := .ok false
  hasPendingOutput : Except Thrown Bool := .ok false
  pollNetworkMaps : Except Thrown (List NetworkConfig) := .ok []
  updateWriteInterest : Except Thrown Unit := .ok ()

def interrupted (networkMaps : List NetworkConfig) : Thrown → Connecting ConnectionEventResult
  | .standard _ => do
    scheduleReconnect
    pure { handled := true, disconnected := true, networkMaps }
  | .other => throw .other

def pollEvent (readiness : Readiness) (answers : EventAnswers) :
    Connecting ConnectionEventResult := do
  let wanted : Except Thrown Bool :=
    if readiness.readable then .ok true
    else if readiness.writable then writeInterest answers.readNeedsWrite answers.hasPendingOutput
    else .ok false
  let polled : Except Thrown (Option (List NetworkConfig)) := do
    if ← wanted then some <$> answers.pollNetworkMaps else pure none
  match polled with
  | .error thrown => interrupted [] thrown
  | .ok maps => do
    whenever (maps.isSome = true) do
      let time ← now
      modify fun s => { s with lastActivity := time }
    match answers.updateWriteInterest with
    | .error thrown => interrupted (maps.getD []) thrown
    | .ok _ => pure { handled := true, networkMaps := maps.getD [] }

/-- **Something has happened to a session.** -/
def processEvent (token : ℕ) (readiness : Readiness) (answers : EventAnswers) :
    Connecting ConnectionEventResult := do
  let s ← get
  if token ≠ s.options.readinessToken then
    pure {}
  else if s.session = none ∨ readiness.error = true ∨ readiness.closed = true then do
    -- An event of a session that is gone makes the wait longer, too.
    scheduleReconnect
    pure { handled := true, disconnected := true }
  else
    pollEvent readiness answers

def activeSession : Connecting ControlSession := do
  let s ← get
  match s.session with
  | none => throw (.standard "The control connection is unavailable.")
  | some session => pure session

def onSession (answer : Except Thrown Unit) (f : ControlSession → ControlSession) :
    Connecting Unit := do
  let session ← activeSession
  answer
  modify fun s => { s with session := some (f session) }

def registerUntilAuthorized (answer : Except Thrown RegistrationResult) (key : Bytes) :
    Connecting RegistrationResult := do
  let _ ← activeSession
  let result ← answer
  modify fun s => { s with discoPrivateKey := some key }
  match result.network with
  | none => pure result
  | some network => do
    whenever (result.networkMapStreaming = true) do
      modify fun s => { s with preferredDerp := some network.derpRegion }
    pure result

def setDiscoPrivateKey (key : Bytes) (answer : Except Thrown Unit) : Connecting Unit := do
  modify fun s => { s with discoPrivateKey := some key }
  onSession answer fun session => { session with discoPrivateKey := some key }

def setPreferredDerp (region : ℤ) (answer : Except Thrown Unit) : Connecting Unit := do
  modify fun s => { s with preferredDerp := some region }
  onSession answer fun session => { session with preferredDerp := some region }

def setEndpoints (endpoints : List MapEndpoint) (answer : Except Thrown Unit) :
    Connecting Unit := do
  modify fun s => { s with endpoints := some endpoints }
  let s ← get
  whenever (s.session.isSome = true)
    (onSession answer fun session => { session with endpoints := some endpoints })

def startStreaming (answer : Except Thrown Unit) : Connecting Unit := do
  modify fun s => { s with streaming := true }
  onSession answer fun session => { session with nonBlocking := true }

def connected (options : ControlSessionOptions) (time : ℕ) : ConnectionImpl where
  options
  session := some { origin := ⟨none, 0, 0⟩, options }
  lastActivity := time
  nextReconnect := timePointMax
  reconnectDelay := initialReconnectDelay
  scheduledAt := time
  time

inductive Event
  | processEvent (token : ℕ) (readiness : Readiness) (answers : EventAnswers)
  | maintain (answers : MaintainAnswers)
  | changeNetwork (networkInterface : Option String)
  | requestReconnect
  | complete (number : ℕ) (answers : WorkerAnswers)
  | registerUntilAuthorized (answer : Except Thrown RegistrationResult) (key : Bytes)
  | setDiscoPrivateKey (key : Bytes) (answer : Except Thrown Unit)
  | setPreferredDerp (region : ℤ) (answer : Except Thrown Unit)
  | setEndpoints (endpoints : List MapEndpoint) (answer : Except Thrown Unit)
  | startStreaming (answer : Except Thrown Unit)

/-- What comes of an event; whether the call returns or throws, the connection
stays. -/
def Event.next (event : Event) (s : ConnectionImpl) : ConnectionImpl :=
  match event with
  | processEvent token readiness answers =>
    after (ConnectionImpl.processEvent token readiness answers) s
  | maintain answers => after (ConnectionImpl.maintain answers) s
  | changeNetwork networkInterface => after (ConnectionImpl.changeNetwork networkInterface) s
  | requestReconnect => after ConnectionImpl.requestReconnect s
  | complete number answers => post number answers s
  | registerUntilAuthorized answer key =>
    after (ConnectionImpl.registerUntilAuthorized answer key) s
  | setDiscoPrivateKey key answer => after (ConnectionImpl.setDiscoPrivateKey key answer) s
  | setPreferredDerp region answer => after (ConnectionImpl.setPreferredDerp region answer) s
  | setEndpoints endpoints answer => after (ConnectionImpl.setEndpoints endpoints answer) s
  | startStreaming answer => after (ConnectionImpl.startStreaming answer) s

/-- **All runs of a connection**: an event, with what the clock reads in it. -/
def connections : TransitionSystem ConnectionImpl (Event × List ℕ) where
  init s := ∃ options time, s = connected options time
  step s event s' := s' = event.1.next { s with readings := event.2 }

end ConnectionImpl

end Tailgate
