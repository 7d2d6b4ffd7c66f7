import Tailgate.H2Frames
import Tailgate.Procedures

/-!
# A connection to the control server

One HTTP/2 connection serves all requests of the client and one stream of maps.
`request` waits for the end of its response and `takeNetworkMapUpdate` looks for
maps; they share the transport, the buffer and the decoder of headers.

The decoder and what is done with a map are parameters. `sends` says of each
request, and of the answers to each frame, whether they get through. `Trace`
records what happens; nothing the client does depends on it.
-/

namespace Tailgate

open Procedure H2Codec

/-! ## Errors -/

inductive ControlError
  | closed
  /-- Something could not be sent. -/
  | unsent
  | http (path : String) (status : ℕ) (body : Bytes) (retryAfterSeconds : Option ℕ)
  | unfinished
  | goAway
  | pingSize
  | mapWithoutStatus
  | mapStreamRejected (status : ℕ) (body : Bytes)
  | mapEnded
  | invalidMapResponse
  | emptyDnsTxt
  | map (what : String)

/-! ## The stream of maps -/

/-- The stream of maps, and what is left of its body. -/
structure MapStreamResponse where
  streamId : ℕ := 0
  status : Option ℕ := none
  body : Bytes := []

namespace MapStreamResponse

def mapLengthSize : ℕ := 4

def maximumStreamingMapSize : ℕ := 16 * 1024 * 1024

def start (streamId : ℕ) : MapStreamResponse := { streamId }

def handles (r : MapStreamResponse) (streamId : ℕ) : Bool :=
  r.streamId != 0 && streamId == r.streamId

def finish (r : MapStreamResponse) : ControlError :=
  match r.status with
  | none => .mapWithoutStatus
  | some status => if 300 ≤ status then .mapStreamRejected status r.body else .mapEnded

def mapSize (body : Bytes) : ℕ := BigEndian.value (body.take mapLengthSize).reverse

def takeMap (maximumSize : ℕ) (body : Bytes) :
    Except ControlError (Option (Bytes × Bytes)) :=
  if body.length < mapLengthSize then .ok none
  else if mapSize body = 0 ∨ maximumSize < mapSize body then .error .invalidMapResponse
  else if body.length < mapLengthSize + mapSize body then .ok none
  else .ok (some ((body.drop mapLengthSize).take (mapSize body),
    body.drop (mapLengthSize + mapSize body)))

end MapStreamResponse

/-! ## Connections -/

/-- Who takes frames off the buffer. -/
inductive Reader
  | request (streamId : ℕ)
  | map (streamId : ℕ)
  deriving DecidableEq

/-- **What a reader takes off the buffer at a time**: frames, and of each whether
an answer to it gets through. -/
structure Batch where
  reader : Reader
  answered : List (H2Frame × Bool)

def Batch.frames (b : Batch) : List H2Frame := b.answered.map Prod.fst

/-- **What has happened to a connection.** -/
structure Trace where
  arrived : Bytes := []
  dropped : List Bytes := []
  batches : List Batch := []
  decoded : List Bytes := []
  /-- What has been put behind the body of the stream of maps since it was
  started. -/
  appended : Bytes := []

def Trace.extracted (t : Trace) : List H2Frame := t.batches.flatMap Batch.frames

/-- **A connection**, with its trace. -/
structure ControlConnection (δ γ : Type) where
  incoming : List Bytes := []
  /-- Whether what is sent next gets through, and so on. -/
  sends : List Bool := []
  /-- What has been received and is no complete frame yet. -/
  h2Buffer : Bytes := []
  headerDecoder : δ
  mapResponse : MapStreamResponse := {}
  maps : γ
  nextStreamId : ℕ := 1
  trace : Trace := {}

namespace ControlConnection

variable {δ γ : Type}

abbrev Control (δ γ : Type) := EStateM ControlError (ControlConnection δ γ)

def receive : Control δ γ Bytes := fun c =>
  match c.incoming with
  | [] => .error .closed c
  | plaintext :: incoming =>
    .ok plaintext
      { c with incoming, trace := { c.trace with arrived := c.trace.arrived ++ plaintext } }

def insert (plaintext : Bytes) : Control δ γ Unit :=
  modify fun c => { c with h2Buffer := c.h2Buffer ++ plaintext }

def drop (plaintext : Bytes) : Control δ γ Unit :=
  modify fun c => { c with trace := { c.trace with dropped := c.trace.dropped ++ [plaintext] } }

/-- Take the complete frames off the buffer, and see which answers will get through. -/
def extract (reader : ControlConnection δ γ → Reader) : Control δ γ (List (H2Frame × Bool)) :=
  modifyGet fun c =>
    let (frames, rest) := takeCompleteFrames c.h2Buffer
    let answered := frames.zip (c.sends ++ .replicate frames.length true)
    (answered, { c with
      h2Buffer := rest
      sends := c.sends.drop frames.length
      trace := { c.trace with batches := c.trace.batches ++ [{ reader := reader c, answered }] } })

/-- Send a request. -/
def send : Control δ γ Unit := do
  let c ← get
  modify fun c => { c with sends := c.sends.tail }
  if c.sends.headD true then pure () else throw .unsent

/-- Send an answer to a frame, if there is one. -/
def answer (due sent : Bool) : Control δ γ Unit :=
  if due && !sent then throw .unsent else pure ()

variable (decode : Bytes → δ → Option H2Headers × δ)

def decodeHeaders (payload : Bytes) : Control δ γ (Option H2Headers) :=
  modifyGet fun c =>
    let (headers, headerDecoder) := decode payload c.headerDecoder
    (headers, { c with
      headerDecoder
      trace := { c.trace with decoded := c.trace.decoded ++ [payload] } })

/-! ## Requests -/

structure Response where
  body : Bytes := []
  headers : H2Headers := []
  status : Option ℕ := none

variable (streamId : ℕ) (frame : H2Frame) (path : String) (r : Response)

def Response.receiveHeaders (headers : H2Headers) : Response :=
  { r with
    headers := r.headers ++ headers
    status := (H2Codec.status headers).or r.status }

def requestHeaders : Control δ γ Response :=
  if frame.type = .headers then do
    match ← decodeHeaders decode frame.payload with
    | some headers => pure (if frame.streamId = streamId then r.receiveHeaders headers else r)
    | none => pure r
  else
    pure r

/-- The data of the request's stream is its body, and that of other streams is
passed over. -/
def requestData : Response :=
  if frame.type = .data ∧ frame.streamId = streamId then { r with body := r.body ++ frame.payload }
  else r

def endsResponse : Bool :=
  frame.streamId == streamId && frame.endOrAck

def finishResponse : Control δ γ Bytes :=
  match r.status with
  | none => pure r.body
  | some status =>
    if 300 ≤ status then
      throw (.http path status r.body (controlRetryAfterSeconds r.headers))
    else
      pure r.body

/-- Go through frames up to the end of the response. The response goes on
with what has come so far if that is not among them. -/
def requestFrames (streamId : ℕ) (path : String) :
    List (H2Frame × Bool) → Response → Control δ γ (Response ⊕ Bytes)
  | [], r => pure (.inl r)
  | (frame, sent) :: frames, r => do
    answer (frame.type = .settings && !frame.endOrAck) sent
    let r ← requestHeaders decode streamId frame r
    let r := requestData streamId frame r
    if endsResponse streamId frame then do
      let body ← finishResponse path r
      pure (.inr body)
    else
      requestFrames streamId path frames r

def looksLikeH2 (data : Bytes) : Bool :=
  decide (headerSize ≤ data.length) && decide (declaredLength data ≤ 1024 * 1024) &&
    [0x00, 0x01, 0x04, 0x06, 0x07, 0x08].contains (data.getD 3 0)

def requestAttempt :
    Control δ γ (Response ⊕ Bytes) := do
  let plaintext ← receive
  let c ← get
  if c.h2Buffer = [] ∧ looksLikeH2 plaintext = false then do
    drop plaintext
    pure (.inl r)
  else do
    insert plaintext
    let frames ← extract fun _ => .request streamId
    requestFrames decode streamId path frames r

def requestAttempts (streamId : ℕ) (path : String) : ℕ → Response → Control δ γ Bytes
  | 0, _ => throw .unfinished
  | attempts + 1, r => do
    match ← requestAttempt decode streamId path r with
    | .inl r => requestAttempts streamId path attempts r
    | .inr body => pure body

def maximumControlResponseFrames : ℕ := 80

/-- **Send a request, and wait for its response** if there is one to wait
for. -/
def request (waitForResponse : Bool) : Control δ γ Bytes := do
  send
  if waitForResponse then requestAttempts decode streamId path maximumControlResponseFrames {}
  else pure []

def advanceStream : Control δ γ Unit :=
  modify fun c => { c with nextStreamId := (c.nextStreamId + 2) % 2 ^ 32 }

/-- Request something on the next stream, which is used up only if there is a
response. -/
def requestThenAdvance : Control δ γ Bytes := do
  let c ← get
  let body ← request decode c.nextStreamId path true
  advanceStream
  pure body

def advanceThenRequest : Control δ γ Bytes := do
  let c ← get
  advanceStream
  request decode c.nextStreamId path true

def queryFeature : Control δ γ Bytes := requestThenAdvance decode "/machine/feature/query"

def setDnsTxt (name value : String) : Control δ γ Bytes :=
  if name = "" ∨ value = "" then throw .emptyDnsTxt
  else requestThenAdvance decode "/machine/set-dns"

def updateHostInfo : Control δ γ Bytes := requestThenAdvance decode "/machine/map"

def logout : Control δ γ Bytes := requestThenAdvance decode "/machine/register"

def register : Control δ γ Bytes := advanceThenRequest decode "/machine/register"

def requestNetworkMap : Control δ γ Bytes := advanceThenRequest decode "/machine/map"

/-! ## Maps -/

/-- **Start a stream of maps.** -/
def setPreferredDerp : Control δ γ Unit := do
  let c ← get
  advanceStream
  modify fun c' => { c' with
    mapResponse := .start c.nextStreamId
    trace := { c'.trace with appended := [] } }
  let _ ← request decode c.nextStreamId "/machine/map" false

def mapHeaders : Control δ γ Unit := do
  match ← decodeHeaders decode frame.payload with
  | some headers =>
    modify fun c => { c with mapResponse := { c.mapResponse with status := status headers } }
  | none => pure ()

/-- Data is put behind the body before the window is updated. -/
def mapData (sent : Bool) : Control δ γ Unit := do
  modify fun c => { c with
    mapResponse := { c.mapResponse with body := c.mapResponse.body ++ frame.payload }
    trace := { c.trace with appended := c.trace.appended ++ frame.payload } }
  answer (!frame.payload.isEmpty) sent

def mapContent (sent : Bool) : Control δ γ Unit := do
  let c ← get
  match frame.type with
  | .settings => answer (!frame.endOrAck) sent
  | .ping =>
    if frame.endOrAck = false ∧ frame.payload.length ≠ 8 then throw .pingSize
    else answer (!frame.endOrAck) sent
  | .goAway => throw .goAway
  | .headers => whenever (c.mapResponse.handles frame.streamId = true) (mapHeaders decode frame)
  | .data => whenever (c.mapResponse.handles frame.streamId = true) (mapData frame sent)
  | _ => pure ()

def mapEnd : Control δ γ Unit := do
  let c ← get
  if c.mapResponse.handles frame.streamId = true ∧ frame.endOrAck = true then
    throw c.mapResponse.finish
  else
    pure ()

def mapFrames (frames : List (H2Frame × Bool)) : Control δ γ Unit :=
  frames.forM fun frame => do
    mapContent decode frame.1 frame.2
    mapEnd frame.1

variable (onMap : Bytes → EStateM ControlError (γ × ℕ) Bool)

def takeMap : Control δ γ (Option Bytes) := fun c =>
  match MapStreamResponse.takeMap MapStreamResponse.maximumStreamingMapSize
      c.mapResponse.body with
  | .error e => .error e c
  | .ok none => .ok none c
  | .ok (some (map, rest)) =>
    .ok (some map) { c with mapResponse := { c.mapResponse with body := rest } }

def handleMap (map : Bytes) : Control δ γ Bool :=
  within (fun c => (c.maps, c.nextStreamId))
    (fun result c => { c with maps := result.1, nextStreamId := result.2 }) (onMap map)

def takeMaps : ℕ → Control δ γ Bool
  | 0 => pure false
  | maps + 1 => do
    match ← takeMap with
    | none => pure false
    | some map => do
      if ← handleMap onMap map then pure true else takeMaps maps

/-- **Look for maps in what has arrived**, up to one that changes
something. -/
def takeNetworkMapUpdate : Control δ γ Bool := do
  let frames ← extract fun c => .map c.mapResponse.streamId
  mapFrames decode frames
  let c ← get
  takeMaps onMap (c.mapResponse.body.length + 1)

def receiveAll : Control δ γ Unit :=
  modify fun c => { c with
    incoming := []
    h2Buffer := c.h2Buffer ++ c.incoming.flatten
    trace := { c.trace with arrived := c.trace.arrived ++ c.incoming.flatten } }

/-- **Look for maps without waiting.** -/
def pollNetworkMap : Control δ γ Bool := do
  receiveAll
  takeNetworkMapUpdate decode onMap

def waitTurns : ℕ → Control δ γ Unit
  | 0 => pure ()
  | turns + 1 => do
    if ← takeNetworkMapUpdate decode onMap then
      pure ()
    else do
      let plaintext ← receive
      insert plaintext
      waitTurns turns

/-- **Wait for a map.** There are at most as many turns as there is something
to receive, and one. -/
def waitForNetworkMap : Control δ γ Unit := do
  let c ← get
  waitTurns decode onMap (c.incoming.length + 1)

end ControlConnection

end Tailgate
