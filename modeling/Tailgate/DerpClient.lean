import Tailgate.BufferedWrites
import Tailgate.ChunkedReads
import Tailgate.StreamDecoding
import Tailgate.TaggedFrames

/-!
# Packets from a relay server

`receive` reads exactly the bytes of one frame after the other, and
`receiveAvailableBatch` reads what is there into a buffer and takes complete
frames off it. Both give the same packets for frames that fit the buffer with
their start (`batches_eq_receive`). A longer one fills the buffer before it is
complete, and the next read, of no bytes, is taken for the end of the connection
(`packets_lost`).
-/

namespace Tailgate

open Procedure StreamDecoding List TaggedFrame

inductive DerpError
  | protocolLimit
  | closed
  | closedDuringWrite
  | tooLarge
  | closedEarly
  | wouldBlock

/-- A frame of a relay server. -/
structure DerpFrame where
  type : UInt8
  payload : Bytes

/-- A packet and its sender. -/
structure DerpPacket where
  source : Bytes
  payload : Bytes
  deriving DecidableEq

inductive DerpNotice
  | peerUnavailable (key : Bytes)
  | serverHealth (text : Bytes)

/-- **A client**, with what it buffers. -/
structure DerpClient where
  receiveBuffer : Bytes := []
  sendBuffer : SendBuffer UInt8 := {}

/-- **A client and its connection.** -/
structure DerpSession where
  client : DerpClient := {}
  incoming : Incoming UInt8
  /-- What the connection answers to writes, flush by flush. -/
  writes : List (List ℕ) := []
  written : Bytes := []
  notices : List DerpNotice := []

namespace DerpClient

def receivePacketFrame : UInt8 := 0x05

def peerGoneFrame : UInt8 := 0x08

def pingFrame : UInt8 := 0x12

def pongFrame : UInt8 := 0x13

def healthFrame : UInt8 := 0x14

def maximumFrameSize : ℕ := 2 ^ 20

def lengthWidth : ℕ := 4

def frameHeaderSize : ℕ := headerSize lengthWidth

def keySize : ℕ := 32

def maximumReceiveBatchFrames : ℕ := 256

variable (f : DerpFrame)

def encode : Bytes := TaggedFrame.encode lengthWidth f.type f.payload

def packet? : Option DerpPacket :=
  if f.type = receivePacketFrame ∧ keySize ≤ f.payload.length then
    some ⟨f.payload.take keySize, f.payload.drop keySize⟩
  else none

abbrev Doing (α : Type) := EStateM DerpError DerpSession α

/-! ## Writing -/

def flush : Doing Unit := fun s =>
  let flushed := s.client.sendBuffer.flush (s.writes.headD [])
  let s' := { s with
    client := { s.client with sendBuffer := flushed.left }
    writes := s.writes.tail
    written := s.written ++ flushed.written }
  if flushed.closed then .error .closedDuringWrite s' else .ok () s'

/-- **Write a frame** whose payload is in two parts. -/
def writeFrame (type : UInt8) (payload front : Bytes) : Doing Unit := do
  if maximumFrameSize < front.length ∨ maximumFrameSize - front.length < payload.length then
    throw .tooLarge
  else do
    modify fun s => { s with
      client := { s.client with
        sendBuffer := s.client.sendBuffer.append
          (TaggedFrame.encode lengthWidth type (front ++ payload)) } }
    flush

/-! ## Reading what is there -/

def takeFrame : Doing (Option DerpFrame) := do
  let buffer := (← get).client.receiveBuffer
  if buffer.length < frameHeaderSize then pure none
  else do
    let size := declared lengthWidth buffer
    if maximumFrameSize < size then throw .protocolLimit
    else if buffer.length < frameHeaderSize + size then pure none
    else do
      modify fun s => { s with
        client := { s.client with receiveBuffer := buffer.drop (frameHeaderSize + size) } }
      pure (some ⟨buffer.headD 0, (buffer.take (frameHeaderSize + size)).drop frameHeaderSize⟩)

def handleFrame : Doing (Option DerpPacket) := do
  if f.type = pingFrame then do
    writeFrame pongFrame f.payload []
    pure none
  else if f.type = peerGoneFrame ∧ keySize ≤ f.payload.length then do
    modify fun s => { s with
      notices := s.notices ++ [.peerUnavailable (f.payload.take keySize)] }
    pure none
  else if f.type = healthFrame then do
    modify fun s => { s with notices := s.notices ++ [.serverHealth f.payload] }
    pure none
  else pure (packet? f)

/-- Read as much as the buffer has room for, and whether there was something. -/
def readMore : Doing Bool := fun s =>
  let read := s.incoming.tryReadSome (maximumFrameSize - s.client.receiveBuffer.length)
  match read.1 with
  | none => .ok false { s with incoming := read.2 }
  | some [] => .error .closed { s with incoming := read.2 }
  | some data => .ok true { s with
      client := { s.client with receiveBuffer := s.client.receiveBuffer ++ data }
      incoming := read.2 }

def batchTurns : ℕ → List DerpPacket → Doing (List DerpPacket)
  | 0, packets => pure packets
  | turns + 1, packets => do
    match ← takeFrame with
    | some f => do
      let packet ← handleFrame f
      batchTurns turns (packets ++ packet.toList)
    | none => do
      if ← readMore then batchTurns turns packets else pure packets

/-- What the turns of a batch have found when they end, also if they throw. -/
def foundBy : ℕ → List DerpPacket → DerpSession → List DerpPacket
  | 0, packets, _ => packets
  | turns + 1, packets, s =>
    match takeFrame s with
    | .ok (some f) s =>
      match handleFrame f s with
      | .ok packet s => foundBy turns (packets ++ packet.toList) s
      | .error _ _ => packets
    | .ok none s =>
      match readMore s with
      | .ok true s => foundBy turns packets s
      | _ => packets
    | .error _ _ => packets

/-- **The packets that are there.** -/
def receiveAvailableBatch : Doing (List DerpPacket) := batchTurns maximumReceiveBatchFrames []

/-- Whether a batch would find something without the other side sending more,
given whether the connection has something buffered. -/
def hasBufferedInput (stream : Bool) (c : DerpClient) : Bool :=
  (decide (frameHeaderSize ≤ c.receiveBuffer.length)
    && decide (frameHeaderSize + declared lengthWidth c.receiveBuffer ≤ c.receiveBuffer.length))
  || stream

def batches : ℕ → Doing (List DerpPacket)
  | 0 => pure []
  | calls + 1 => do
    let packets ← receiveAvailableBatch
    let more ← batches calls
    pure (packets ++ more)

/-! ## Waiting -/

def readSome (maximum : ℕ) : Doing Bytes := fun s =>
  let read := s.incoming.tryReadSome maximum
  match read.1 with
  | none => .error .wouldBlock { s with incoming := read.2 }
  | some data => .ok data { s with incoming := read.2 }

/-- Read so many bytes behind those that have been read. Every read gives one
at least, so there are as many turns as bytes. -/
def readExactly (byteCount : ℕ) : ℕ → Bytes → Doing Bytes
  | 0, result => pure result
  | turns + 1, result =>
    if byteCount ≤ result.length then pure result
    else do
      let part ← readSome (byteCount - result.length)
      if part = [] then throw .closedEarly
      else readExactly byteCount turns (result ++ part)

def readExact (byteCount : ℕ) : Doing Bytes := readExactly byteCount byteCount []

/-- **Read a frame.** -/
def readFrame : Doing DerpFrame := do
  let header ← readExact frameHeaderSize
  let size := declared lengthWidth header
  if maximumFrameSize < size then throw .protocolLimit
  else do
    let payload ← readExact size
    pure ⟨header.headD 0, payload⟩

/-- **Wait for a packet**, for so many frames. Without a packet it is still
waited for. -/
def receive : ℕ → Doing (Option DerpPacket)
  | 0 => pure none
  | turns + 1 => do
    let f ← readFrame
    match packet? f with
    | some packet => pure (some packet)
    | none =>
      if f.type = pingFrame then do
        writeFrame pongFrame f.payload []
        receive turns
      else receive turns

def received (turns : ℕ) : ℕ → DerpSession → List DerpPacket
  | 0, _ => []
  | calls + 1, s =>
    match receive turns s with
    | .ok (some packet) s' => packet :: received turns calls s'
    | _ => []

/-! ## Frames -/

def WellFormed : Prop := f.payload.length ≤ maximumFrameSize

def Fits : Prop := frameHeaderSize + f.payload.length ≤ maximumFrameSize

/-- The packets that frames carry. -/
def packets (frames : List DerpFrame) : List DerpPacket := frames.filterMap packet?

theorem packets_cons (f : DerpFrame) (frames : List DerpFrame) :
    packets (f :: frames) = (packet? f).toList ++ packets frames := by
  rw [packets, packets, filterMap_cons]
  cases packet? f <;> rfl

theorem packets_append (done rest : List DerpFrame) :
    packets (done ++ rest) = packets done ++ packets rest :=
  filterMap_append

section Frames

variable {f : DerpFrame}

theorem Fits.wellFormed (h : Fits f) : WellFormed f := by
  unfold Fits at h
  unfold WellFormed
  omega

theorem WellFormed.lt (h : WellFormed f) : f.payload.length < 256 ^ lengthWidth :=
  Nat.lt_of_le_of_lt h (by decide)

theorem packet?_of_ne (h : f.type ≠ receivePacketFrame) : packet? f = none :=
  if_neg fun hpk => h hpk.1

theorem length_encode (f : DerpFrame) : (encode f).length = frameHeaderSize + f.payload.length :=
  TaggedFrame.length_encode _ _ _

theorem encode_ne_nil (f : DerpFrame) : encode f ≠ [] := TaggedFrame.encode_ne_nil

theorem length_le_flatMap (frames : List DerpFrame) :
    frames.length ≤ (frames.flatMap encode).length := by
  induction frames with
  | nil => simp
  | cons f =>
    have hpos := length_pos_iff.mpr (encode_ne_nil f)
    rw [flatMap_cons, length_append, length_cons]
    omega

end Frames

def Writable (s : DerpSession) : Prop := ∀ answers ∈ s.writes, 0 ∉ answers

section Writing

variable {s : DerpSession} (h : Writable s)

include h

theorem Writable.headD : 0 ∉ s.writes.headD [] := by
  cases hwr : s.writes with
  | nil => simp
  | cons ans => exact h ans (by simp [hwr])

theorem Writable.tail : ∀ answers ∈ s.writes.tail, 0 ∉ answers :=
  fun answers hmem => h answers (mem_of_mem_tail hmem)

/-- **What is there is written** as far as the connection takes it, and what has been read
and what is yet to be read stays the same. -/
theorem flush_ok : ∃ s', flush s = .ok () s' ∧ Writable s'
      ∧ s'.incoming = s.incoming ∧ s'.client.receiveBuffer = s.client.receiveBuffer
      ∧ s'.written ++ s'.client.sendBuffer.remaining
        = s.written ++ s.client.sendBuffer.remaining := by
  have hop : ¬(s.client.sendBuffer.flush (s.writes.headD [])).closed = true := by
    rw [SendBuffer.flush_closed h.headD]
    exact Bool.false_ne_true
  refine ⟨_, if_neg hop, h.tail, rfl, rfl, ?_⟩
  dsimp only
  rw [append_assoc, SendBuffer.flush_written]

/-- **A frame is written** if it is not too large. -/
theorem writeFrame_ok (type : UInt8) (pl front : Bytes)
    (hsz : (front ++ pl).length ≤ maximumFrameSize) :
    ∃ s', writeFrame type pl front s = .ok () s' ∧ Writable s'
      ∧ s'.incoming = s.incoming ∧ s'.client.receiveBuffer = s.client.receiveBuffer
      ∧ s'.written ++ s'.client.sendBuffer.remaining
        = s.written ++ s.client.sendBuffer.remaining ++ encode ⟨type, front ++ pl⟩ := by
  rw [length_append] at hsz
  unfold writeFrame
  rw [if_neg (by omega)]
  obtain ⟨s', hfl, hwr, hin, hbf, hwn⟩ := flush_ok (s := { s with
    client := { s.client with
      sendBuffer := s.client.sendBuffer.append (encode ⟨type, front ++ pl⟩) } }) h
  refine ⟨s', hfl, hwr, hin, hbf, ?_⟩
  rw [hwn, SendBuffer.remaining_append, ← append_assoc]

theorem handleFrame_ok {f : DerpFrame} (hf : WellFormed f) :
    ∃ s', handleFrame f s = .ok (packet? f) s' ∧ Writable s'
      ∧ s'.incoming = s.incoming ∧ s'.client.receiveBuffer = s.client.receiveBuffer := by
  unfold handleFrame
  by_cases hpn : f.type = pingFrame
  · rw [if_pos hpn]
    obtain ⟨s', hwr, hs', hin, hbf, -⟩ := writeFrame_ok h pongFrame f.payload [] hf
    refine ⟨s', ?_, hs', hin, hbf⟩
    rw [bind_ok hwr, packet?_of_ne (by rw [hpn]; decide)]
    rfl
  · rw [if_neg hpn]
    by_cases hgn : f.type = peerGoneFrame ∧ keySize ≤ f.payload.length
    · rw [if_pos hgn]
      rw [packet?_of_ne (by rw [hgn.1]; decide)]
      exact ⟨_, rfl, h, rfl, rfl⟩
    · rw [if_neg hgn]
      by_cases hhl : f.type = healthFrame
      · rw [if_pos hhl]
        rw [packet?_of_ne (by rw [hhl]; decide)]
        exact ⟨_, rfl, h, rfl, rfl⟩
      · rw [if_neg hhl]
        exact ⟨s, rfl, h, rfl, rfl⟩

/-! ### Calls that write -/

omit h

def sendPacketFrame : UInt8 := 0x04

def preferredFrame : UInt8 := 0x07

inductive Output
  | send (destination packet : Bytes)
  | sendPing (payload : Bytes)
  | setPreferred (preferred : Bool)
  | flush

def Output.frame? : Output → Option DerpFrame
  | send destination packet => some ⟨sendPacketFrame, destination ++ packet⟩
  | sendPing payload => some ⟨pingFrame, payload⟩
  | setPreferred preferred => some ⟨preferredFrame, [if preferred then 1 else 0]⟩
  | flush => none

def Output.run : Output → Doing Unit
  | send destination packet => writeFrame sendPacketFrame packet destination
  | sendPing payload => writeFrame pingFrame payload []
  | setPreferred preferred => writeFrame preferredFrame [if preferred then 1 else 0] []
  | flush => DerpClient.flush

/-- Calls one after the other, with the frames of those that do not throw. -/
def outputs : List Output → DerpSession → List DerpFrame × DerpSession
  | [], s => ([], s)
  | call :: calls, s =>
    match call.run s with
    | .ok _ s' => (call.frame?.toList ++ (outputs calls s').1, (outputs calls s').2)
    | .error _ s' => outputs calls s'

theorem writeFrame_tooLarge (type : UInt8) {pl front : Bytes}
    (hsz : maximumFrameSize < (front ++ pl).length) :
    writeFrame type pl front s = .error .tooLarge s := by
  rw [length_append] at hsz
  unfold writeFrame
  rw [if_pos (by omega)]
  rfl

/-- A call that writes a frame, or refuses it. -/
theorem Output.run_frame (call : Output) {f : DerpFrame} (hf : call.frame? = some f) :
    ∃ pl front, f.payload = front ++ pl ∧ call.run = writeFrame f.type pl front := by
  cases call with
  | send dst pkt => cases hf; exact ⟨pkt, dst, rfl, rfl⟩
  | sendPing pl => cases hf; exact ⟨pl, [], rfl, rfl⟩
  | setPreferred => cases hf; exact ⟨_, [], rfl, rfl⟩
  | flush => cases hf

theorem Output.run_cases (h : Writable s) (call : Output) :
    (∃ s', call.run s = .ok () s' ∧ Writable s' ∧ s'.written ++ s'.client.sendBuffer.remaining
        = s.written ++ s.client.sendBuffer.remaining ++ call.frame?.toList.flatMap encode)
    ∨ call.run s = .error .tooLarge s := by
  cases hfr : call.frame? with
  | none =>
    cases call with
    | flush =>
      obtain ⟨s', hrun, hwr, -, -, hwn⟩ := flush_ok h
      exact .inl ⟨s', hrun, hwr, hwn.trans (append_nil _).symm⟩
    | _ => cases hfr
  | some f =>
    obtain ⟨pl, front, hpy, hrun⟩ := call.run_frame hfr
    rw [hrun]
    by_cases hsz : (front ++ pl).length ≤ maximumFrameSize
    · obtain ⟨s', hwt, hwr, -, -, hwn⟩ := writeFrame_ok h f.type _ _ hsz
      refine .inl ⟨s', hwt, hwr, hwn.trans ?_⟩
      rw [← hpy, Option.toList_some, flatMap_singleton]
    · exact .inr (writeFrame_tooLarge f.type (not_le.mp hsz))

/-- **What is written is what was to be written.** As long as the connection is not closed,
what has been written and what waits are the frames of the calls that did not throw, one
after the other, and a frame that is too large changes nothing. -/
theorem outputs_written (h : Writable s) (calls : List Output) :
    (outputs calls s).2.written ++ (outputs calls s).2.client.sendBuffer.remaining
        = s.written ++ s.client.sendBuffer.remaining ++ (outputs calls s).1.flatMap encode
      ∧ ∀ call : Output, ∀ f ∈ call.frame?, maximumFrameSize < f.payload.length →
        call.run (outputs calls s).2 = .error .tooLarge (outputs calls s).2 := by
  refine ⟨?_, fun call f hf hlr => ?_⟩
  · induction calls generalizing s with
    | nil => exact (append_nil _).symm
    | cons call _ ih =>
      rw [outputs]
      rcases call.run_cases h with ⟨_, hrun, hwr, hwn⟩ | hrun
      · rw [hrun]
        dsimp only
        rw [ih hwr, hwn, append_assoc, ← flatMap_append]
      · rw [hrun]
        exact ih h
  · obtain ⟨_, _, hpy, hrun⟩ := call.run_frame hf
    rw [hrun]
    exact writeFrame_tooLarge f.type (hpy ▸ hlr)

theorem outputs_written_blocked : ∃ s : DerpSession, Writable s
    ∧ (outputs [.sendPing [1], .setPreferred true] s).2.written
      ++ (outputs [.sendPing [1], .setPreferred true] s).2.client.sendBuffer.remaining
      = encode ⟨pingFrame, [1]⟩ ++ encode ⟨preferredFrame, [1]⟩ := by
  have h : Writable { incoming := {}, writes := [[2], [3]] } := by
    unfold Writable
    decide
  exact ⟨_, h, (outputs_written h _).1⟩

end Writing

/-! ## What batches do -/

/-- **What is left for a client to take**: what it has read and what it is yet
to read are these frames, all of which fit. -/
structure Awaits (frames : List DerpFrame) (s : DerpSession) : Prop where
  /-- The bytes are those of the frames. -/
  bytes_eq : s.client.receiveBuffer ++ s.incoming.symbols = frames.flatMap encode
  fits : ∀ f ∈ frames, Fits f
  /-- The connection takes what is written. -/
  writable : Writable s

def load (frames : List DerpFrame) (s : DerpSession) : ℕ :=
  s.incoming.pieces.length + s.incoming.symbols.length + frames.length

section Batches

variable {frames : List DerpFrame} {s : DerpSession}

theorem takeFrame_frame {f : DerpFrame} {rest : Bytes} (hf : WellFormed f)
    (hbf : s.client.receiveBuffer = encode f ++ rest) :
    takeFrame s = .ok (some f) { s with client := { s.client with receiveBuffer := rest } }
      ∧ ∀ str, hasBufferedInput str s.client = true := by
  have hln : ¬s.client.receiveBuffer.length < frameHeaderSize + f.payload.length := by
    rw [hbf, length_append, length_encode]
    omega
  have hstart : ¬s.client.receiveBuffer.length < frameHeaderSize := by omega
  have hdc : declared lengthWidth s.client.receiveBuffer = f.payload.length := by
    rw [hbf]
    exact TaggedFrame.declared_encode hf.lt _ rest
  have hhd : s.client.receiveBuffer.headD 0 = f.type := by
    rw [hbf]
    rfl
  have htk : (s.client.receiveBuffer.take (frameHeaderSize + f.payload.length)).drop
      frameHeaderSize = f.payload := by
    rw [hbf]
    exact TaggedFrame.take_encode rest
  have hdr : s.client.receiveBuffer.drop (frameHeaderSize + f.payload.length) = rest := by
    rw [hbf]
    exact TaggedFrame.drop_encode_append rest
  constructor
  · unfold takeFrame
    rw [get_bind]
    simp only [hdc]
    rw [if_neg hstart, if_neg (not_lt.mpr hf), if_neg hln, htk, hdr, hhd]
    rfl
  · intro _
    unfold hasBufferedInput
    rw [hdc, decide_eq_true (not_lt.mp hstart), decide_eq_true (not_lt.mp hln)]
    rfl

theorem takeFrame_empty (h : s.client.receiveBuffer = []) : takeFrame s = .ok none s := by
  unfold takeFrame
  rw [get_bind, h]
  rfl

theorem takeFrame_unfinished {f : DerpFrame} (hf : WellFormed f)
    (hft : s.client.receiveBuffer <+: encode f)
    (hlt : s.client.receiveBuffer.length < (encode f).length) :
    takeFrame s = .ok none s := by
  rw [length_encode] at hlt
  unfold takeFrame
  rw [get_bind]
  by_cases hstart : s.client.receiveBuffer.length < frameHeaderSize
  · rw [if_pos hstart]
    rfl
  · obtain ⟨-, hdc⟩ := TaggedFrame.of_front hf.lt hft (not_lt.mp hstart)
    rw [if_neg hstart, hdc, if_neg (not_lt.mpr hf), if_pos hlt]
    rfl

/-- **Looking for a frame** either takes the first one, or less than it has
been read. -/
theorem Awaits.takeFrame_cases (h : Awaits frames s) :
    (∃ f rest s', frames = f :: rest ∧ takeFrame s = .ok (some f) s' ∧ Awaits rest s'
        ∧ s'.incoming = s.incoming ∧ ∀ str, hasBufferedInput str s.client = true)
      ∨ takeFrame s = .ok none s ∧ s.client.receiveBuffer.length < maximumFrameSize
        ∧ CaughtUp encode frames s.client.receiveBuffer s.incoming.symbols := by
  rcases front_cases h.bytes_eq with ⟨f, frames, _, rfl, hbf, hrs⟩ | hca
  · left
    obtain ⟨htk, hbu⟩ :=
      takeFrame_frame (h.fits f mem_cons_self).wellFormed hbf
    refine ⟨f, frames, _, rfl, htk, ⟨hrs, ?_, h.writable⟩, rfl, hbu⟩
    exact fun g hg => h.fits g (mem_cons_of_mem f hg)
  · right
    cases frames with
    | nil =>
      have hnil : s.client.receiveBuffer = [] := (append_eq_nil_iff.mp hca.split).1
      exact ⟨takeFrame_empty hnil, by rw [hnil]; decide, hca⟩
    | cons f =>
      have hfi := h.fits f mem_cons_self
      have hlt := hca.short f rfl
      have hsp := hca.split
      rcases append_cases hsp with ⟨_, hq, -⟩ | ⟨hft, -⟩
      · rw [hq, length_append] at hlt
        omega
      · refine ⟨takeFrame_unfinished hfi.wellFormed hft hlt, ?_, hca⟩
        rw [length_encode] at hlt
        exact hlt.trans_le hfi

variable {turns : ℕ} {incoming : Incoming UInt8} {found : List DerpPacket}
  {s' : DerpSession}

theorem readMore_data {data : Bytes} (hne : data ≠ [])
    (hrd : s.incoming.tryReadSome (maximumFrameSize - s.client.receiveBuffer.length)
      = (some data, incoming)) :
    readMore s = .ok true { s with
      client := { s.client with receiveBuffer := s.client.receiveBuffer ++ data }
      incoming } := by
  unfold readMore
  rw [hrd]
  cases data with
  | nil => exact absurd rfl hne
  | cons => rfl

theorem readMore_closed (hrd : s.incoming.tryReadSome
      (maximumFrameSize - s.client.receiveBuffer.length) = (some [], incoming)) :
    readMore s = .error .closed { s with incoming } := by
  unfold readMore
  rw [hrd]

/-- **Reading** with room in the buffer: something is read, or there is nothing
for now, and either way there is less to do unless everything has been read; or
the connection has been closed. -/
theorem Awaits.readMore (h : Awaits frames s)
    (hrm : s.client.receiveBuffer.length < maximumFrameSize) :
    (∃ more s', DerpClient.readMore s = .ok more s' ∧ Awaits frames s'
        ∧ s'.incoming.ended = s.incoming.ended
        ∧ (load frames s' < load frames s ∨ more = false ∧ s' = s ∧ s.incoming.pieces = []))
      ∨ DerpClient.readMore s = .error .closed s ∧ s.incoming.ended = true
        ∧ s.incoming.pieces = [] := by
  have hre := Incoming.reads_tryReadSome (Nat.sub_pos_of_lt hrm) s.incoming
  cases hrd : s.incoming.tryReadSome (maximumFrameSize - s.client.receiveBuffer.length) with
  | mk data incoming =>
  rw [hrd] at hre
  cases hre with
  | blocked hsy hed hls =>
    refine .inl ⟨false, { s with incoming }, ?_, ⟨?_, h.fits, h.writable⟩, hed, ?_⟩
    · unfold DerpClient.readMore
      rw [hrd]
    · rw [hsy]
      exact h.bytes_eq
    · rcases hls with hls | ⟨heq, hnil⟩
      · left
        unfold load
        rw [hsy]
        exact Nat.add_lt_add_right (Nat.add_lt_add_right hls _) _
      · right
        subst heq
        exact ⟨rfl, rfl, hnil⟩
  | closed hed hnil => exact .inr ⟨readMore_closed hrd, hed, hnil⟩
  | data hne hle hsy hed hpc =>
    rename_i data
    have hsy : s.incoming.symbols = data ++ incoming.symbols := hsy
    have hpc : incoming.pieces.length ≤ s.incoming.pieces.length := hpc
    refine .inl ⟨true, _, readMore_data hne hrd, ⟨?_, h.fits, h.writable⟩, hed, .inl ?_⟩
    · rw [append_assoc, ← hsy]
      exact h.bytes_eq
    · have hpos := length_pos_iff.mpr hne
      unfold load
      rw [hsy, length_append]
      dsimp only
      omega

theorem batchTurns_frame {f : DerpFrame}
    {pkt : Option DerpPacket} {s'' : DerpSession} (htk : takeFrame s = .ok (some f) s')
    (hhn : handleFrame f s' = .ok pkt s'') :
    batchTurns (turns + 1) found s = batchTurns turns (found ++ pkt.toList) s''
      ∧ foundBy (turns + 1) found s = foundBy turns (found ++ pkt.toList) s'' :=
  ⟨(bind_ok htk).trans (bind_ok hhn), by simp only [foundBy, htk, hhn]⟩

theorem batchTurns_read {more : Bool}
    (htk : takeFrame s = .ok none s) (hrd : readMore s = .ok more s') :
    batchTurns (turns + 1) found s = (if more then batchTurns turns found else pure found) s' :=
  (bind_ok htk).trans (bind_ok hrd)

theorem batchTurns_closed (htk : takeFrame s = .ok none s) (hrd : readMore s = .error .closed s') :
    batchTurns (turns + 1) found s = .error .closed s' :=
  (bind_ok htk).trans (bind_error hrd)

/-- **The turns of a batch** give the packets of the frames they take, and
there is less to do unless there is nothing left; or they meet the close and have
found all packets. -/
theorem Awaits.batchTurns (h : Awaits frames s) (turns : ℕ) (found : List DerpPacket) :
    (∃ done rest s', frames = done ++ rest
      ∧ DerpClient.batchTurns turns found s = .ok (found ++ packets done) s' ∧ Awaits rest s'
      ∧ s'.incoming.ended = s.incoming.ended ∧ load rest s' ≤ load frames s
      ∧ (0 < turns → rest = [] ∨ load rest s' < load frames s))
    ∨ (∃ s', DerpClient.batchTurns turns found s = .error .closed s')
      ∧ s.incoming.ended = true ∧ foundBy turns found s = found ++ packets frames := by
  induction turns generalizing frames s found with
  | zero =>
    refine .inl ⟨[], frames, s, rfl, ?_, h, rfl, le_rfl, fun hpos => absurd hpos (lt_irrefl 0)⟩
    show EStateM.Result.ok found s = .ok (found ++ []) s
    rw [append_nil]
  | succ turns ih =>
    rcases h.takeFrame_cases with
      ⟨f, rest, s₁, rfl, htk, h₁, hin, -⟩ | ⟨htk, hrm, hca⟩
    · obtain ⟨s₂, hhn, hwr, hin₂, hbf₂⟩ :=
        handleFrame_ok h₁.writable (h.fits f mem_cons_self).wellFormed
      have h₂ : Awaits rest s₂ :=
        ⟨by rw [hbf₂, hin₂]; exact h₁.bytes_eq, h₁.fits, hwr⟩
      obtain ⟨hbt, hfb⟩ : DerpClient.batchTurns (turns + 1) found s = _ ∧
          foundBy (turns + 1) found s = _ := batchTurns_frame htk hhn
      have hed : s₂.incoming.ended = s.incoming.ended := by rw [hin₂, hin]
      rw [hbt, hfb, packets_cons, ← append_assoc]
      rcases ih h₂ (found ++ (packet? f).toList) with
        ⟨done, rest', s', hrs, hrun, h', hed', _, -⟩ | ⟨hcl, hed', hfn⟩
      · have hld : load rest s₂ < load (f :: rest) s := by
          unfold load
          rw [hin₂, hin, length_cons]
          omega
        refine .inl ⟨f :: done, rest', s', by rw [hrs, cons_append], ?_, h', hed'.trans hed,
          by omega, fun _ => .inr (by omega)⟩
        rw [hrun, packets_cons, append_assoc]
      · exact .inr ⟨hcl, hed ▸ hed', hfn⟩
    · rcases h.readMore hrm with ⟨more, s₁, hrd, h₁, hed, hls⟩ | ⟨hrd, hed, hnil⟩
      case inr =>
        rw [Incoming.symbols_nil hnil] at hca
        obtain rfl := hca.eq_nil
        refine .inr ⟨⟨s, batchTurns_closed htk hrd⟩, hed, ?_⟩
        simp only [foundBy, htk, hrd]
        exact (append_nil found).symm
      rw [batchTurns_read htk hrd]
      cases more with
      | true =>
        have hfb : foundBy (turns + 1) found s = foundBy turns found s₁ := by
          simp only [foundBy, htk, hrd]
        rcases ih h₁ found with
          ⟨done, rest, s', hrs, hrun, h', hed', _, -⟩ | ⟨hcl, hed', hfn⟩
        · have hld : load frames s₁ < load frames s :=
            hls.resolve_right fun hsp => nomatch hsp.1
          exact .inl ⟨done, rest, s', hrs, hrun, h', hed'.trans hed, by omega,
            fun _ => .inr (by omega)⟩
        · exact .inr ⟨hcl, hed ▸ hed', hfb.trans hfn⟩
      | false =>
        refine .inl ⟨[], frames, s₁, rfl, ?_, h₁, hed, ?_, fun _ => ?_⟩
        · show EStateM.Result.ok found s₁ = .ok (found ++ []) s₁
          rw [append_nil]
        · rcases hls with hls | ⟨-, rfl, -⟩
          · exact hls.le
          · exact le_rfl
        · rcases hls with hls | ⟨-, -, hnil⟩
          · exact .inr hls
          · rw [Incoming.symbols_nil hnil] at hca
            exact .inl hca.eq_nil

/-- No call that has found packets meets the close. -/
def ClosesEmpty (s : DerpSession) : Prop :=
  ∀ calls found s₁ s₂, batches calls s = .ok found s₁ →
    receiveAvailableBatch s₁ = .error .closed s₂ →
      foundBy maximumReceiveBatchFrames [] s₁ = []

theorem batches_succ {packets more : List DerpPacket} {calls : ℕ} {s₁ s₂ : DerpSession}
    (h : receiveAvailableBatch s = .ok packets s₁) (hmr : batches calls s₁ = .ok more s₂) :
    batches (calls + 1) s = .ok (packets ++ more) s₂ := by
  unfold batches
  rw [bind_ok h, bind_ok hmr]
  rfl

/-- **One batch after the other**: once there have been as many as there was to
do, nothing is left; or one meets the close, and everything has been returned. -/
theorem Awaits.batches (h : Awaits frames s)
    (hcl : s.incoming.ended = true → ClosesEmpty s) (cs : ℕ) :
    (∃ done rest s', frames = done ++ rest
      ∧ DerpClient.batches cs s = .ok (packets done) s' ∧ Awaits rest s'
      ∧ (load frames s ≤ cs → rest = []))
    ∨ s.incoming.ended = true ∧ ∃ calls < cs, ∃ s₁ s₂,
      DerpClient.batches calls s = .ok (packets frames) s₁
        ∧ receiveAvailableBatch s₁ = .error .closed s₂ := by
  induction cs generalizing frames s with
  | zero =>
    refine .inl ⟨[], frames, s, rfl, rfl, h, fun hld => ?_⟩
    unfold load at hld
    exact length_eq_zero_iff.mp (by omega)
  | succ _ ih =>
    rcases h.batchTurns maximumReceiveBatchFrames [] with
      ⟨done, rest, s₁, hfr, hbatch, h₁, hed, -, hls⟩ | ⟨⟨s₂, hbatch⟩, hed, hfn⟩
    case inr =>
      have hnone : packets frames = [] := hfn.symm.trans (hcl hed 0 [] s s₂ rfl hbatch)
      exact .inr ⟨hed, 0, Nat.succ_pos _, s, s₂, hnone ▸ rfl, hbatch⟩
    have hcl₁ : s₁.incoming.ended = true → ClosesEmpty s₁ := fun hed₁ calls _ _ _ hmr =>
      hcl (hed ▸ hed₁) (calls + 1) _ _ _ (batches_succ hbatch hmr)
    rcases ih h₁ hcl₁ with
      ⟨done', rest', s', hrs, hmr, h', hnil⟩ | ⟨hed₁, calls, hlt, s', s'', hmr, hclose⟩
    · refine .inl ⟨done ++ done', rest', s', by rw [hfr, hrs, append_assoc], ?_, h', ?_⟩
      · rw [batches_succ hbatch hmr, packets_append]
        rfl
      · intro _
        rcases hls (by decide) with hem | hls
        · rw [hem] at hrs
          exact (append_eq_nil_iff.mp hrs.symm).2
        · exact hnil (by omega)
    · refine .inr ⟨hed ▸ hed₁, calls + 1, by omega, s', s'', ?_, hclose⟩
      rw [batches_succ hbatch hmr, hfr, packets_append]
      rfl

/-- If a batch would find nothing, the next frame has not been read in full. -/
theorem Awaits.caughtUp (h : Awaits frames s) {str : Bool}
    (hbf : hasBufferedInput str s.client = false) :
    CaughtUp encode frames s.client.receiveBuffer s.incoming.symbols := by
  rcases h.takeFrame_cases with ⟨_, _, _, -, -, -, -, htr⟩ | ⟨-, -, hca⟩
  · rw [htr str] at hbf
    cases hbf
  · exact hca

end Batches

/-! ## What waiting does -/

/-- **What is left for a client that waits.** -/
structure Follows (frames : List DerpFrame) (s : DerpSession) : Prop where
  /-- The bytes are those of the frames. -/
  bytes_eq : s.incoming.symbols = frames.flatMap encode
  /-- The protocol allows the frames. -/
  wellFormed : ∀ f ∈ frames, WellFormed f
  /-- The connection is read when there is something to read. -/
  closing : s.incoming.Closing
  /-- The connection takes what is written. -/
  writable : Writable s

section Waiting

variable {frames : List DerpFrame} {s : DerpSession}

theorem readSome_ok (h : s.incoming.Closing) {maximum : ℕ} (hpos : 0 < maximum) :
    ∃ data incoming, readSome maximum s = .ok data { s with incoming } ∧ incoming.Closing
      ∧ s.incoming.symbols = data ++ incoming.symbols ∧ data.length ≤ maximum
      ∧ (data = [] → s.incoming.symbols = []) := by
  obtain ⟨data, incoming, hrd, hin⟩ := h.tryReadSome hpos
  refine ⟨data, incoming, ?_, hin⟩
  unfold readSome
  rw [hrd]

variable {turns : ℕ} {rest : Bytes} {byteCount : ℕ} {todo : Bytes} {s' : DerpSession}

theorem readExactly_ok (res : Bytes)
    (h : s.incoming.Closing) (hby : s.incoming.symbols = todo ++ rest)
    (hct : byteCount = res.length + todo.length) (htu : todo.length ≤ turns) :
    ∃ incoming, readExactly byteCount turns res s = .ok (res ++ todo) { s with incoming }
      ∧ incoming.Closing ∧ incoming.symbols = rest := by
  induction turns generalizing s res todo with
  | zero =>
    have hnil : todo = [] := length_eq_zero_iff.mp (Nat.le_zero.mp htu)
    subst hnil
    refine ⟨s.incoming, ?_, h, hby⟩
    rw [append_nil]
    rfl
  | succ _ ih =>
    unfold readExactly
    by_cases hdn : byteCount ≤ res.length
    · have hnil : todo = [] := length_eq_zero_iff.mp (by omega)
      subst hnil
      rw [if_pos hdn]
      refine ⟨s.incoming, ?_, h, hby⟩
      rw [append_nil]
      rfl
    · rw [if_neg hdn]
      obtain ⟨part, incoming, hrd, hcl, hsy, _, hem⟩ :=
        readSome_ok h (by omega : 0 < byteCount - res.length)
      have hpr : part ≠ [] := by
        intro hnil
        rw [hem hnil] at hby
        rw [(append_eq_nil_iff.mp hby.symm).1, length_nil] at hct
        omega
      obtain ⟨todo', rfl⟩ : part <+: todo :=
        prefix_of_prefix_length_le ⟨_, hsy.symm⟩ ⟨_, hby.symm⟩ (by omega)
      have hpos := length_pos_iff.mpr hpr
      rw [length_append] at hct htu
      have hrs : incoming.symbols = todo' ++ rest := by
        rw [hsy, append_assoc] at hby
        exact append_cancel_left hby
      obtain ⟨inc', hrun, hin'⟩ := ih (s := { s with incoming })
        (res ++ part) hcl hrs (by rw [length_append]; omega) (by omega)
      refine ⟨inc', ?_, hin'⟩
      rw [bind_ok hrd, if_neg hpr, hrun, append_assoc]

theorem readExact_ok (h : s.incoming.Closing) (hby : s.incoming.symbols = todo ++ rest)
    (hct : byteCount = todo.length) :
    ∃ incoming, readExact byteCount s = .ok todo { s with incoming } ∧ incoming.Closing
      ∧ incoming.symbols = rest :=
  readExactly_ok [] h hby (by rw [length_nil, Nat.zero_add]; exact hct) hct.ge

/-- **A frame is read** if it is next. -/
theorem readFrame_ok {f : DerpFrame} (h : s.incoming.Closing)
    (hf : WellFormed f) (hby : s.incoming.symbols = encode f ++ rest) :
    ∃ incoming, readFrame s = .ok f { s with incoming } ∧ incoming.Closing
      ∧ incoming.symbols = rest := by
  set header := f.type :: BigEndian.bytes lengthWidth f.payload.length with hhd
  have hlen : header.length = frameHeaderSize := by
    rw [hhd, length_cons, BigEndian.length_bytes]
    decide
  have hsp : encode f = header ++ f.payload := rfl
  rw [hsp, append_assoc] at hby
  obtain ⟨incoming, hrd, hcl, hsy⟩ := readExact_ok h hby hlen.symm
  obtain ⟨inc', hrd', hin'⟩ := readExact_ok (s := { s with incoming }) hcl hsy rfl
  have hdc := (TaggedFrame.of_front hf.lt ⟨f.payload, hsp.symm⟩ hlen.ge).2
  refine ⟨inc', ?_, hin'⟩
  unfold readFrame
  rw [bind_ok hrd]
  simp only [hdc]
  rw [if_neg (not_lt.mpr hf), bind_ok hrd']
  rfl

theorem readFrame_end (h : s.incoming.Closing) (hby : s.incoming.symbols = []) :
    ∃ s', readFrame s = .error .closedEarly s' := by
  obtain ⟨data, incoming, hrd, -, hsy, -, -⟩ :=
    readSome_ok h (by decide : 0 < frameHeaderSize)
  have hnil : data = [] := by
    rw [hby] at hsy
    exact (append_eq_nil_iff.mp hsy.symm).1
  subst hnil
  have hex : readExact frameHeaderSize s = .error .closedEarly { s with incoming } :=
    (bind_ok hrd).trans rfl
  exact ⟨_, bind_error hex⟩

theorem receive_packet {f : DerpFrame} {pkt : DerpPacket}
    (hrd : readFrame s = .ok f s') (hpk : packet? f = some pkt) :
    receive (turns + 1) s = .ok (some pkt) s' := by
  unfold receive
  rw [bind_ok hrd]
  simp only [hpk]
  rfl

theorem receive_pass (turns : ℕ) {f : DerpFrame}
    (hrd : readFrame s = .ok f s') (hwr : Writable s') (hf : WellFormed f)
    (hpk : packet? f = none) :
    ∃ s'', receive (turns + 1) s = receive turns s'' ∧ Writable s''
      ∧ s''.incoming = s'.incoming := by
  rw [receive, bind_ok hrd]
  simp only [hpk]
  by_cases hpn : f.type = pingFrame
  · obtain ⟨s'', hwt, hs'', hin, -⟩ := writeFrame_ok hwr pongFrame f.payload [] hf
    refine ⟨s'', ?_, hs'', hin⟩
    rw [if_pos hpn, bind_ok hwt]
  · refine ⟨s', ?_, hwr, rfl⟩
    rw [if_neg hpn]

/-- **Waiting for a packet** gives the first one of the frames, or none if none
of them carries one. -/
theorem Follows.receive_cases (h : Follows frames s) (htu : frames.length ≤ turns) :
    (∃ packet rest s', packets frames = packet :: packets rest ∧ rest.length < frames.length
        ∧ receive turns s = .ok (some packet) s' ∧ Follows rest s')
      ∨ packets frames = [] ∧ ∀ packet s', receive turns s ≠ .ok (some packet) s' := by
  induction turns generalizing frames s with
  | zero =>
    have hnil : frames = [] := length_eq_zero_iff.mp (Nat.le_zero.mp htu)
    subst hnil
    exact .inr ⟨rfl, fun packet s' hrun => nomatch hrun⟩
  | succ turns ih =>
    cases frames with
    | nil =>
      obtain ⟨s', hend⟩ := readFrame_end h.closing h.bytes_eq
      have hrun : receive (turns + 1) s = .error .closedEarly s' := bind_error hend
      right
      refine ⟨rfl, fun packet s'' hok => ?_⟩
      rw [hrun] at hok
      cases hok
    | cons f frames =>
      have hf := h.wellFormed f mem_cons_self
      have hrs : ∀ g ∈ frames, WellFormed g := fun g hg =>
        h.wellFormed g (mem_cons_of_mem f hg)
      obtain ⟨incoming, hrd, hcl, hsy⟩ := readFrame_ok h.closing hf
        (by rw [h.bytes_eq, flatMap_cons])
      cases hpk : packet? f with
      | some packet =>
        refine .inl ⟨packet, frames, _, ?_, Nat.lt_succ_self _, receive_packet hrd hpk,
          hsy, hrs, hcl, h.writable⟩
        rw [packets_cons, hpk]
        rfl
      | none =>
        obtain ⟨s₁, hps, hwr, hin⟩ :=
          receive_pass turns hrd (show Writable { s with incoming } from h.writable) hf hpk
        have h₁ : Follows frames s₁ :=
          ⟨by rw [hin]; exact hsy, hrs, by rw [hin]; exact hcl, hwr⟩
        have hpc : packets (f :: frames) = packets frames := by
          rw [packets_cons, hpk]
          rfl
        rw [hps, hpc]
        rw [length_cons] at htu
        rcases ih h₁ (by omega) with ⟨packet, rest, s', heq, _, hrun⟩ | hno
        · exact .inl ⟨packet, rest, s', heq, by rw [length_cons]; omega, hrun⟩
        · exact .inr hno

/-- **All packets are received**, one call after the other. -/
theorem Follows.received (h : Follows frames s) (turns calls : ℕ) (htu : frames.length ≤ turns)
    (hcl : frames.length ≤ calls) : DerpClient.received turns calls s = packets frames := by
  induction calls generalizing frames s with
  | zero =>
    have hnil : frames = [] := length_eq_zero_iff.mp (Nat.le_zero.mp hcl)
    subst hnil
    rfl
  | succ _ ih =>
    unfold DerpClient.received
    rcases h.receive_cases htu with ⟨packet, _, s', heq, _, hrun, h'⟩ | ⟨hnil, hno⟩
    · rw [hrun, heq, ← ih h' (by omega) (by omega)]
    · rw [hnil]
      cases hrun : receive turns s with
      | error => rfl
      | ok packet s' =>
        cases packet with
        | none => rfl
        | some packet => exact absurd hrun (hno packet s')

end Waiting

/-! ## Both ways -/

/-- **Both ways give the same packets**, if all frames fit the buffer with their
start and no call that has found packets meets the close. Whatever has been cut
where: all batches return, what they have returned is the front of what waiting
returns, it is the packets of all frames that have been read in full if a batch
would find nothing, and after finitely many batches it is everything; or the
connection has been closed, which is only reported once everything has been
returned. -/
theorem batches_eq_receive (frames : List DerpFrame) (hfits : ∀ f ∈ frames, Fits f)
    (incoming blocking : Incoming UInt8) (writes writes' : List (List ℕ))
    (hbytes : incoming.symbols = frames.flatMap encode) 
    (hclose : incoming.ended = true → ClosesEmpty { incoming, writes })
    (hwrites : ∀ answers ∈ writes, 0 ∉ answers)
    (hbytes' : blocking.symbols = frames.flatMap encode) (hclosing : blocking.Closing)
    (hwrites' : ∀ answers ∈ writes', 0 ∉ answers) (turns calls : ℕ)
    (hturns : frames.length ≤ turns) (hcalls : frames.length ≤ calls) (count : ℕ) :
    (∃ found s', batches count { incoming, writes } = .ok found s'
      ∧ found <+: received turns calls { incoming := blocking, writes := writes' }
      ∧ (∀ stream, hasBufferedInput stream s'.client = false → found = packets (whole encode frames
          (incoming.symbols.length - s'.incoming.symbols.length)))
      ∧ (incoming.pieces.length + 2 * incoming.symbols.length ≤ count →
        found = received turns calls { incoming := blocking, writes := writes' }))
    ∨ incoming.ended = true ∧ ∃ earlier < count, ∃ s₁ s₂, batches earlier { incoming, writes }
        = .ok (received turns calls { incoming := blocking, writes := writes' }) s₁
      ∧ receiveAvailableBatch s₁ = .error .closed s₂ := by
  have haw : Awaits frames { incoming, writes } := ⟨hbytes, hfits, hwrites⟩
  have hfl : Follows frames { incoming := blocking, writes := writes' } :=
    ⟨hbytes', fun f hf => (hfits f hf).wellFormed, hclosing, hwrites'⟩
  rw [hfl.received turns calls hturns hcalls]
  rcases haw.batches hclose count with ⟨done, _, s', hfr, hrun, hs', hnil⟩ | hcl
  case inr => exact .inr hcl
  refine .inl ⟨packets done, s', hrun, ?_, ?_, ?_⟩
  · rw [hfr, packets_append]
    exact prefix_append _ _
  · intro _ hbf
    have hca := hs'.caughtUp hbf
    -- what has been read are the frames that are done and the front of the next
    have hrd : incoming.symbols.length - s'.incoming.symbols.length
        = (done.flatMap encode).length + s'.client.receiveBuffer.length := by
      have hlen := congrArg length hca.split
      rw [hbytes, hfr, flatMap_append, length_append]
      rw [length_append] at hlen
      omega
    rw [hrd, hfr, whole_append, whole_eq_nil hca.short, append_nil]
  · intro _
    have hld : load frames { incoming, writes } ≤ count := by
      have hlen := length_le_flatMap frames
      rw [← hbytes] at hlen
      show incoming.pieces.length + incoming.symbols.length + frames.length ≤ count
      omega
    rw [hfr, hnil hld, append_nil]

def emptyPacketFrame : DerpFrame := ⟨receivePacketFrame, replicate 32 0⟩

def inTwoPieces : Incoming UInt8 where
  pieces := [some ((encode emptyPacketFrame).take 3), none, some ((encode emptyPacketFrame).drop 3)]
  nonempty := by decide

theorem batches_eq_receive_in_two_pieces :
    ∃ found s', batches 100 { incoming := inTwoPieces } = .ok found s'
      ∧ found = [⟨replicate 32 0, []⟩] := by
  rcases batches_eq_receive [emptyPacketFrame]
    (by unfold Fits; decide) inTwoPieces (.closing [encode emptyPacketFrame] (by decide)) [] []
    (by decide) nofun (by simp) (by decide) (Incoming.closing_closing _ _) (by simp) 1 1 le_rfl
    le_rfl 100 with ⟨found, s', hrun, -, -, hall⟩ | ⟨hed, -⟩
  · exact ⟨found, s', hrun, (hall (by decide)).trans (by decide)⟩
  · cases hed

/-- **A buffer that is full with less than a frame** is taken for the end of the
connection. -/
theorem batchTurns_full {s : DerpSession} {f : DerpFrame} (hf : WellFormed f)
    (hft : s.client.receiveBuffer <+: encode f)
    (hlt : s.client.receiveBuffer.length < (encode f).length)
    (hfl : s.client.receiveBuffer.length = maximumFrameSize) (hry : s.incoming.ready = true)
    (turns : ℕ) (found : List DerpPacket) :
    batchTurns (turns + 1) found s = .error .closed s :=
  batchTurns_closed (takeFrame_unfinished hf hft hlt)
    (readMore_closed (by rw [hfl, Nat.sub_self]; exact Incoming.tryReadSome_zero hry))

/-- The first turn of a batch reads the first piece, if it fits the buffer. -/
theorem receiveAvailableBatch_piece {piece : Bytes} {incoming rest : Incoming UInt8}
    (hne : piece ≠ []) (hrd : incoming.tryReadSome maximumFrameSize = (some piece, rest)) :
    receiveAvailableBatch { incoming }
      = batchTurns (maximumReceiveBatchFrames - 1) []
        { client := { receiveBuffer := piece }, incoming := rest } :=
  batchTurns_read (s := { incoming }) rfl (readMore_data hne hrd)

/-- **A frame behind which the server closes**: the batch that takes it throws,
whatever the frame carries. -/
theorem receiveAvailableBatch_closing {f : DerpFrame} (hf : Fits f)
    (hcs : ∀ chunk ∈ [encode f], chunk ≠ []) :
    ∃ s', receiveAvailableBatch { incoming := .closing [encode f] hcs }
      = .error .closed s' := by
  have hfi : (encode f).length ≤ maximumFrameSize := by
    rw [length_encode]
    exact hf
  have hrd : (Incoming.closing [encode f] hcs).tryReadSome maximumFrameSize
      = (some (encode f), .closing [] (by simp)) := Incoming.tryReadSome_of_le rfl hfi
  rw [receiveAvailableBatch_piece (encode_ne_nil f) hrd]
  obtain ⟨htk, -⟩ := takeFrame_frame
    (s := { client := { receiveBuffer := encode f }, incoming := .closing [] (by simp) })
    hf.wellFormed (append_nil _).symm
  obtain ⟨s', hhn, -, hin, hbf⟩ := handleFrame_ok (f := f)
    (s := { incoming := .closing [] (by simp) }) nofun hf.wellFormed
  have hcl : readMore s' = .error .closed { s' with incoming := s'.incoming } :=
    readMore_closed (by rw [hin]; rfl)
  refine ⟨s', (batchTurns_frame htk hhn).1.trans ?_⟩
  exact batchTurns_closed (takeFrame_empty hbf) hcl

def longestFrame : DerpFrame := ⟨receivePacketFrame, replicate maximumFrameSize 0⟩

theorem payload_longestFrame : longestFrame.payload = replicate maximumFrameSize 0 := rfl

theorem length_longestFrame :
    (encode longestFrame).length = frameHeaderSize + maximumFrameSize := by
  rw [length_encode, payload_longestFrame, length_replicate]

def fullThenRest : Incoming UInt8 where
  pieces := [some ((encode longestFrame).take maximumFrameSize),
    some ((encode longestFrame).drop maximumFrameSize)]
  nonempty piece hp := by
    have hlength := length_longestFrame
    have hheader : frameHeaderSize = 5 := rfl
    have hmaximum : maximumFrameSize = 1048576 := rfl
    rintro rfl
    rcases mem_cons.mp hp with heq | hmem
    · have hnil := congrArg length (Option.some.inj heq)
      rw [length_take, length_nil] at hnil
      omega
    · have hnil := congrArg length (Option.some.inj (mem_singleton.mp hmem))
      rw [length_drop, length_nil] at hnil
      omega

theorem receiveAvailableBatch_longestFrame (hf : WellFormed longestFrame) :
    ∃ s', receiveAvailableBatch { incoming := fullThenRest } = .error .closed s' := by
  have hlen := length_longestFrame
  have hhe : frameHeaderSize = 5 := rfl
  set piece := (encode longestFrame).take maximumFrameSize with hpc
  have hfl : piece.length = maximumFrameSize := by
    rw [hpc, length_take]
    omega
  have hne : piece ≠ [] := by
    rintro hnil
    rw [hnil] at hfl
    cases hfl
  have hhd : fullThenRest.pieces = some piece :: fullThenRest.pieces.tail := rfl
  have hrd : fullThenRest.tryReadSome maximumFrameSize
      = (some piece, fullThenRest.skip hhd) := Incoming.tryReadSome_of_le hhd hfl.le
  rw [receiveAvailableBatch_piece hne hrd]
  refine ⟨_, batchTurns_full hf ( take_prefix _ _) ?_ hfl rfl _ _⟩
  show piece.length < _
  omega

/-- **Packets that waiting returns and batches do not**: one in a frame that is
as long as the protocol allows, on a connection that stays open, and one behind
which the server closes the connection. -/
theorem packets_lost : (∃ (f : DerpFrame) (incoming blocking : Incoming UInt8), WellFormed f
        ∧ incoming.symbols = encode f ∧ incoming.ended = false
        ∧ blocking.symbols = encode f ∧ blocking.Closing
        ∧ (received 1 1 { incoming := blocking }).length = 1
        ∧ ∃ s', receiveAvailableBatch { incoming } = .error .closed s')
      ∧ ∃ (f : DerpFrame) (incoming : Incoming UInt8), Fits f
        ∧ incoming.symbols = encode f ∧ incoming.Closing
        ∧ (received 1 1 { incoming }).length = 1
        ∧ ∃ s', receiveAvailableBatch { incoming } = .error .closed s' := by
  -- waiting gives the packet of a single frame
  have hwt : ∀ f : DerpFrame, WellFormed f → f.type = receivePacketFrame →
      keySize ≤ f.payload.length → ∀ hcs,
      (received 1 1 { incoming := .closing [encode f] hcs }).length = 1 := by
    intro f hf hty hkey hcs
    have hfl : Follows [f] { incoming := .closing [encode f] hcs } :=
      ⟨by simp, by simpa using hf, Incoming.closing_closing _ hcs, nofun⟩
    rw [hfl.received 1 1 le_rfl le_rfl, packets, filterMap_cons, packet?, if_pos ⟨hty, hkey⟩]
    rfl
  have hcs : ∀ f : DerpFrame, ∀ chunk ∈ [encode f], chunk ≠ [] := by
    intro f _ hck
    rw [mem_singleton.mp hck]
    exact encode_ne_nil f
  constructor
  · have hf : WellFormed longestFrame := by
      unfold WellFormed
      rw [payload_longestFrame, length_replicate]
    have hkey : keySize ≤ longestFrame.payload.length := by
      rw [payload_longestFrame, length_replicate]
      decide
    refine ⟨longestFrame, fullThenRest, .closing [encode longestFrame] (hcs _), hf, ?_, rfl,
      by simp, Incoming.closing_closing _ _, hwt _ hf rfl hkey _,
      receiveAvailableBatch_longestFrame hf⟩
    show (encode longestFrame).take maximumFrameSize
      ++ ((encode longestFrame).drop maximumFrameSize ++ []) = _
    rw [append_nil, take_append_drop]
  · have hf : Fits emptyPacketFrame := by
      unfold Fits
      decide
    exact ⟨emptyPacketFrame, .closing [encode emptyPacketFrame] (hcs _), hf, by simp,
      Incoming.closing_closing _ _, hwt _ hf.wellFormed rfl le_rfl _,
      receiveAvailableBatch_closing hf (hcs _)⟩

end DerpClient

end Tailgate
