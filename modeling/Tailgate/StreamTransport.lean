import Tailgate.DecoderReference

/-!
# Stream transports

A `StreamTransport` queues what is to be sent, up to a limit, and writes it as
the socket takes it; what it reads is fed to a decoder. The node waits for the
socket unless `hasBufferedInput` says that there is more to do, so it has to if a
call was ended by its limit. The socket is a list of answers, with the signals it
shows from then on; after the last one it blocks.
-/

namespace Tailgate

open Procedure List PacketEncoder

/-! ## Sockets -/

structure Signals where
  readNeedsWrite : Bool := false
  /-- Whether what is to be written needs a read first. -/
  writeNeedsRead : Bool := false
  /-- Whether something has been read that was not asked for yet. -/
  hasBufferedInput : Bool := false
  deriving DecidableEq

inductive WriteAnswer
  | blocked
  | took (count : ℕ)
  | failed
  deriving DecidableEq

inductive ReadAnswer
  | blocked
  /-- These bytes are there; without any the other side has closed. -/
  | bytes (data : Bytes)
  | failed
  deriving DecidableEq

structure TcpSocket where
  signals : Signals := {}
  writes : List (WriteAnswer × Signals) := []
  reads : List (ReadAnswer × Signals) := []
  written : Bytes := []
  writeInterest : Bool := false

inductive TransportError
  | connectionReset
  | socket
  | protocol (error : ProtocolError)

namespace TcpSocket

def tryWriteSome (data : Bytes) : EStateM TransportError TcpSocket (Option ℕ) := fun s =>
  match s.writes with
  | [] => .ok none s
  | (.blocked, signals) :: writes => .ok none { s with writes, signals }
  | (.failed, signals) :: writes => .error .socket { s with writes, signals }
  | (.took count, signals) :: writes =>
    .ok (some count) { s with
      writes, signals
      written := s.written ++ if count ≤ data.length then data.take count else [] }

/-- Read some bytes. How many are asked for is left to the socket, which may give
any number. -/
def tryReadSome : EStateM TransportError TcpSocket (Option Bytes) := fun s =>
  match s.reads with
  | [] => .ok none s
  | (.blocked, signals) :: reads => .ok none { s with reads, signals }
  | (.failed, signals) :: reads => .error .socket { s with reads, signals }
  | (.bytes data, signals) :: reads => .ok (some data) { s with reads, signals }

end TcpSocket

/-! ## Transports -/

/-- **A stream to a relay.** -/
structure StreamTransport where
  socket : TcpSocket
  decoder : Decoder
  output : List Bytes := []
  queuedBytes : ℕ := 0
  offset : ℕ := 0
  moreFrames : Bool := false
  moreReads : Bool := false
  closed : Bool := false

namespace StreamTransport

def maximumQueuedBytes : ℕ := 4 * 1024 * 1024

def remaining (t : StreamTransport) : Bytes := t.output.flatten.drop t.offset

def onSocket {α : Type} (x : EStateM TransportError TcpSocket α) :
    EStateM TransportError StreamTransport α :=
  within StreamTransport.socket (fun s t => { t with socket := s }) x

def onDecoder {α : Type} (x : EStateM ProtocolError Decoder α) :
    EStateM TransportError StreamTransport α :=
  within StreamTransport.decoder (fun d t => { t with decoder := d }) (rethrow .protocol x)

def updateWriteInterest : EStateM TransportError StreamTransport Unit :=
  modify fun t => { t with socket := { t.socket with
    writeInterest := t.socket.signals.readNeedsWrite
      || (!t.output.isEmpty && !t.socket.signals.writeNeedsRead) } }

/-- **Queue bytes**, unless there is no room: whether they are queued, and the
transport then. -/
def queue (bytes : Bytes) (t : StreamTransport) : Bool × StreamTransport :=
  if bytes.length > maximumQueuedBytes - t.queuedBytes then (false, t)
  else if bytes = [] then (true, t)
  else
    (true, { t with
      queuedBytes := t.queuedBytes + bytes.length
      output := t.output ++ [bytes] })

def advance (written : ℕ) (t : StreamTransport) : StreamTransport :=
  match t.output with
  | [] => t
  | bytes :: output =>
    if t.offset + written = bytes.length then
      { t with output, offset := 0, queuedBytes := t.queuedBytes - written }
    else
      { t with offset := t.offset + written, queuedBytes := t.queuedBytes - written }

def stopWriting : EStateM TransportError StreamTransport Bool := do
  updateWriteInterest
  pure !(← get).output.isEmpty

def writeTurns : ℕ → EStateM TransportError StreamTransport Bool
  | 0 => stopWriting
  | turns + 1 => do
    let t ← get
    match t.output with
    | [] => stopWriting
    | bytes :: _ => do
      match ← onSocket (TcpSocket.tryWriteSome (bytes.drop t.offset)) with
      | none => do
        updateWriteInterest
        pure false
      | some written =>
        if written = 0 ∨ written > bytes.length - t.offset then
          throw .connectionReset
        else do
          modify (advance written)
          writeTurns turns

/-- **Write what is queued**: whether there is more to write without waiting. -/
def flush (maximumWrites : ℕ) : EStateM TransportError StreamTransport Bool := do
  if (← get).socket.signals.readNeedsWrite then do
    updateWriteInterest
    pure false
  else
    writeTurns maximumWrites

/-- The other side has closed: the frames so far are returned, if there are
any. -/
def close (frames : List Frame) : EStateM TransportError StreamTransport (List Frame) := do
  modify fun t => { t with closed := true }
  if frames = [] then
    throw .connectionReset
  else
    pure frames

/-- The loop that reads and decodes, with the frames and the number of reads so
far. Every turn that does not end it takes a frame or makes a read. -/
def receiveTurns (maximumReads maximumFrames : ℕ) :
    ℕ → List Frame → ℕ → EStateM TransportError StreamTransport (List Frame)
  | 0, frames, _ => pure frames
  | turns + 1, frames, reads =>
    if frames.length < maximumFrames then do
      match ← onDecoder Decoder.next with
      | some frame => receiveTurns maximumReads maximumFrames turns (frames ++ [frame]) reads
      | none => do
        let t ← get
        if reads ≥ maximumReads ∨ t.socket.signals.writeNeedsRead = true then
          pure frames
        else do
          match ← onSocket TcpSocket.tryReadSome with
          | none => pure frames
          | some bytes =>
            if bytes = [] then
              close frames
            else do
              onDecoder (Decoder.feed bytes)
              modify fun t => { t with moreReads := decide (reads + 1 = maximumReads) }
              receiveTurns maximumReads maximumFrames turns frames (reads + 1)
    else
      pure frames

/-- **The frames that are there**, with so many reads and so many frames at
most. -/
def receive (maximumReads maximumFrames : ℕ) :
    EStateM TransportError StreamTransport (List Frame) := do
  if (← get).closed then
    throw .connectionReset
  else do
    modify fun t => { t with moreFrames := false, moreReads := false }
    let frames ← receiveTurns maximumReads maximumFrames (maximumFrames + maximumReads) [] 0
    modify fun t => { t with
      moreFrames := decide (maximumFrames ≠ 0 ∧ frames.length = maximumFrames) }
    updateWriteInterest
    pure frames

/-- **Whether there is more to do without waiting for the socket.** -/
def hasBufferedInput (t : StreamTransport) : Bool :=
  t.closed || t.moreFrames
    || (!t.socket.signals.writeNeedsRead && (t.moreReads || t.socket.signals.hasBufferedInput))

/-! ## Nothing is lost -/

/-- **What is written and what is queued are what was accepted.** -/
structure Sound (accepted : Bytes) (t : StreamTransport) : Prop where
  /-- The parts and the offset into them go together. -/
  queued : Queued t.output t.offset
  /-- The bytes to be written are counted. -/
  queuedBytes_eq : t.queuedBytes = t.remaining.length
  queuedBytes_le : t.queuedBytes ≤ maximumQueuedBytes
  /-- Nothing is lost, and nothing is written twice. -/
  written_eq : t.socket.written ++ t.remaining = accepted

section Sound

variable {accepted : Bytes} {t : StreamTransport}

theorem sound_start (signals : Signals) (writes : List (WriteAnswer × Signals))
    (reads : List (ReadAnswer × Signals)) (decoder : Decoder) :
    Sound [] { socket := { signals, writes, reads }, decoder } where
  queued := ⟨by simp, by simp, fun _ => rfl⟩
  queuedBytes_eq := rfl
  queuedBytes_le := Nat.zero_le _
  written_eq := rfl

theorem Sound.of_eq (h : Sound accepted t) {t' : StreamTransport}
    (hwr : t'.socket.written = t.socket.written := by rfl) (hot : t'.output = t.output := by rfl)
    (hoffset : t'.offset = t.offset := by rfl) (hby : t'.queuedBytes = t.queuedBytes := by rfl) :
    Sound accepted t' := by
  have hrm : t'.remaining = t.remaining := by
    unfold remaining
    rw [hot, hoffset]
  refine ⟨?_, ?_, ?_, ?_⟩
  · rw [hot, hoffset]
    exact h.queued
  · rw [hby, hrm]
    exact h.queuedBytes_eq
  · rw [hby]
    exact h.queuedBytes_le
  · rw [hwr, hrm]
    exact h.written_eq

theorem Sound.queue (h : Sound accepted t) (bytes : Bytes) :
    Sound (if (t.queue bytes).1 then accepted ++ bytes else accepted) (t.queue bytes).2 := by
  unfold StreamTransport.queue
  by_cases hrm : bytes.length > maximumQueuedBytes - t.queuedBytes
  · rw [if_pos hrm]
    exact h
  · rw [if_neg hrm]
    by_cases hby : bytes = []
    · rw [if_pos hby, hby, append_nil, if_pos rfl]
      exact h
    · rw [if_neg hby, if_pos rfl]
      have hre : (t.output ++ [bytes]).flatten.drop t.offset = t.remaining ++ bytes :=
        drop_flatten_append h.queued
      refine ⟨queued_append h.queued hby, ?_, ?_, ?_⟩
      · show t.queuedBytes + bytes.length = ((t.output ++ [bytes]).flatten.drop t.offset).length
        rw [hre, length_append, h.queuedBytes_eq]
      · have hle := h.queuedBytes_le
        show t.queuedBytes + bytes.length ≤ maximumQueuedBytes
        omega
      · show t.socket.written ++ (t.output ++ [bytes]).flatten.drop t.offset = _
        rw [hre, ← append_assoc, h.written_eq]

variable {bytes : Bytes} {rest : List Bytes} {written : ℕ}

theorem consume_eq_advance (hot : t.output = bytes :: rest) (hpos : written ≠ 0)
    (hle : written ≤ bytes.length - t.offset) :
    consume t.output t.offset written
      = ((t.advance written).output, (t.advance written).offset) := by
  unfold advance
  rw [hot, consume, if_neg hpos, min_eq_left hle]
  dsimp only
  rw [Nat.sub_self]
  split
  · cases rest with
    | nil | cons => rfl
  · rfl

theorem socket_advance (written : ℕ) (t : StreamTransport) :
    (t.advance written).socket = t.socket := by
  unfold advance
  split
  · rfl
  · split
    · rfl
    · rfl

theorem queuedBytes_advance (hot : t.output = bytes :: rest) (written : ℕ) :
    (t.advance written).queuedBytes = t.queuedBytes - written := by
  unfold advance
  rw [hot]
  dsimp only
  split
  · rfl
  · rfl

/-- **A write that is counted**: what the socket has taken is no longer queued. -/
theorem Sound.advance (h : Sound accepted t) (hot : t.output = bytes :: rest) (hpos : written ≠ 0)
    (hle : written ≤ bytes.length - t.offset) {socket : TcpSocket}
    (hsc : socket.written = t.socket.written ++ (bytes.drop t.offset).take written) :
    Sound accepted (.advance written { t with socket }) := by
  obtain ⟨hqd, hrm⟩ := consume_spec (n := written) h.queued
  rw [show consume t.output t.offset written = _ from
    consume_eq_advance (t := { t with socket }) hot hpos hle] at hqd hrm
  have hdr : (StreamTransport.advance written { t with socket }).remaining
      = t.remaining.drop written := hrm
  have htk : (bytes.drop t.offset).take written = t.remaining.take written := by
    have hlt := h.queued.front bytes (by rw [hot]; rfl)
    unfold remaining
    rw [hot, drop_flatten_cons hlt.le, take_append_of_le_length]
    rwa [length_drop]
  have hct := h.queuedBytes_eq
  have hlm := h.queuedBytes_le
  have hby := queuedBytes_advance (t := { t with socket }) hot written
  refine ⟨hqd, ?_, ?_, ?_⟩
  · rw [hby, hdr, length_drop, ← hct]
  · rw [hby]
    show t.queuedBytes - written ≤ _
    omega
  · rw [socket_advance, hsc, append_assoc, hdr, htk, take_append_drop]
    exact h.written_eq

theorem keeps_updateWriteInterest : Preserves (Sound accepted) updateWriteInterest :=
  .modify fun _ h => h.of_eq

theorem keeps_stopWriting : Preserves (Sound accepted) stopWriting :=
  keeps_updateWriteInterest.bind fun _ => Keeps.get.bind fun _ => Keeps.pure _

/-- **The writes keep what was accepted.** -/
theorem keeps_writeTurns (ts : ℕ) : Preserves (Sound accepted) (writeTurns ts) := by
  induction ts with
  | zero => exact keeps_stopWriting
  | succ _ ih =>
    refine .look fun t ht => ?_
    cases hot : t.output with
    | nil =>
      refine keeps_stopWriting.pre fun s hs => ?_
      rw [hs]
      exact ht
    | cons bytes =>
      -- what the socket has taken is counted, unless it cannot be true
      refine .bind (Q := fun r s => match r with
        | none => Sound accepted s
        | some written => if written = 0 ∨ written > bytes.length - t.offset then Sound accepted s
            else Sound accepted (s.advance written)) (.within ?_) fun r => ?_
      · rintro s rfl
        unfold TcpSocket.tryWriteSome
        cases hwr : s.socket.writes with
        | nil => exact ht
        | cons ans =>
          obtain ⟨ans, _⟩ := ans
          cases ans with
          | blocked | failed => exact ht.of_eq
          | took count =>
            dsimp only
            by_cases hct : count = 0 ∨ count > bytes.length - s.offset
            · rw [if_pos hct]
              refine ht.of_eq ?_
              rcases hct with hzero | hmr
              · rw [hzero, take_zero, ite_self, append_nil]
              · rw [length_drop, if_neg (by omega), append_nil]
            · rw [if_neg hct]
              refine ht.advance hot (by omega) (by omega) ?_
              rw [length_drop, if_pos (by omega)]
      · cases r with
        | none => exact .bind keeps_updateWriteInterest fun _ => .pure fun _ h => h
        | some =>
          refine .ite (fun hct => .throw fun s hs => ?_) fun hct => ?_
          · dsimp only at hs
            rwa [if_pos hct] at hs
          · refine .bind (.modify (Q := fun _ => Sound accepted) fun s hs => ?_) fun _ => ih
            dsimp only at hs
            rwa [if_neg hct] at hs

theorem keeps_flush (maximumWrites : ℕ) : Preserves (Sound accepted) (flush maximumWrites) :=
  .read fun _ _ => .ite (fun _ => keeps_updateWriteInterest.bind fun _ => .pure _)
    fun _ => keeps_writeTurns maximumWrites

theorem keeps_onDecoder {α : Type} (x : EStateM ProtocolError Decoder α) :
    Preserves (Sound accepted) (onDecoder x) :=
  .frame _ (fun _ _ h => h.of_eq) fun _ _ h => h

theorem keeps_tryReadSome : Preserves (Sound accepted) (onSocket TcpSocket.tryReadSome) := by
  refine Meets.within fun t ht => ?_
  unfold TcpSocket.tryReadSome
  cases t.socket.reads with
  | nil => exact ht
  | cons ans =>
    obtain ⟨ans, _⟩ := ans
    cases ans with
    | blocked | failed | bytes => exact ht.of_eq

theorem keeps_receiveTurns (maximumReads maximumFrames ts : ℕ) (frames : List Frame)
    (reads : ℕ) : Preserves (Sound accepted)
      (receiveTurns maximumReads maximumFrames ts frames reads) := by
  induction ts generalizing frames reads with
  | zero => exact .pure _
  | succ _ ih =>
    refine .ite ((keeps_onDecoder _).bind fun fr => ?_) (.pure _)
    cases fr with
    | some => exact ih _ _
    | none =>
      refine Keeps.get.bind fun t => Keeps.ite (Keeps.pure _) (keeps_tryReadSome.bind fun r => ?_)
      cases r with
      | none => exact .pure _
      | some =>
        refine .ite ?_ ?_
        · exact .bind (.modify (Q := fun _ => Sound accepted)
            fun _ h => h.of_eq) fun _ =>
              Meets.ite (fun _ => Meets.throw fun _ h => h) fun _ => Keeps.pure _
        · exact (keeps_onDecoder _).bind fun _ => .bind (.modify
            (Q := fun _ => Sound accepted) fun _ h => h.of_eq) fun _ => ih _ _

theorem keeps_receive (maximumReads maximumFrames : ℕ) :
    Preserves (Sound accepted) (receive maximumReads maximumFrames) := by
  refine .read fun _ _ => .ite (fun _ => .throw fun _ h => h) fun _ => ?_
  refine .bind (.modify (Q := fun _ => Sound accepted)
    fun _ h => h.of_eq) fun _ => ?_
  refine (keeps_receiveTurns _ _ _ _ _).bind fun _ => ?_
  exact .bind (.modify (Q := fun _ => Sound accepted)
    fun _ h => h.of_eq) fun _ => keeps_updateWriteInterest.bind fun _ =>
      .pure _

end Sound

/-! ## No event is missed -/

/-- **The reads of a call were used up by one that succeeded**: so many answers
were taken, and the last one were bytes. -/
def UsedUp (maximumReads : ℕ) (before after : List (ReadAnswer × Signals)) : Prop :=
  ∃ answers data signals, answers.length + 1 = maximumReads
    ∧ before = answers ++ (.bytes data, signals) :: after

structure Reading (maximumReads : ℕ) (before : List (ReadAnswer × Signals)) (reads : ℕ)
    (t : StreamTransport) : Prop where
  taken : ∃ answers, before = answers ++ t.socket.reads ∧ answers.length = reads
  /-- The last read may have been the last one. -/
  moreReads_eq : reads ≠ 0 → t.moreReads = decide (reads = maximumReads)

/-- **What the loop leaves**: the limit of frames was reached, the other side has
closed, or no frame is left and the last read says whether there may be more to
read. -/
def Left (maximumReads maximumFrames : ℕ) (before : List (ReadAnswer × Signals))
    (frames : List Frame) (t : StreamTransport) : Prop :=
  frames.length = maximumFrames ∨ t.closed = true
    ∨ t.decoder.Exhausted ∧ (UsedUp maximumReads before t.socket.reads → t.moreReads = true)

section Left

variable {maximumReads maximumFrames reads : ℕ} {before : List (ReadAnswer × Signals)}
  {frames : List Frame} {t : StreamTransport}

theorem Reading.moreReads (h : Reading maximumReads before reads t)
    (hus : UsedUp maximumReads before t.socket.reads) : t.moreReads = true := by
  obtain ⟨_, htn, _⟩ := h.taken
  obtain ⟨_, _, _, _, hbe⟩ := hus
  have heq : reads = maximumReads := by
    have hct := congrArg length (htn.symm.trans hbe)
    simp only [length_append, length_cons] at hct
    omega
  rw [h.moreReads_eq (by omega), decide_eq_true heq]

theorem not_usedUp {anss rest : List (ReadAnswer × Signals)} {ans : ReadAnswer × Signals}
    (hbe : before = anss ++ ans :: rest) (han : ∀ data, ans.1 ≠ .bytes data) :
    ¬UsedUp maximumReads before rest := by
  rintro ⟨_, data, _, -, hbe'⟩
  have hlen := congrArg length (hbe.symm.trans hbe')
  simp only [length_append, length_cons] at hlen
  have hla := (append_inj (hbe.symm.trans hbe') (by omega)).2
  exact han data (congrArg Prod.fst (cons.inj hla).1)

/-- **A read that is given nothing ends the loop** without the reads being used up
by it. -/
theorem left_tryReadSome (hrd : Reading maximumReads before reads t)
    (hex : t.decoder.Exhausted) (maximumFrames : ℕ) (frames : List Frame) :
    match TcpSocket.tryReadSome t.socket with
    | .ok none s => Left maximumReads maximumFrames before frames { t with socket := s }
    | .ok (some _) s => ∃ anss, before = anss ++ s.reads ∧ anss.length = reads + 1
    | .error _ _ => True := by
  obtain ⟨anss, htn, hlen⟩ := hrd.taken
  unfold TcpSocket.tryReadSome
  cases hre : t.socket.reads with
  | nil => exact .inr (.inr ⟨hex, hrd.moreReads⟩)
  | cons ans =>
    rw [hre] at htn
    obtain ⟨ans, signals⟩ := ans
    cases ans with
    | blocked =>
      exact .inr (.inr ⟨hex, fun hus =>
        absurd hus (not_usedUp htn nofun)⟩)
    | failed => exact True.intro
    | bytes data =>
      refine ⟨anss ++ [(.bytes data, signals)], ?_, ?_⟩
      · rw [htn, append_assoc, singleton_append]
      · rw [length_append, length_singleton, hlen]

/-- **The loop misses nothing.** It has turns enough, as each one that does not
end it takes a frame or makes a read. -/
theorem left_receiveTurns {turns : ℕ} (hfr : frames.length ≤ maximumFrames)
    (hre : reads ≤ maximumReads)
    (htu : turns = maximumFrames - frames.length + (maximumReads - reads)) :
    Meets (Reading maximumReads before reads)
      (receiveTurns maximumReads maximumFrames turns frames reads)
      (Left maximumReads maximumFrames before) (fun _ _ => True) := by
  induction turns generalizing frames reads with
  | zero => exact .pure fun t _ => .inl (by omega)
  | succ _ ih =>
    refine .ite (fun hmr => ?_) fun hfl => .pure fun t _ => .inl (by omega)
    refine .bind (Q := fun frame t => Reading maximumReads before reads t
      ∧ (frame = none → t.decoder.Exhausted)) (.within fun t ht => ?_) fun frame => ?_
    · unfold rethrow
      cases hnx : Decoder.next t.decoder with
      | error => exact True.intro
      | ok =>
        refine ⟨⟨ht.taken, ht.moreReads_eq⟩, ?_⟩
        rintro rfl
        exact Decoder.exhausted_of_next hnx
    cases frame with
    | some frame =>
      have hlen : (frames ++ [frame]).length = frames.length + 1 := length_append
      have hle : (frames ++ [frame]).length ≤ maximumFrames := by omega
      exact (ih hle hre (by omega)).pre fun _ h => h.1
    | none =>
      refine Meets.read fun _ _ => .ite (fun _ => .pure fun t ht => ?_) fun hrd => ?_
      · exact .inr (.inr ⟨ht.2 rfl, ht.1.moreReads⟩)
      refine .bind (Q := fun r t => match r with
        | none => Left maximumReads maximumFrames before frames t
        | some _ => ∃ answers, before = answers ++ t.socket.reads ∧ answers.length = reads + 1)
        (.within fun t ht => ?_) fun r => ?_
      · have hrd := left_tryReadSome ht.1 (ht.2 rfl) maximumFrames frames
        cases hsc : TcpSocket.tryReadSome t.socket with
        | error => exact True.intro
        | ok r =>
          rw [hsc] at hrd
          cases r with
          | none | some => exact hrd
      cases r with
      | none => exact .pure fun _ h => h
      | some bytes =>
        refine .ite (fun _ => ?_) fun _ => ?_
        · -- the other side has closed
          refine .bind (.modify (Q := fun _ t => t.closed = true) fun _ _ => rfl)
            fun _ => .ite (fun _ => .throw fun _ _ => True.intro) fun _ => ?_
          exact .pure fun t ht => .inr (.inl ht)
        · refine .bind (Q := fun _ t => ∃ answers, before = answers ++ t.socket.reads
            ∧ answers.length = reads + 1) (.within fun t ht => ?_) fun _ => ?_
          · cases rethrow TransportError.protocol (Decoder.feed bytes) t.decoder with
            | ok => exact ht
            | error => exact True.intro
          · refine .bind (.modify (Q := fun _ => Reading maximumReads before (reads + 1))
              fun t ht => ⟨ht, fun _ => rfl⟩) fun _ => ih hfr (by omega) (by omega)

/-- **A call that returns misses nothing**: there is more to do if a frame is
left, and if the reads were used up by one that succeeded. -/
theorem hasBufferedInput_of_receive {t' : StreamTransport}
    (h : receive maximumReads maximumFrames t = .ok frames t') (hfr : maximumFrames ≠ 0)
    (hwr : t'.socket.signals.writeNeedsRead = false)
    (hlf : ¬t'.decoder.Exhausted ∨ UsedUp maximumReads t.socket.reads t'.socket.reads) :
    t'.hasBufferedInput = true := by
  have hmt : Meets (· = t) (receive maximumReads maximumFrames)
      (fun _ t' => t'.closed = true ∨ t'.moreFrames = true ∨ t'.decoder.Exhausted
        ∧ (UsedUp maximumReads t.socket.reads t'.socket.reads → t'.moreReads = true))
      (fun _ _ => True) := by
    refine .read fun _ _ => .ite (fun _ => .throw fun _ _ => .intro) fun _ => ?_
    refine .bind (.modify (Q := fun _ => Reading maximumReads t.socket.reads 0) ?_) fun _ => ?_
    · rintro _ rfl
      exact ⟨⟨[], rfl, rfl⟩, fun hne => absurd rfl hne⟩
    refine .bind (left_receiveTurns (Nat.zero_le _) (Nat.zero_le _) rfl) fun frames => ?_
    refine .bind (.modify ?_)
      fun _ => .bind (.modify fun _ ht' => ht') fun _ => .pure fun _ ht' => ht'
    rintro t' (hfl | hcl | hrs)
    · exact .inr (.inl (decide_eq_true ⟨hfr, hfl⟩))
    · exact .inl hcl
    · exact .inr (.inr hrs)
  unfold hasBufferedInput
  rcases hmt.of_ok rfl h with hcl | hmr | ⟨hex, hus⟩
  · rw [hcl]
    rfl
  · rw [hmr, Bool.or_true, Bool.true_or]
  · have hmo : t'.moreReads = true := by
      rcases hlf with hhe | hlf
      · exact absurd hex hhe
      · exact hus hlf
    rw [hwr, hmo]
    simp

end Left

/-! ## Runs -/

inductive Call
  | queue (bytes : Bytes)
  | flush (maximumWrites : ℕ)
  | receive (maximumReads maximumFrames : ℕ)
  | signal (signals : Signals)

structure Streaming where
  transport : StreamTransport
  accepted : Bytes := []

namespace Streaming

def step (s : Streaming) : Call → Streaming
  | .queue bytes =>
    { transport := (s.transport.queue bytes).2
      accepted := if (s.transport.queue bytes).1 then s.accepted ++ bytes else s.accepted }
  | .flush maximumWrites => { s with transport := after (flush maximumWrites) s.transport }
  | .receive maximumReads maximumFrames =>
    { s with transport := after (receive maximumReads maximumFrames) s.transport }
  | .signal signals =>
    { s with transport := { s.transport with socket := { s.transport.socket with signals } } }

variable (signals : Signals) (writes : List (WriteAnswer × Signals))
  (reads : List (ReadAnswer × Signals)) (decoder : Decoder)

def run (calls : List Call) : Streaming :=
  calls.foldl step { transport := { socket := { signals, writes, reads }, decoder } }

theorem sound_step {s : Streaming} (h : Sound s.accepted s.transport) (call : Call) :
    Sound (s.step call).accepted (s.step call).transport := by
  cases call with
  | queue bytes => exact h.queue bytes
  | flush maximumWrites => exact (keeps_flush maximumWrites).after h
  | receive maximumReads maximumFrames => exact (keeps_receive maximumReads maximumFrames).after h
  | signal => exact h.of_eq

theorem sound_run (cs : List Call) :
    Sound (run signals writes reads decoder cs).accepted
      (run signals writes reads decoder cs).transport := by
  exact foldlRecOn (motive := fun s : Streaming => Sound s.accepted s.transport) cs step
    (sound_start signals writes reads decoder) fun _ hs call _ => sound_step hs call

/-- **A transport keeps the stream and misses no event**, whatever the socket does
and whatever calls are made: the bytes written and those queued are the ones
that were accepted, the queued ones are counted and no more than may be, and a
refused call changes nothing. A call for frames that returns with a frame left
in the decoder, or with its reads used up by one that succeeded, leaves a
transport that says there is more to do, if the socket does not have to be
written to first. -/
theorem run_streams (calls : List Call) :
    let s := run signals writes reads decoder calls
    s.transport.socket.written ++ s.transport.remaining = s.accepted
      ∧ s.transport.queuedBytes = s.transport.remaining.length
      ∧ s.transport.queuedBytes ≤ maximumQueuedBytes
      ∧ (∀ bytes, (s.transport.queue bytes).1 = false → (s.transport.queue bytes).2 = s.transport)
      ∧ ∀ maximumReads maximumFrames frames t', maximumFrames ≠ 0 →
        receive maximumReads maximumFrames s.transport = .ok frames t' →
        t'.socket.signals.writeNeedsRead = false →
        ((∃ frame d, Decoder.next t'.decoder = .ok (some frame) d)
          ∨ UsedUp maximumReads s.transport.socket.reads t'.socket.reads) →
        t'.hasBufferedInput = true := by
  intro s
  have hsn : Sound s.accepted s.transport := sound_run signals writes reads decoder calls
  refine ⟨hsn.written_eq, hsn.queuedBytes_eq, hsn.queuedBytes_le, ?_, ?_⟩
  · intro _ hrf
    unfold queue at hrf ⊢
    split
    · rfl
    · next hrm =>
      rw [if_neg hrm] at hrf
      split at hrf
      all_goals cases hrf
  · intro _ _ _ _ hfr hrc hwr hlf
    refine hasBufferedInput_of_receive hrc hfr hwr (hlf.imp_left ?_)
    rintro ⟨_, _, hnx⟩ hex
    rw [hex.next_eq] at hnx
    cases hnx

def twoFrames : List (ReadAnswer × Signals) :=
  [(.bytes (Frame.wire ⟨.ping, []⟩ ++ Frame.wire ⟨.pong, []⟩), {})]

theorem run_streams_two_frames :
    ∃ t', receive 1 1 (run {} [] twoFrames {} []).transport = .ok [⟨.ping, []⟩] t'
      ∧ t'.hasBufferedInput = true := by
  have hrc : ∃ t' d, receive 1 1 (run {} [] twoFrames {} []).transport = .ok [⟨.ping, []⟩] t'
      ∧ t'.socket.signals.writeNeedsRead = false
      ∧ Decoder.next t'.decoder = .ok (some ⟨.pong, []⟩) d := ⟨_, _, rfl, rfl, rfl⟩
  obtain ⟨t', d, hrc, hwr, hnx⟩ := hrc
  exact ⟨t', hrc, (run_streams {} [] twoFrames {} []).2.2.2.2 1 1 _ t' one_ne_zero hrc
    hwr (.inl ⟨_, d, hnx⟩)⟩

/-- **Frames arrive in order.** Whatever calls are made on the two sides and whatever the
socket takes at a time: a decoder that has been fed some of what was written has delivered
the first of the frames that were queued, and nothing else. -/
theorem frames_arrive_in_order (calls : List Call) (received : List Decoder.Call)
    {frames : List Frame} (htype : ∀ f ∈ frames, f.type ≠ .fragment)
    (hencode : Frame.encodeAll frames = .ok (run signals writes reads decoder calls).accepted)
    (hfed : (Decoder.Decoding.run received).fed
      <+: (run signals writes reads decoder calls).transport.socket.written) :
    (Decoder.Decoding.run received).delivered <+: frames := by
  obtain ⟨hvd, hac⟩ := Frame.encodeAll_eq_ok.mp hencode
  have hwr := (sound_run signals writes reads decoder calls).written_eq
  obtain ⟨more, hall⟩ := hfed.trans (prefix_append _ _)
  have href := reference_append (Decoder.Decoding.run received).fed more
  rw [hall, hwr, hac, reference_frames hvd htype] at href
  exact (Decoder.Decoding.follows_run received).delivered_front.trans href

theorem frames_arrive_in_order_ping :
    (Decoder.Decoding.run [.feed (Frame.wire ⟨.ping, []⟩), .next]).delivered
      <+: [⟨.ping, []⟩, ⟨.pong, []⟩] :=
  frames_arrive_in_order {} [(.took 12, {}), (.took 5, {})] [] {}
    [.queue (Frame.wire ⟨.ping, []⟩), .queue (Frame.wire ⟨.pong, []⟩), .flush 2] _
    (by decide) rfl (by decide)

end Streaming

end StreamTransport

end Tailgate
