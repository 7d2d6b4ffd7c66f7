import Tailgate.AuthenticatedCiphers
import Tailgate.BufferedWrites
import Tailgate.ControlHandshake
import Tailgate.StreamDecoding
import Tailgate.TaggedFrames
import Tailgate.TransitionSystem

/-!
# Messages behind the handshake

Client and control server send each other encrypted messages in frames. Both
sides count the messages of a direction, and the count is the nonce.

`Channel` is one direction. As long as the two counts agree, what is received is
what was sent, in order (`channel_in_order`). A message that is too large for a
frame is refused only after it has been counted, and the other side cannot
decrypt the next one (`refused_then_sent`).
-/

namespace Tailgate

open Procedure StreamDecoding List AuthenticatedCipher.Tagged AuthenticatedCipher TaggedFrame

inductive NoiseError
  | tooLarge
  | closedDuringWrite
  | closed
  | frameType
  | tooShort
  | authentication

/-- **One side of a connection.** -/
structure NoiseTransport (Key : Type) where
  keys : NoiseKeys Key
  txNonce : UInt64 := 0
  rxNonce : UInt64 := 0
  receiveBuffer : Bytes := []
  sendBuffer : SendBuffer UInt8 := {}

namespace NoiseTransport

variable {Key : Type}

def ofHandshake (handshake : ControlHandshakeResult Key) : NoiseTransport Key where
  keys := handshake.keys
  receiveBuffer := handshake.proactiveFrames

def transportFrameType : UInt8 := 4

def lengthWidth : ℕ := 2

def transportHeaderSize : ℕ := headerSize lengthWidth

def maximumCiphertextSize : ℕ := 0xffff

def frame (ciphertext : Bytes) : Bytes :=
  encode lengthWidth transportFrameType ciphertext

def hasPendingOutput (t : NoiseTransport Key) : Bool := t.sendBuffer.pending

abbrev Transporting (Key α : Type) := EStateM NoiseError (NoiseTransport Key × Bytes) α

def onTransport {α : Type} (x : EStateM NoiseError (NoiseTransport Key) α) : Transporting Key α :=
  within Prod.fst (fun t s => (t, s.2)) x

/-! ## Sending -/

/-- **Write what is to be written**, to a connection that answers like this. -/
def flush (answers : List ℕ) : Transporting Key Unit := fun s =>
  let flushed := s.1.sendBuffer.flush answers
  let s' := ({ s.1 with sendBuffer := flushed.left }, s.2 ++ flushed.written)
  if flushed.closed then .error .closedDuringWrite s' else .ok () s'

variable (C : AuthenticatedCipher Key)

/-- **Send a message.** It is counted before its size is looked at. -/
def send (plaintext : Bytes) (answers : List ℕ) : Transporting Key Unit := do
  let t := (← get).1
  let ciphertext := C.encrypt t.keys.txKey t.txNonce plaintext
  onTransport (modify fun t => { t with txNonce := t.txNonce + 1 })
  if maximumCiphertextSize < ciphertext.length then throw .tooLarge
  else do
    onTransport (modify fun t => { t with sendBuffer := t.sendBuffer.append (frame ciphertext) })
    flush answers

/-! ## Receiving -/

def decryptBigNonce (key : Key) (nonce : UInt64)
    (ciphertext : Bytes) : Except NoiseError Bytes :=
  if ciphertext.length < tagSize then .error .tooShort
  else
    match C.decrypt key nonce ciphertext with
    | some plaintext => .ok plaintext
    | none => .error .authentication

/-- **Take a message** out of what has been read, if all of it is there. -/
def tryTakeBufferedFrame : EStateM NoiseError (NoiseTransport Key) (Option Bytes) := do
  let t ← get
  if t.receiveBuffer.length < transportHeaderSize then pure none
  else if t.receiveBuffer.head? ≠ some transportFrameType then throw .frameType
  else do
    let frameSize := transportHeaderSize + declared lengthWidth t.receiveBuffer
    if t.receiveBuffer.length < frameSize then pure none
    else do
      let ciphertext := (t.receiveBuffer.take frameSize).drop transportHeaderSize
      set { t with receiveBuffer := t.receiveBuffer.drop frameSize }
      let plaintext ← liftM (decryptBigNonce C t.keys.rxKey t.rxNonce ciphertext)
      modify fun t => { t with rxNonce := t.rxNonce + 1 }
      pure (some plaintext)

/-- Read at most some number of the bytes on the way, of which so many have
arrived. -/
def tryReadSome (arrived maximum : ℕ) : Transporting Key (Option Bytes) := fun s =>
  if s.2.take arrived = [] then .ok none s
  else .ok (some (s.2.take (min arrived maximum))) (s.1, s.2.drop (min arrived maximum))

/-- Read as much as there is room for, and whether something was read. There
is room whenever less than a frame has been read. -/
def readAvailable (arrived : ℕ) : Transporting Key Bool := do
  let t := (← get).1
  match ← tryReadSome arrived
    (maximumCiphertextSize + transportHeaderSize - t.receiveBuffer.length) with
  | none => pure false
  | some [] => throw .closed
  | some available => do
    onTransport (modify fun t => { t with receiveBuffer := t.receiveBuffer ++ available })
    pure true

/-- **Wait for a message**, while so many bytes arrive by one read after the
other. Without a message it is still waited for. -/
def receive (C : AuthenticatedCipher Key) : List ℕ → Transporting Key (Option Bytes)
  | [] => onTransport (tryTakeBufferedFrame C)
  | arrived :: arrivals => do
    match ← onTransport (tryTakeBufferedFrame C) with
    | some plaintext => pure (some plaintext)
    | none => do
      let _ ← readAvailable arrived
      receive C arrivals

/-- **Look for a message**, with so many bytes arrived. -/
def tryReceive (arrived : ℕ) : Transporting Key (Option Bytes) := do
  match ← onTransport (tryTakeBufferedFrame C) with
  | some plaintext => pure (some plaintext)
  | none => do
    if ← readAvailable arrived then onTransport (tryTakeBufferedFrame C) else pure none

/-! ## What sending does -/

section Sending

variable {C} {answers : List ℕ} {t : NoiseTransport Key}
  {wire plaintext : Bytes}

/-- A connection that is not closed takes bytes off the buffer, and nothing
else changes. -/
theorem flush_ok (h : 0 ∉ answers) (t : NoiseTransport Key) (wire : Bytes) :
    ∃ buf wire', flush answers (t, wire) = .ok () ({ t with sendBuffer := buf }, wire')
      ∧ wire' ++ buf.remaining = wire ++ t.sendBuffer.remaining := by
  refine ⟨(t.sendBuffer.flush answers).left, wire ++ (t.sendBuffer.flush answers).written, ?_, ?_⟩
  · show (if (t.sendBuffer.flush answers).closed then _ else _) = _
    rw [SendBuffer.flush_closed h]
    rfl
  · rw [append_assoc, SendBuffer.flush_written]

theorem send_tooLarge (hil : C.Ideal) (h : maximumCiphertextSize < plaintext.length + tagSize) :
    send C plaintext answers (t, wire)
      = .error .tooLarge ({ t with txNonce := t.txNonce + 1 }, wire) := by
  have hlr : maximumCiphertextSize < (C.encrypt t.keys.txKey t.txNonce plaintext).length := by
    rwa [hil.length_encrypt]
  show (if maximumCiphertextSize < (C.encrypt t.keys.txKey t.txNonce plaintext).length
    then _ else _ : Transporting Key Unit) _ = _
  rw [if_pos hlr]
  rfl

/-- **A message that is not too large** is counted, and its frame is put behind
everything that is on the way. -/
theorem send_ok (hil : C.Ideal) (h : plaintext.length + tagSize ≤ maximumCiphertextSize)
    (hop : 0 ∉ answers) (t : NoiseTransport Key) (wire : Bytes) :
    ∃ buf wire', send C plaintext answers (t, wire)
        = .ok () ({ t with txNonce := t.txNonce + 1, sendBuffer := buf }, wire')
      ∧ wire' ++ buf.remaining = wire ++ t.sendBuffer.remaining
        ++ frame (C.encrypt t.keys.txKey t.txNonce plaintext) := by
  have hsm : ¬maximumCiphertextSize < (C.encrypt t.keys.txKey t.txNonce plaintext).length := by
    rw [hil.length_encrypt]
    omega
  obtain ⟨buf, wire', hfl, hby⟩ := flush_ok hop { t with
      txNonce := t.txNonce + 1
      sendBuffer := t.sendBuffer.append (frame (C.encrypt t.keys.txKey t.txNonce plaintext)) }
    wire
  refine ⟨buf, wire', ?_, ?_⟩
  · show (if maximumCiphertextSize < (C.encrypt t.keys.txKey t.txNonce plaintext).length
      then _ else _ : Transporting Key Unit) _ = _
    rw [if_neg hsm]
    exact hfl
  · rw [hby, SendBuffer.remaining_append, append_assoc]

end Sending

/-! ## What receiving does -/

section Taking

variable {C} {t : NoiseTransport Key} {ciphertext rest : Bytes}

theorem length_frame (ciphertext : Bytes) :
    (frame ciphertext).length = transportHeaderSize + ciphertext.length :=
  length_encode _ _ _

theorem length_lt (h : ciphertext.length ≤ maximumCiphertextSize) :
    ciphertext.length < 256 ^ lengthWidth :=
  Nat.lt_of_le_of_lt h (by decide)

/-- **All of a frame is taken**, if it can be decrypted. -/
theorem tryTakeBufferedFrame_frame {plaintext : Bytes}
    (hbf : t.receiveBuffer = frame ciphertext ++ rest)
    (hsz : ciphertext.length ≤ maximumCiphertextSize)
    (hpl : decryptBigNonce C t.keys.rxKey t.rxNonce ciphertext = .ok plaintext) :
    tryTakeBufferedFrame C t
      = .ok (some plaintext) { t with receiveBuffer := rest, rxNonce := t.rxNonce + 1 } := by
  have hln : ¬t.receiveBuffer.length < transportHeaderSize + ciphertext.length := by
    rw [hbf, length_append, length_frame]
    omega
  have hstart : ¬t.receiveBuffer.length < transportHeaderSize := by omega
  have hty : ¬t.receiveBuffer.head? ≠ some transportFrameType := by
    rw [hbf]
    exact fun hne => hne rfl
  have hvl : declared lengthWidth t.receiveBuffer = ciphertext.length := by
    rw [hbf]
    exact declared_encode (length_lt hsz) _ rest
  have htk : (t.receiveBuffer.take (transportHeaderSize + ciphertext.length)).drop
      transportHeaderSize = ciphertext := by
    rw [hbf]
    exact take_encode rest
  have hdr : t.receiveBuffer.drop (transportHeaderSize + ciphertext.length) = rest := by
    rw [hbf]
    exact drop_encode_append rest
  unfold tryTakeBufferedFrame
  rw [get_bind, if_neg hstart, if_neg hty, hvl, if_neg hln, htk, hdr, hpl]
  rfl

/-- **Less than a frame** is left where it is. -/
theorem tryTakeBufferedFrame_unfinished (hsz : ciphertext.length ≤ maximumCiphertextSize)
    (hft : t.receiveBuffer <+: frame ciphertext)
    (hlt : t.receiveBuffer.length < (frame ciphertext).length) :
    tryTakeBufferedFrame C t = .ok none t := by
  unfold tryTakeBufferedFrame
  rw [get_bind]
  by_cases hstart : t.receiveBuffer.length < transportHeaderSize
  · rw [if_pos hstart]
    rfl
  · obtain ⟨hty, hvl⟩ := of_front (length_lt hsz) hft (not_lt.mp hstart)
    rw [length_frame] at hlt
    rw [if_neg hstart, if_neg (not_not.mpr hty), hvl, if_pos hlt]
    rfl

end Taking

def numbered (C : AuthenticatedCipher Key) (key : Key) (message : Bytes × ℕ) : Bytes :=
  frame (C.encrypt key (UInt64.ofNat message.2) message.1)

/-- **What a receiver is to expect**: the bytes it has read, those on the way
and those that will be written are the frames of the messages that are left,
and it has counted those before them. -/
structure Expects (C : AuthenticatedCipher Key) (key : Key) (count : ℕ)
    (messages : List Bytes) (future : Bytes)
    (s : NoiseTransport Key × Bytes) : Prop where
  key_eq : s.1.keys.rxKey = key
  /-- It has counted the messages it has received. -/
  nonce_eq : s.1.rxNonce = .ofNat count
  bytes_eq : s.1.receiveBuffer ++ (s.2 ++ future) = (messages.zipIdx count).flatMap (numbered C key)
  fits : ∀ message ∈ messages, message.length + tagSize ≤ maximumCiphertextSize

section Receiving

variable {C} {key : Key} {count : ℕ} {messages : List Bytes}
  {future : Bytes} {s : NoiseTransport Key × Bytes}

theorem decryptBigNonce_encrypt (hil : C.Ideal) (key : Key) (nonce : UInt64)
    (message : Bytes) :
    decryptBigNonce C key nonce (C.encrypt key nonce message) = .ok message := by
  unfold decryptBigNonce
  rw [hil.length_encrypt, if_neg (by omega), hil.decrypt_encrypt]

def Received (C : AuthenticatedCipher Key) (key : Key) (count : ℕ) (messages : List Bytes)
    (future : Bytes) (x : Transporting Key (Option Bytes))
    (s : NoiseTransport Key × Bytes) : Prop :=
  ∃ message rest s', messages = message :: rest ∧ x s = .ok (some message) s'
    ∧ Expects C key (count + 1) rest future s'

/-- **Taking a message** either gives the first one that is expected, or less
than its frame has been read. -/
theorem Expects.take_cases (hil : C.Ideal) (h : Expects C key count messages future s) :
    Received C key count messages future (onTransport (tryTakeBufferedFrame C)) s
      ∨ onTransport (tryTakeBufferedFrame C) s = .ok none s
        ∧ s.1.receiveBuffer.length < maximumCiphertextSize + transportHeaderSize
        ∧ CaughtUp (numbered C key) (messages.zipIdx count) s.1.receiveBuffer (s.2 ++ future) := by
  have hsz : ∀ message ∈ messages, ∀ n : ℕ,
      (C.encrypt key (UInt64.ofNat n) message).length ≤ maximumCiphertextSize := by
    intro message hms _
    rw [hil.length_encrypt]
    exact h.fits message hms
  rcases front_cases h.bytes_eq with ⟨_, _, _, has, hbf, hrs⟩ | hca
  · left
    cases messages with
    | nil => cases has
    | cons message messages =>
      obtain ⟨rfl, rfl⟩ := has
      have htk := tryTakeBufferedFrame_frame (C := C) hbf (hsz message mem_cons_self count)
        (by rw [h.key_eq, h.nonce_eq]; exact decryptBigNonce_encrypt hil _ _ _)
      refine ⟨message, messages, _, rfl, within_ok htk, h.key_eq, ?_, hrs, ?_⟩
      · rw [h.nonce_eq, UInt64.ofNat_add]
        rfl
      · exact fun m hm => h.fits m (mem_cons_of_mem _ hm)
  · right
    have hke : tryTakeBufferedFrame C s.1 = .ok none s.1
        ∧ s.1.receiveBuffer.length < maximumCiphertextSize + transportHeaderSize := by
      cases messages with
      | nil =>
        have hnil : s.1.receiveBuffer = [] := (append_eq_nil_iff.mp hca.split).1
        rw [hnil]
        refine ⟨?_, by decide⟩
        have hem : ([] : Bytes).length ≤ maximumCiphertextSize := Nat.zero_le _
        exact tryTakeBufferedFrame_unfinished hem (by rw [hnil]; exact nil_prefix)
          (by rw [hnil]; decide)
      | cons message =>
        have hfi := hsz message mem_cons_self count
        have hlt : s.1.receiveBuffer.length
          < (numbered C key (message, count)).length := hca.short _ rfl
        have hsp := hca.split
        rcases append_cases hsp with ⟨_, hq, -⟩ | ⟨hft, -⟩
        · rw [hq, length_append] at hlt
          omega
        · refine ⟨tryTakeBufferedFrame_unfinished hfi hft hlt, ?_⟩
          rw [numbered, length_frame] at hlt
          exact hlt.trans_le (by rw [Nat.add_comm]; exact Nat.add_le_add_right hfi _)
    exact ⟨within_ok hke.1, hke.2, hca⟩

/-- **Reading** moves bytes from those on the way to those that have been read,
and at least one if one has arrived. -/
theorem Expects.readAvailable (h : Expects C key count messages future s) (arrived : ℕ)
    (hrm : s.1.receiveBuffer.length < maximumCiphertextSize + transportHeaderSize) :
    ∃ more s', NoiseTransport.readAvailable arrived s = .ok more s'
      ∧ Expects C key count messages future s'
      ∧ (0 < arrived → s.2 ≠ [] → s'.2.length < s.2.length) ∧ s'.2.length ≤ s.2.length := by
  unfold NoiseTransport.readAvailable
  rw [get_bind]
  by_cases hno : s.2.take arrived = []
  · have hrd : ∀ maximum, tryReadSome arrived maximum s = .ok none s := by
      intro _
      unfold tryReadSome
      rw [if_pos hno]
    rw [bind_ok (hrd _)]
    refine ⟨false, s, rfl, h, fun hpos hne => ?_, le_rfl⟩
    rcases take_eq_nil_iff.mp hno with h0 | h0
    · omega
    · exact absurd h0 hne
  · set maximum := maximumCiphertextSize + transportHeaderSize - s.1.receiveBuffer.length with hmx
    set n := min arrived maximum with hn
    have hrd : tryReadSome arrived maximum s = .ok (some (s.2.take n)) (s.1, s.2.drop n) := by
      unfold tryReadSome
      rw [if_neg hno]
    obtain ⟨_, hwr⟩ := not_or.mp (fun h0 => hno (take_eq_nil_iff.mpr h0))
    have hpos : 0 < n := by omega
    have hne : s.2.take n ≠ [] := by
      rw [Ne, take_eq_nil_iff]
      exact not_or.mpr ⟨hpos.ne', hwr⟩
    have hlen := length_pos_iff.mpr hwr
    rw [bind_ok hrd]
    cases htk : s.2.take n with
    | nil => exact absurd htk hne
    | cons b available =>
      refine ⟨true, ({ s.1 with receiveBuffer := s.1.receiveBuffer ++ (b :: available) },
        s.2.drop n), rfl, ⟨h.key_eq, h.nonce_eq, ?_, h.fits⟩, fun _ _ => ?_, ?_⟩
      · rw [← h.bytes_eq, ← htk, append_assoc, ← append_assoc (s.2.take n), take_append_drop]
      · rw [length_drop]
        omega
      · rw [length_drop]
        omega

/-- Either the first message that is expected has been received, or none and
the same messages are expected. -/
def Delivers (C : AuthenticatedCipher Key) (x : Transporting Key (Option Bytes)) : Prop :=
  ∀ {key : Key} {count : ℕ} {messages : List Bytes} {future : Bytes}
    {s : NoiseTransport Key × Bytes}, Expects C key count messages future s →
    Received C key count messages future x s
      ∨ ∃ s', x s = .ok none s' ∧ Expects C key count messages future s'

section Unfolding

variable {state : NoiseTransport Key × Bytes} {arrived : ℕ} {arrivals : List ℕ} {more : Bool}
  {message : Bytes} (hno : onTransport (tryTakeBufferedFrame C) s = .ok none s)
  (hrd : NoiseTransport.readAvailable arrived s = .ok more state)

theorem receive_some (h : onTransport (tryTakeBufferedFrame C) s = .ok (some message) state) :
    receive C arrivals s = .ok (some message) state := by
  cases arrivals with
  | nil => exact h
  | cons => exact bind_ok h

include hno hrd in
theorem receive_none : receive C (arrived :: arrivals) s = receive C arrivals state :=
  (bind_ok hno).trans (bind_ok hrd)

theorem tryReceive_some (h : onTransport (tryTakeBufferedFrame C) s = .ok (some message) state) :
    tryReceive C arrived s = .ok (some message) state :=
  bind_ok h

include hno hrd in
theorem tryReceive_none : tryReceive C arrived s
      = (if more then onTransport (tryTakeBufferedFrame C) else pure none) state :=
  (bind_ok hno).trans (bind_ok hrd)

end Unfolding

theorem delivers_take (hil : C.Ideal) : Delivers C (onTransport (tryTakeBufferedFrame C)) := by
  intro _ _ _ _ s h
  rcases h.take_cases hil with hrc | ⟨hno, -⟩
  · exact .inl hrc
  · exact .inr ⟨s, hno, h⟩

/-- **Waiting for a message**, however the bytes arrive. -/
theorem delivers_receive (hil : C.Ideal) (arrivals : List ℕ) : Delivers C (receive C arrivals) := by
  induction arrivals with
  | nil => exact delivers_take hil
  | cons arrived _ ih =>
    intro _ _ _ _ _ h
    rcases h.take_cases hil with ⟨message, rest, s', hms, htk, h'⟩ | ⟨hno, hrm, -⟩
    · exact .inl ⟨message, rest, s', hms, receive_some htk, h'⟩
    · obtain ⟨_, _, hrd, h', -⟩ := h.readAvailable arrived hrm
      unfold Received
      rw [receive_none hno hrd]
      exact ih h'

/-- **Looking for a message**, however many bytes have arrived. -/
theorem delivers_tryReceive (hil : C.Ideal) (arrived : ℕ) : Delivers C (tryReceive C arrived) := by
  intro _ _ _ _ _ h
  rcases h.take_cases hil with ⟨message, rest, s', hms, htk, h'⟩ | ⟨hno, hrm, -⟩
  · exact .inl ⟨message, rest, s', hms, tryReceive_some htk, h'⟩
  · obtain ⟨more, s', hrd, h', -⟩ := h.readAvailable arrived hrm
    unfold Received
    rw [tryReceive_none hno hrd]
    cases more with
    | true => exact delivers_take hil h'
    | false => exact .inr ⟨s', rfl, h'⟩

variable {message : Bytes}

theorem Expects.take_next (hil : C.Ideal)
    (h : Expects C key count (message :: messages) [] s) (hwr : s.2 = []) :
    ∃ s', onTransport (tryTakeBufferedFrame C) s = .ok (some message) s' := by
  rcases h.take_cases hil with ⟨_, _, s', hms, htk, -⟩ | ⟨-, -, hca⟩
  · cases hms
    exact ⟨s', htk⟩
  · rw [hwr, append_nil] at hca
    exact nomatch hca.eq_nil

/-- **A message that has been written is received** once enough has arrived. -/
theorem Expects.receive_next (hil : C.Ideal) {arrivals : List ℕ}
    (h : Expects C key count (message :: messages) [] s) (hpos : 0 ∉ arrivals)
    (hlen : s.2.length ≤ arrivals.length) :
    ∃ s', receive C arrivals s = .ok (some message) s' := by
  induction arrivals generalizing s with
  | nil => exact h.take_next hil (length_eq_zero_iff.mp (Nat.le_zero.mp hlen))
  | cons arrived _ ih =>
    obtain ⟨har, hrs⟩ := not_or.mp (fun hmem => hpos (mem_cons.mpr hmem))
    rcases h.take_cases hil with ⟨_, _, s', hms, htk, -⟩ | ⟨hno, hrm, hca⟩
    · cases hms
      exact ⟨s', receive_some htk⟩
    · obtain ⟨_, _, hrd, h', hls, -⟩ := h.readAvailable arrived hrm
      -- with nothing on the way the message would have been taken
      have hne : s.2 ≠ [] := by
        intro hnil
        rw [hnil, append_nil] at hca
        exact nomatch hca.eq_nil
      have hlt := hls (Nat.pos_of_ne_zero (Ne.symm har)) hne
      rw [receive_none hno hrd]
      refine ih h' hrs ?_
      rw [length_cons] at hlen
      omega

theorem Expects.tryReceive_next (hil : C.Ideal)
    (h : Expects C key count (message :: messages) [] s) (hwr : s.2 = []) (arrived : ℕ) :
    ∃ s', tryReceive C arrived s = .ok (some message) s' := by
  obtain ⟨s', htk⟩ := h.take_next hil hwr
  exact ⟨s', tryReceive_some htk⟩

end Receiving

end NoiseTransport

open NoiseTransport

/-! ## One direction of a connection -/

/-- **One direction of a connection**, with what has come of it so far. -/
structure NoiseChannel (Key : Type) where
  sender : NoiseTransport Key
  receiver : NoiseTransport Key
  wire : Bytes := []
  sent : List Bytes := []
  refused : Bool := false
  received : List Bytes := []
  failed : Bool := false

inductive NoiseEvent
  | send (plaintext : Bytes) (answers : List ℕ)
  | flush (answers : List ℕ)
  | receive (arrivals : List ℕ)
  | tryReceive (arrived : ℕ)

namespace NoiseChannel

open NoiseTransport

variable {Key : Type}

def start (keys : NoiseKeys Key) : NoiseChannel Key where
  sender := .ofHandshake { keys, proactiveFrames := [] }
  receiver := .ofHandshake { keys := ⟨keys.rxKey, keys.txKey⟩, proactiveFrames := [] }

variable (s : NoiseChannel Key) (state : NoiseTransport Key × Bytes)

def written : NoiseChannel Key :=
  { s with sender := state.1, wire := state.2 }

def read : NoiseChannel Key :=
  { s with receiver := state.1, wire := state.2 }

def noteSend (plaintext : Bytes) :
    EStateM.Result NoiseError (NoiseTransport Key × Bytes) Unit → NoiseChannel Key
  | .ok _ state => { s.written state with sent := s.sent ++ [plaintext] }
  | .error _ state => { s.written state with refused := true }

def noteReceive :
    EStateM.Result NoiseError (NoiseTransport Key × Bytes) (Option Bytes) →
      NoiseChannel Key
  | .ok (some plaintext) state => { s.read state with received := s.received ++ [plaintext] }
  | .ok none state => s.read state
  | .error _ state => { s.read state with failed := true }

/-- **What an event does.** -/
def step (C : AuthenticatedCipher Key) (s : NoiseChannel Key) : NoiseEvent → NoiseChannel Key
  | .send plaintext answers =>
    s.noteSend plaintext (send C plaintext answers (s.sender, s.wire))
  | .flush answers => s.written (after (flush answers) (s.sender, s.wire))
  | .receive arrivals => s.noteReceive (receive C arrivals (s.receiver, s.wire))
  | .tryReceive arrived => s.noteReceive (tryReceive C arrived (s.receiver, s.wire))

/-- The connection stays open: it takes something at every write or has no room
for now. -/
def Open : NoiseEvent → Prop
  | .send _ answers => 0 ∉ answers
  | .flush answers => 0 ∉ answers
  | .receive _ => True
  | .tryReceive _ => True

def channel (C : AuthenticatedCipher Key) (keys : NoiseKeys Key) :
    TransitionSystem (NoiseChannel Key) NoiseEvent where
  init s := s = start keys
  step s e s' := Open e ∧ s' = s.step C e

def Careful : NoiseEvent → Prop
  | .send plaintext _ => s.refused = true →
      maximumCiphertextSize < plaintext.length + tagSize
  | _ => True

theorem reachable_step {C : AuthenticatedCipher Key} {keys : NoiseKeys Key} {s : NoiseChannel Key}
    (h : (channel C keys).Reachable s) (e : NoiseEvent) (hop : Open e) :
    (channel C keys).Reachable (s.step C e) :=
  h.step ⟨hop, rfl⟩

theorem reachable_careful {C : AuthenticatedCipher Key} {keys : NoiseKeys Key}
    {s : NoiseChannel Key} (h : ((channel C keys).restrict Careful).Reachable s) (e : NoiseEvent)
    (hop : Open e) (hcr : Careful s e) :
    ((channel C keys).restrict Careful).Reachable (s.step C e) :=
  h.step ⟨hcr, hop, rfl⟩

/-- **The two sides agree**: on the key, on how many messages there were, and
on what is on the way. -/
structure Agrees (C : AuthenticatedCipher Key) (keys : NoiseKeys Key) (s : NoiseChannel Key) :
    Prop where
  key_eq : s.sender.keys.txKey = keys.txKey
  /-- Unless a message was refused, the sender has counted those it has sent. -/
  nonce_eq : s.refused = false → s.sender.txNonce = .ofNat s.sent.length
  /-- What has not been received is on the way. -/
  expects : ∃ messages, s.sent = s.received ++ messages
    ∧ Expects C keys.txKey s.received.length messages s.sender.sendBuffer.remaining
      (s.receiver, s.wire)
  not_failed : s.failed = false

/-- **A channel that delivers in order.** -/
structure InOrder (C : AuthenticatedCipher Key) (s : NoiseChannel Key) : Prop where
  not_failed : s.failed = false
  /-- What was received is the front of what was sent. -/
  received_prefix : s.received <+: s.sent
  /-- Once it has been written, the next message is received by waiting for it. -/
  receive_next : ∀ message, s.sent[s.received.length]? = some message →
    s.sender.hasPendingOutput = false → ∀ arrivals : List ℕ, 0 ∉ arrivals →
    s.wire.length ≤ arrivals.length →
    ∃ state, receive C arrivals (s.receiver, s.wire) = .ok (some message) state
  /-- Once it has been read, the next message is received by looking for it. -/
  tryReceive_next : ∀ message, s.sent[s.received.length]? = some message →
    s.sender.hasPendingOutput = false → s.wire = [] → ∀ arrived : ℕ,
    ∃ state, tryReceive C arrived (s.receiver, s.wire) = .ok (some message) state

section Steps

variable {C : AuthenticatedCipher Key} {keys : NoiseKeys Key} {s : NoiseChannel Key}

theorem agrees_start (C : AuthenticatedCipher Key) (keys : NoiseKeys Key) :
    Agrees C keys (start keys) where
  key_eq := rfl
  nonce_eq _ := rfl
  expects := ⟨[], rfl, rfl, rfl, rfl, nofun⟩
  not_failed := rfl

/-- Bytes that go from the sender's buffer to the wire do not change what is
expected. -/
theorem Agrees.of_moved (h : Agrees C keys s) {buf : SendBuffer UInt8} {wire : Bytes}
    (hby : wire ++ buf.remaining = s.wire ++ s.sender.sendBuffer.remaining) :
    Agrees C keys (s.written ({ s.sender with sendBuffer := buf }, wire)) := { h with
  expects := by
    obtain ⟨messages, hsn, hex⟩ := h.expects
    refine ⟨messages, hsn, hex.key_eq, hex.nonce_eq, ?_, hex.fits⟩
    show s.receiver.receiveBuffer ++ (wire ++ buf.remaining) = _
    rw [hby]
    exact hex.bytes_eq }

variable {answers : List ℕ}

theorem Agrees.flush (h : Agrees C keys s) (hop : 0 ∉ answers) :
    Agrees C keys (s.step C (.flush answers)) := by
  obtain ⟨_, _, hfl, hby⟩ := flush_ok hop s.sender s.wire
  rw [NoiseChannel.step, after_of_ok hfl]
  exact h.of_moved hby

/-- **Sending**: the frame of the message goes behind all others, with the
number that is expected for it. -/
theorem Agrees.send (hil : C.Ideal) (h : Agrees C keys s) {plaintext : Bytes}
    (hop : 0 ∉ answers) (hcr : Careful s (.send plaintext answers)) :
    Agrees C keys (s.step C (.send plaintext answers)) := by
  rw [NoiseChannel.step]
  by_cases hlr : maximumCiphertextSize < plaintext.length + tagSize
  · rw [send_tooLarge hil hlr]
    exact ⟨h.key_eq, fun hrf => (nomatch hrf), h.expects, h.not_failed⟩
  · have hrf : s.refused = false := by
      cases hr : s.refused with
      | false => rfl
      | true => exact absurd (hcr hr) hlr
    obtain ⟨buf, wire, hsend, hby⟩ := send_ok hil (not_lt.mp hlr) hop s.sender s.wire
    obtain ⟨messages, hsn, hex⟩ := h.expects
    have hnc := h.nonce_eq hrf
    rw [hsend]
    refine ⟨h.key_eq, fun _ => ?_, ⟨messages ++ [plaintext], ?_, ?_⟩, h.not_failed⟩
    · show s.sender.txNonce + 1 = .ofNat (s.sent ++ [plaintext]).length
      rw [hnc, length_append, UInt64.ofNat_add]
      rfl
    · show s.sent ++ [plaintext] = s.received ++ (messages ++ [plaintext])
      rw [hsn, append_assoc]
    · refine ⟨hex.key_eq, hex.nonce_eq, ?_, fun message hmem => ?_⟩
      · show s.receiver.receiveBuffer ++ (wire ++ buf.remaining)
          = ((messages ++ [plaintext]).zipIdx s.received.length).flatMap (numbered C keys.txKey)
        have hct : s.received.length + messages.length = s.sent.length := by
          rw [hsn, length_append]
        have hold := hex.bytes_eq
        rw [hby, ← append_assoc, hold, zipIdx_append, flatMap_append,
          hct, h.key_eq, hnc, zipIdx_singleton, flatMap_singleton]
        rfl
      · rcases mem_append.mp hmem with hmem | hmem
        · exact hex.fits message hmem
        · rw [mem_singleton.mp hmem]
          exact not_lt.mp hlr

/-- **Receiving**: the message that is received is the first one that is
expected. -/
theorem Agrees.noteReceive {x : Transporting Key (Option Bytes)} (h : Agrees C keys s)
    (hx : Delivers C x) : Agrees C keys (s.noteReceive (x (s.receiver, s.wire))) := by
  obtain ⟨messages, hsn, hex⟩ := h.expects
  rcases hx hex with ⟨message, rest, state, rfl, hrun, hex'⟩ | ⟨state, hrun, hex'⟩
  · rw [hrun]
    refine { h with expects := ⟨rest, ?_, ?_⟩ }
    · show s.sent = (s.received ++ [message]) ++ rest
      rw [hsn, append_assoc, singleton_append]
    · show Expects C keys.txKey (s.received ++ [message]).length rest _ state
      rw [length_append]
      exact hex'
  · rw [hrun]
    exact { h with expects := ⟨messages, hsn, hex'⟩ }

theorem Agrees.step (hil : C.Ideal) (h : Agrees C keys s) {e : NoiseEvent} (hop : Open e)
    (hcr : Careful s e) : Agrees C keys (s.step C e) := by
  cases e with
  | send => exact h.send hil hop hcr
  | flush => exact h.flush hop
  | receive arrivals => exact h.noteReceive (delivers_receive hil arrivals)
  | tryReceive arrived => exact h.noteReceive (delivers_tryReceive hil arrived)

theorem Agrees.inOrder (hil : C.Ideal) (h : Agrees C keys s) : InOrder C s := by
  obtain ⟨messages, hsn, hex⟩ := h.expects
  -- the next message is the first one that is expected, and all of it is written
  have hnx : ∀ message, s.sent[s.received.length]? = some message →
      s.sender.hasPendingOutput = false → ∃ rest,
      Expects C keys.txKey s.received.length (message :: rest) [] (s.receiver, s.wire) := by
    intro _ hms hpd
    rw [hsn, getElem?_append_right le_rfl, Nat.sub_self, ← head?_eq_getElem?] at hms
    rw [(SendBuffer.pending_eq_false_iff _).mp hpd] at hex
    cases messages with
    | nil => cases hms
    | cons _ rest =>
      cases hms
      exact ⟨rest, hex⟩
  refine ⟨h.not_failed, ⟨messages, hsn.symm⟩, ?_, ?_⟩
  · intro message hms hpd _ hpos hlen
    obtain ⟨_, hrs⟩ := hnx message hms hpd
    exact hrs.receive_next hil hpos hlen
  · intro message hms hpd hwr arrived
    obtain ⟨_, hrs⟩ := hnx message hms hpd
    exact hrs.tryReceive_next hil hwr arrived

end Steps

/-- **The channel delivers in order**, as long as no message is sent after one
that was refused: whatever is sent and however it is cut on its way, receiving
does not throw, gives the messages that were sent, one after the other, and
gives the next one once its bytes are there. -/
theorem channel_in_order {C : AuthenticatedCipher Key} (hideal : C.Ideal) (keys : NoiseKeys Key)
    {s : NoiseChannel Key} (h : ((channel C keys).restrict Careful).Reachable s) :
    InOrder C s := by
  have hag : Agrees C keys s := by
    refine TransitionSystem.invariant (P := Agrees C keys) ?_ ?_ h
    · rintro s rfl
      exact agrees_start C keys
    · rintro _ _ _ hs ⟨hcr, hop, rfl⟩
      exact hs.step hideal hop hcr
  exact hag.inOrder hideal

def inPieces : NoiseChannel UInt64 :=
  [NoiseEvent.send [7, 8] [5], .tryReceive 4, .send [9] [3], .flush [100], .receive [2, 60],
    .send [] [70]].foldl (step cipher) (start ⟨1, 2⟩)

theorem channel_in_order_in_pieces : InOrder cipher inPieces ∧ inPieces.sent = [[7, 8], [9], []] ∧
    inPieces.received = [[7, 8]] := by
  refine ⟨channel_in_order ideal_cipher ⟨1, 2⟩ ?_, by decide, by decide⟩
  have h₀ : ((channel cipher ⟨1, 2⟩).restrict Careful).Reachable (start ⟨1, 2⟩) := .init rfl
  have h₁ := reachable_careful h₀ (.send [7, 8] [5]) (by decide : 0 ∉ [5]) nofun
  have h₂ := reachable_careful h₁ (.tryReceive 4) trivial trivial
  have h₃ := reachable_careful h₂ (.send [9] [3]) (by decide : 0 ∉ [3]) nofun
  have h₄ := reachable_careful h₃ (.flush [100]) (by decide : 0 ∉ [100]) trivial
  have h₅ := reachable_careful h₄ (.receive [2, 60]) trivial trivial
  exact reachable_careful h₅ (.send [] [70]) (by decide : 0 ∉ [70]) nofun

def afterRefusal : NoiseChannel UInt64 :=
  { start ⟨1, 2⟩ with
    sender := { keys := ⟨1, 2⟩, txNonce := 1 }
    refused := true }

theorem step_refused : (start ⟨1, 2⟩).step cipher (.send (replicate 65520 0) [])
      = afterRefusal := by
  have hlr : maximumCiphertextSize < (replicate 65520 (0 : UInt8)).length + tagSize := by
    rw [length_replicate]
    decide
  rw [step, send_tooLarge ideal_cipher hlr]
  rfl

/-- **A message after one that was refused** is sent without an error, and
receiving it throws. -/
theorem refused_then_sent : ∃ s : NoiseChannel UInt64, (channel cipher ⟨1, 2⟩).Reachable s
        ∧ s.sent = [[7]] ∧ s.received = [] ∧ s.failed = true := by
  have h₀ : (channel cipher ⟨1, 2⟩).Reachable (start ⟨1, 2⟩) :=
    .init rfl
  have h₁ := reachable_step h₀ (.send (replicate 65520 0) []) (not_mem_nil : 0 ∉ [])
  rw [step_refused] at h₁
  have h₂ := reachable_step h₁ (.send [7] [100]) (by decide : 0 ∉ [100])
  have h₃ := reachable_step h₂ (.receive [100]) trivial
  exact ⟨_, h₃, by decide, by decide, by decide⟩

end NoiseChannel

end Tailgate
