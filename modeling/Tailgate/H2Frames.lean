import Tailgate.Addresses
import Tailgate.BigEndian
import Tailgate.Framing

/-!
# HTTP/2 frames

The client knows the frames of HTTP/2 it needs: their header of nine bytes, six
types, and the flag that ends a stream or marks an acknowledgement.
`takeCompleteFrames` takes the frames off a buffer that are complete. The headers
that a payload stands for are read elsewhere.
-/

namespace Tailgate

open List

inductive H2FrameType
  | data
  | headers
  | settings
  | ping
  | goAway
  | windowUpdate
  | other (code : UInt8)
  deriving DecidableEq

def H2FrameType.ofCode (code : UInt8) : H2FrameType :=
  if code = 0 then data
  else if code = 1 then headers
  else if code = 4 then settings
  else if code = 6 then ping
  else if code = 7 then goAway
  else if code = 8 then windowUpdate
  else other code

/-- A frame, without its length. -/
structure H2Frame where
  type : H2FrameType
  flags : UInt8
  streamId : ℕ
  payload : Bytes

def H2Frame.endOrAck (frame : H2Frame) : Bool := frame.flags &&& 1 != 0

namespace H2Codec

def headerSize : ℕ := 9

variable (buffer : Bytes)

def declaredLength : ℕ := BigEndian.value (buffer.take 3)

def frameAt : H2Frame where
  type := .ofCode (buffer.getD 3 0)
  flags := buffer.getD 4 0
  -- the first bit of the stream is reserved
  streamId := BigEndian.value ((buffer.drop 5).take 4) % 2 ^ 31
  payload := (buffer.drop headerSize).take (declaredLength buffer)

/-- The frame at the front of a buffer and what is behind it, if the buffer
holds all of it. -/
def takeFrame : Option (H2Frame × Bytes) :=
  if buffer.length < headerSize ∨ buffer.length < headerSize + declaredLength buffer then none
  else some (frameAt buffer, buffer.drop (headerSize + declaredLength buffer))

variable {buffer}

theorem declaredLength_append (h : headerSize ≤ buffer.length)
    (more : Bytes) : declaredLength (buffer ++ more) = declaredLength buffer := by
  unfold declaredLength
  rw [take_append_of_le_length]
  exact le_trans (by decide) h

theorem frameAt_append
    (h : headerSize + declaredLength buffer ≤ buffer.length) (more : Bytes) :
    frameAt (buffer ++ more) = frameAt buffer := by
  have hsz : headerSize ≤ buffer.length := by omega
  have hlen := declaredLength_append hsz more
  unfold headerSize at h hsz
  have hget (i : ℕ) (hi : i < 9) : (buffer ++ more).getD i 0 = buffer.getD i 0 := by
    rw [getD_eq_getElem?_getD, getElem?_append_left (by omega), getD_eq_getElem?_getD]
  unfold frameAt
  rw [hlen, hget 3 (by omega), hget 4 (by omega),
    drop_append_of_le_length (by omega : 5 ≤ buffer.length),
    take_append_of_le_length (by rw [length_drop]; omega), headerSize,
    drop_append_of_le_length hsz,
    take_append_of_le_length (by rw [length_drop]; omega)]

/-- **The frames of HTTP/2.** -/
def framing : Framing UInt8 H2Frame where
  take := takeFrame
  shrinks := by
    intro _ _ _ h
    unfold takeFrame at h
    split at h
    · cases h
    · next hcomplete =>
      cases h
      rw [length_drop]
      unfold headerSize at hcomplete ⊢
      omega
  stable := by
    intro _ _ _ h _
    unfold takeFrame at h ⊢
    split at h
    · cases h
    · next hcomplete =>
      cases h
      obtain ⟨hsize, hwhole⟩ := not_or.mp hcomplete
      rw [not_lt] at hsize hwhole
      rw [declaredLength_append hsize, frameAt_append hwhole,
        drop_append_of_le_length hwhole, if_neg]
      rw [length_append]
      omega

/-- **Take off the frames that are complete.** -/
def takeCompleteFrames (buffer : Bytes) : List H2Frame × Bytes :=
  framing.takeAll buffer

/-! ## Headers -/

abbrev H2Headers := List (String × String)

def headerValues (headers : H2Headers) (name : String) : List String :=
  (headers.filter fun header => header.1 = name).map Prod.snd

def status (headers : H2Headers) : Option ℕ :=
  (headerValues headers ":status").findSome? fun value =>
    (fromChars value).filter fun code => 100 ≤ code ∧ code ≤ 599

def controlRetryAfterSeconds (headers : H2Headers) : Option ℕ :=
  (headerValues headers "retry-after").findSome? fromChars

end H2Codec

end Tailgate
