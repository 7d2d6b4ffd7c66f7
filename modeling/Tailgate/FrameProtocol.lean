import Tailgate.BigEndian
import Tailgate.StreamDecoding

/-!
# Relay frames

A relay and its client exchange *frames*: a type and a payload of at most a
mebibyte, behind a header of twelve bytes. A decoder reads them out of a
`ReadBuffer`, a buffer and how much of it is consumed.

The encoding of a frame at the front is recognised whatever follows it
(`ReadBuffer.nextFrame_of_wire`), and less than one is left as it is
(`ReadBuffer.nextFrame_of_unfinished`).
-/

namespace Tailgate

open StreamDecoding List BigEndian

/-- The types of frames. -/
inductive MessageType
  | authenticate
  | authenticated
  | rejected
  | networkMap
  | clientPacket
  | serverPacket
  | status
  | ping
  | pong
  | heartbeat
  | shutdown
  | error
  | serverChallenge
  | derpChallenge
  | derpResponse
  | tailnetDnsQuery
  | tailnetDnsResponse
  | peerEndpoint
  | dataPathReady
  | serverEndpointCandidates
  | pumpSchedule
  | pump
  | fragment
  | delegation
  | delegationReply
  | networkMapAck
  deriving DecidableEq

namespace MessageType

def code : MessageType → ℕ
  | authenticate => 1
  | authenticated => 2
  | rejected => 3
  | networkMap => 4
  | clientPacket => 5
  | serverPacket => 6
  | status => 7
  | ping => 8
  | pong => 9
  | heartbeat => 10
  | shutdown => 11
  | error => 12
  | serverChallenge => 13
  | derpChallenge => 14
  | derpResponse => 15
  | tailnetDnsQuery => 16
  | tailnetDnsResponse => 17
  | peerEndpoint => 18
  | dataPathReady => 19
  | serverEndpointCandidates => 20
  | pumpSchedule => 21
  | pump => 22
  | fragment => 23
  | delegation => 24
  | delegationReply => 25
  | networkMapAck => 26

def all : List MessageType :=
  [authenticate, authenticated, rejected, networkMap, clientPacket, serverPacket, status, ping,
    pong, heartbeat, shutdown, error, serverChallenge, derpChallenge, derpResponse,
    tailnetDnsQuery, tailnetDnsResponse, peerEndpoint, dataPathReady, serverEndpointCandidates,
    pumpSchedule, pump, fragment, delegation, delegationReply, networkMapAck]

def ofCode (value : ℕ) : Option MessageType :=
  all.find? fun type => type.code = value

theorem ofCode_code (type : MessageType) : ofCode type.code = some type := by
  cases type <;> rfl

theorem code_of_ofCode {value : ℕ} {type : MessageType} (h : ofCode value = some type) :
    type.code = value := by
  simpa using find?_some h

theorem code_lt (type : MessageType) : type.code < 256 ^ 2 := by
  cases type <;> decide

end MessageType

inductive PacketFramingErrorCode
  | invalidCapacity
  | invalidFragment
  | overlappingFragment
  | windowExceeded
  | nestedFragment
  | mixedFraming
  deriving DecidableEq

inductive ProtocolError
  | payloadTooLarge
  | unknownType
  | invalidMagic
  | unsupportedFlags
  | payloadLimit
  | bufferLimit
  | zeroReadSize
  | framing (code : PacketFramingErrorCode)
  deriving DecidableEq

/-- **A frame** of a relay. -/
structure Frame where
  type : MessageType
  payload : Bytes
  deriving DecidableEq

namespace Frame

def headerSize : ℕ := 12

def maximumPayloadSize : ℕ := 1024 * 1024

def maximumEncodedSize : ℕ := headerSize + maximumPayloadSize

def magic : Bytes := [84, 71, 82, 49]

variable (f : Frame) (output : Bytes)

def append16 (value : ℕ) : Bytes :=
  output ++ BigEndian.bytes 2 value

def append32 (value : ℕ) : Bytes :=
  output ++ BigEndian.bytes 4 value

def read16 (data : Bytes) : ℕ :=
  value (data.take 2)

def read32 (data : Bytes) : ℕ :=
  value (data.take 4)

def encodedSize : Except ProtocolError ℕ :=
  if f.payload.length > maximumPayloadSize ∨ f.payload.length > 2 ^ 32 - 1 then
    .error .payloadTooLarge
  else
    .ok (headerSize + f.payload.length)

def appendTo : Bytes :=
  append32 (append16 (append16 (output ++ magic) f.type.code) 0) f.payload.length ++ f.payload

def encode : Except ProtocolError Bytes := do
  let _ ← f.encodedSize
  pure (f.appendTo [])

def encodeAll (fs : List Frame) : Except ProtocolError Bytes := do
  let _ ← fs.mapM encodedSize
  pure (fs.foldl (fun output f => f.appendTo output) [])

/-! ## Encodings -/

def Valid : Prop := f.payload.length ≤ maximumPayloadSize

instance (f : Frame) : Decidable f.Valid := inferInstanceAs (Decidable (_ ≤ _))

def header (type : MessageType) (size : ℕ) : Bytes :=
  magic ++ (BigEndian.bytes 2 type.code ++ (BigEndian.bytes 2 0 ++ BigEndian.bytes 4 size))

def wire : Bytes :=
  header f.type f.payload.length ++ f.payload

@[simp]
theorem length_header (type : MessageType) (size : ℕ) : (header type size).length = headerSize := by
  simp [header, magic, headerSize]

@[simp]
theorem length_wire : f.wire.length = headerSize + f.payload.length := by
  simp [wire]

theorem wire_ne_nil : f.wire ≠ [] := by
  have h : 0 < f.wire.length := by
    rw [length_wire]
    unfold headerSize
    omega
  exact length_pos_iff.mp h

theorem length_wire_le {f : Frame} (h : f.Valid) : f.wire.length ≤ maximumEncodedSize := by
  rw [length_wire]
  exact Nat.add_le_add_left h _

theorem appendTo_eq : f.appendTo output = output ++ f.wire := by
  simp [appendTo, append16, append32, wire, header]

theorem encodedSize_of_valid {f : Frame} (h : f.Valid) : f.encodedSize = .ok f.wire.length := by
  have hle : f.payload.length ≤ 1048576 := h
  unfold encodedSize maximumPayloadSize
  rw [if_neg (by omega), length_wire]

theorem encodedSize_of_not_valid {f : Frame} (h : ¬f.Valid) :
    f.encodedSize = .error .payloadTooLarge :=
  if_pos (.inl (not_le.mp h))

variable {bytes : Bytes} {fs : List Frame}

/-- **A frame is encoded exactly when its payload is not too large.** -/
theorem encode_eq_ok {f : Frame} : f.encode = .ok bytes ↔ f.Valid ∧ bytes = f.wire := by
  unfold encode
  by_cases h : f.Valid
  · rw [encodedSize_of_valid h, appendTo_eq]
    show Except.ok f.wire = Except.ok bytes ↔ _
    rw [Except.ok.injEq]
    exact ⟨fun he => ⟨h, he.symm⟩, fun he => he.2.symm⟩
  · rw [encodedSize_of_not_valid h]
    exact ⟨fun he => (nomatch he), fun he => absurd he.1 h⟩

theorem foldl_appendTo (fs : List Frame) (output : Bytes) :
    fs.foldl (fun output f => f.appendTo output) output = output ++ fs.flatMap wire := by
  induction fs generalizing output with
  | nil => simp
  | cons _ _ ih => rw [foldl_cons, ih, appendTo_eq, flatMap_cons, append_assoc]

theorem mapM_encodedSize_eq_ok {sizes : List ℕ}
    (h : fs.mapM encodedSize = .ok sizes) : ∀ f ∈ fs, f.Valid := by
  induction fs generalizing sizes with
  | nil => exact fun f hf => nomatch hf
  | cons f fs ih =>
    rw [mapM_cons] at h
    by_cases hf : f.Valid
    · rw [encodedSize_of_valid hf] at h
      cases hrs : fs.mapM encodedSize with
      | error =>
        rw [hrs] at h
        cases h
      | ok => exact forall_mem_cons.mpr ⟨hf, ih hrs⟩
    · rw [encodedSize_of_not_valid hf] at h
      cases h

theorem mapM_encodedSize (h : ∀ f ∈ fs, f.Valid) :
    fs.mapM encodedSize = .ok (fs.map fun f => f.wire.length) := by
  induction fs with
  | nil => rfl
  | cons _ _ ih =>
    have hs := forall_mem_cons.mp h
    rw [mapM_cons, encodedSize_of_valid hs.1, ih hs.2]
    rfl

/-- **Frames are encoded exactly when none has too large a payload**, and
then back to back. -/
theorem encodeAll_eq_ok :
    encodeAll fs = .ok bytes ↔ (∀ f ∈ fs, f.Valid) ∧ bytes = fs.flatMap wire := by
  unfold encodeAll
  constructor
  · intro h
    cases hsz : fs.mapM encodedSize with
    | error =>
      rw [hsz] at h
      cases h
    | ok =>
      rw [hsz, foldl_appendTo] at h
      exact ⟨mapM_encodedSize_eq_ok hsz, (Except.ok.inj h).symm⟩
  · rintro ⟨hvd, rfl⟩
    rw [mapM_encodedSize hvd, foldl_appendTo]
    rfl

end Frame

/-! ## Reading frames -/

theorem unread_nil : 0 ≤ ([] : Bytes).length := Nat.zero_le _

/-- **A buffer whose front has been consumed**, together with how much of it
has been. -/
structure ReadBuffer where
  bytes : Bytes := []
  offset : ℕ := 0
  /-- No more is consumed than there is. -/
  offset_le : offset ≤ bytes.length := by first | exact unread_nil | simp

namespace ReadBuffer

open Frame

variable (b : ReadBuffer)

def pending : Bytes := b.bytes.drop b.offset

def compactThreshold : ℕ := 64 * 1024

def compact : ReadBuffer where
  bytes := b.bytes.drop b.offset
  offset := 0
  offset_le := Nat.zero_le _

variable (data : Bytes)

def append : ReadBuffer where
  bytes := b.bytes ++ data
  offset := b.offset
  offset_le := by
    have h := b.offset_le
    rw [length_append]
    omega

/-- The buffer as it is before it is fed: the consumed bytes are removed if
there are many of them, or nothing else. -/
def compacted : ReadBuffer :=
  if b.offset ≠ 0 ∧ (b.offset ≥ compactThreshold ∨ b.offset = b.bytes.length) then
    b.compact
  else
    b

def feed : EStateM ProtocolError ReadBuffer Unit := fun b =>
  if data.length = 0 then
    .ok () b
  else if data.length > maximumEncodedSize ∨
      b.compacted.bytes.length - b.compacted.offset > maximumEncodedSize - data.length then
    .error .bufferLimit b.compacted
  else
    .ok () (b.compacted.append data)

/-- **Take a frame off the front**, if a whole one is there. -/
def nextFrame : EStateM ProtocolError ReadBuffer (Option Frame) := fun b =>
  let available := b.bytes.length - b.offset
  let header := b.bytes.drop b.offset
  if available < headerSize then
    .ok none b
  else if header.take 4 ≠ magic then
    .error .invalidMagic b
  else
    match MessageType.ofCode (read16 (header.drop 4)) with
    | none => .error .unknownType b
    | some type =>
      let payloadSize := read32 (header.drop 8)
      if read16 (header.drop 6) ≠ 0 then
        .error .unsupportedFlags b
      else if payloadSize > maximumPayloadSize then
        .error .payloadLimit b
      else if h : available < headerSize + payloadSize then
        .ok none b
      else
        .ok (some ⟨type, (header.drop headerSize).take payloadSize⟩)
          { b with
            offset := b.offset + (headerSize + payloadSize)
            offset_le := by
              have hle := b.offset_le
              unfold headerSize at h ⊢
              omega }

/-! ## What is pending -/

theorem length_pending : b.pending.length = b.bytes.length - b.offset :=
  length_drop

@[simp]
theorem pending_compact : b.compact.pending = b.pending :=
  drop_zero

@[simp]
theorem pending_compacted : b.compacted.pending = b.pending := by
  unfold compacted
  split
  · exact b.pending_compact
  · rfl

@[simp]
theorem pending_append : (b.append data).pending = b.pending ++ data :=
  drop_append_of_le_length b.offset_le

variable {data b} {n : ℕ}

theorem feed_of_lt (hdt : data ≠ []) (h : maximumEncodedSize < b.pending.length + data.length) :
    ∃ b', feed data b = .error .bufferLimit b' := by
  have hpos := length_pos_iff.mpr hdt
  unfold feed
  rw [if_neg (by omega), ← length_pending, pending_compacted, if_pos (by omega)]
  exact ⟨_, rfl⟩

/-- Feeding appends what was read or, if it does not fit, leaves what is pending, and never
makes it more than the buffer may hold. -/
theorem feed_cases (b : ReadBuffer) (data : Bytes) :
    (∃ b', feed data b = .ok () b' ∧ b'.pending = b.pending ++ data
        ∧ (b.pending.length ≤ maximumEncodedSize → b'.pending.length ≤ maximumEncodedSize))
      ∨ ∃ e b', feed data b = .error e b' ∧ b'.pending = b.pending
        ∧ maximumEncodedSize < b.pending.length + data.length := by
  unfold feed
  by_cases hdt : data.length = 0
  · rw [if_pos hdt]
    refine .inl ⟨b, rfl, ?_, fun hle => hle⟩
    rw [length_eq_zero_iff.mp hdt, append_nil]
  · rw [if_neg hdt, ← length_pending, pending_compacted]
    by_cases hlm : data.length > maximumEncodedSize
        ∨ b.pending.length > maximumEncodedSize - data.length
    · rw [if_pos hlm]
      exact .inr ⟨_, _, rfl, pending_compacted b, by omega⟩
    · rw [if_neg hlm]
      have hpd : (b.compacted.append data).pending = b.pending ++ data := by
        rw [pending_append, pending_compacted]
      refine .inl ⟨_, rfl, hpd, fun _ => ?_⟩
      rw [hpd, length_append]
      omega

theorem feed_of_le (h : b.pending.length + data.length ≤ maximumEncodedSize) :
    ∃ b', feed data b = .ok () b' ∧ b'.pending = b.pending ++ data := by
  rcases b.feed_cases data with ⟨b', hfd, hpd, -⟩ | ⟨_, _, -, -, hlt⟩
  · exact ⟨b', hfd, hpd⟩
  · omega

/-! ## Reading back what was written -/

theorem read16_bytes (h : n < 256 ^ 2) (rest : Bytes) :
    read16 (BigEndian.bytes 2 n ++ rest) = n := by
  unfold read16
  rw [take_left' (length_bytes 2 n), value_bytes h]

theorem read32_bytes (h : n < 256 ^ 4) (rest : Bytes) :
    read32 (BigEndian.bytes 4 n ++ rest) = n := by
  unfold read32
  rw [take_left' (length_bytes 4 n), value_bytes h]

section Header

variable {b : ReadBuffer} {type : MessageType} {size : ℕ} {q : Bytes}

theorem available_of_header (h : b.pending = header type size ++ q) :
    b.bytes.length - b.offset = headerSize + q.length := by
  rw [← length_pending, h, length_append, length_header]

theorem lt_of_size (h : size ≤ maximumPayloadSize) : size < 256 ^ 4 := by
  unfold maximumPayloadSize at h
  omega

theorem take_header : (header type size ++ q).take 4 = magic := by
  simp [header, magic]

theorem drop_header_type : (header type size ++ q).drop 4
    = BigEndian.bytes 2 type.code ++ (BigEndian.bytes 2 0 ++ (BigEndian.bytes 4 size ++ q)) := by
  simp [header, magic]

theorem drop_header_flags : (header type size ++ q).drop 6
    = BigEndian.bytes 2 0 ++ (BigEndian.bytes 4 size ++ q) := by
  show ((header type size ++ q).drop 4).drop 2 = _
  rw [drop_header_type, drop_left' (length_bytes 2 _)]

theorem drop_header_size : (header type size ++ q).drop 8 = BigEndian.bytes 4 size ++ q := by
  show ((header type size ++ q).drop 6).drop 2 = _
  rw [drop_header_flags, drop_left' (length_bytes 2 _)]

end Header

/-- **A header at the front** is understood whatever follows it: without the
whole payload behind it there is no frame yet. -/
theorem nextFrame_of_header {type : MessageType} {size : ℕ} {q : Bytes}
    (hsz : size ≤ maximumPayloadSize) (h : b.pending = header type size ++ q) :
    (q.length < size → nextFrame b = .ok none b) ∧ (size ≤ q.length →
      ∃ b', nextFrame b = .ok (some ⟨type, q.take size⟩) b' ∧ b'.pending = q.drop size) := by
  have hpy : (header type size ++ q).drop headerSize = q :=
    drop_left' (length_header _ _)
  unfold nextFrame
  simp only [show b.bytes.drop b.offset = _ from h, available_of_header h, take_header,
    drop_header_type, drop_header_flags, drop_header_size, hpy, read16_bytes type.code_lt,
    read16_bytes (show 0 < 256 ^ 2 by decide), read32_bytes (lt_of_size hsz),
    MessageType.ofCode_code]
  rw [if_neg (by omega), if_neg (by simp), if_neg (by simp), if_neg (by omega)]
  refine ⟨fun hq => dif_pos (by omega), fun hq => ?_⟩
  rw [dif_neg (by omega)]
  refine ⟨_, rfl, ?_⟩
  show b.bytes.drop (b.offset + (headerSize + size)) = q.drop size
  rw [← drop_drop, show b.bytes.drop b.offset = _ from h, ← drop_drop, hpy]

/-- **A frame at the front is taken off** whatever follows it. -/
theorem nextFrame_of_wire {f : Frame} {rest : Bytes} (hf : f.Valid)
    (h : b.pending = f.wire ++ rest) :
    ∃ b', nextFrame b = .ok (some f) b' ∧ b'.pending = rest := by
  rw [wire, append_assoc] at h
  obtain ⟨b', hnx, hpd⟩ := (nextFrame_of_header hf h).2 (by simp)
  rw [take_left] at hnx
  rw [drop_left] at hpd
  exact ⟨b', hnx, hpd⟩

theorem take_append_drop_add (bytes : Bytes) (offset count : ℕ) :
    (bytes.drop offset).take count ++ bytes.drop (offset + count) = bytes.drop offset := by
  rw [← drop_drop, take_append_drop]

/-- **A header and a payload are put together again** from what is read of them. -/
theorem wire_of_header {front : Bytes} {type : MessageType} (hmg : front.take 4 = magic)
    (hty : MessageType.ofCode (read16 (front.drop 4)) = some type)
    (hfl : read16 (front.drop 6) = 0)
    (hwh : headerSize + read32 (front.drop 8) ≤ front.length) :
    front = wire ⟨type, (front.drop headerSize).take (read32 (front.drop 8))⟩
      ++ front.drop (headerSize + read32 (front.drop 8)) := by
  have hhd : headerSize = 12 := rfl
  set size := read32 (front.drop 8) with hsz
  have hpy : ((front.drop headerSize).take size).length = size := by
    rw [length_take, length_drop]
    omega
  have hco : BigEndian.bytes 2 type.code = (front.drop 4).take 2 := by
    rw [MessageType.code_of_ofCode hty]
    exact BigEndian.bytes_value_of_length (by rw [length_take, length_drop]; omega)
  have hzero : BigEndian.bytes 2 0 = (front.drop 6).take 2 := by
    rw [← hfl]
    exact BigEndian.bytes_value_of_length (by rw [length_take, length_drop]; omega)
  have hct : BigEndian.bytes 4 size = (front.drop 8).take 4 :=
    BigEndian.bytes_value_of_length (by rw [length_take, length_drop]; omega)
  rw [wire, hpy, header, ← hmg, hco, hzero, hct, ← drop_drop, append_assoc, take_append_drop, hhd]
  simp only [append_assoc]
  rw [take_append_drop_add front 8 4, take_append_drop_add front 6 2,
    take_append_drop_add front 4 2, take_append_drop]

/-- **What comes of looking for a frame**: an error, nothing while there is less
than the largest frame, or a frame whose encoding is taken off. -/
theorem nextFrame_cases (b : ReadBuffer) : (∃ e, nextFrame b = .error e b)
    ∨ nextFrame b = .ok none b ∧ b.pending.length < maximumEncodedSize
    ∨ ∃ f b', nextFrame b = .ok (some f) b' ∧ f.Valid ∧ b.pending = f.wire ++ b'.pending := by
  have hpos : headerSize ≤ maximumEncodedSize := by decide
  unfold nextFrame
  dsimp only
  rw [length_pending]
  split
  case isTrue hsh => exact .inr (.inl ⟨rfl, by omega⟩)
  split
  case isTrue => exact .inl ⟨_, rfl⟩
  rename_i hmg
  split
  case h_1 => exact .inl ⟨_, rfl⟩
  rename_i type hty
  split
  case isTrue => exact .inl ⟨_, rfl⟩
  rename_i hfl
  split
  case isTrue => exact .inl ⟨_, rfl⟩
  rename_i hlm
  split
  case isTrue hwh =>
    refine .inr (.inl ⟨rfl, ?_⟩)
    unfold maximumEncodedSize
    omega
  have hlen : headerSize + read32 ((b.bytes.drop b.offset).drop 8)
      ≤ (b.bytes.drop b.offset).length := by
    rw [length_drop]
    omega
  refine .inr (.inr ⟨_, _, rfl, ?_, ?_⟩)
  · exact (length_take_le _ _).trans (not_lt.mp hlm)
  · unfold pending
    rw [← drop_drop]
    exact wire_of_header (not_not.mp hmg) hty (not_not.mp hfl) hlen

/-- **What is taken off is a frame's encoding.** -/
theorem wire_of_nextFrame {b b' : ReadBuffer} {f : Frame} (h : nextFrame b = .ok (some f) b') :
    f.Valid ∧ b.pending = f.wire ++ b'.pending := by
  rcases b.nextFrame_cases with ⟨_, he⟩ | ⟨hno, -⟩ | ⟨_, _, hso, hfr⟩
  · exact nomatch he.symm.trans h
  · exact nomatch hno.symm.trans h
  · obtain ⟨hf, rfl⟩ := EStateM.Result.ok.inj (hso.symm.trans h)
    exact Option.some.inj hf ▸ hfr

/-- **Less than a frame is left as it is.** -/
theorem nextFrame_of_unfinished (h : Unfinished wire Frame.Valid b.pending) :
    nextFrame b = .ok none b := by
  by_cases hhd : b.pending.length < headerSize
  · unfold nextFrame
    rw [length_pending] at hhd
    simp only [hhd, if_true]
  · rcases h with hnil | ⟨f, hf, hft, hlt⟩
    · rw [hnil] at hhd
      exact absurd (show 0 < headerSize by decide) hhd
    · -- all of the header is there, so what is pending is the header and some payload
      have hft : header f.type f.payload.length <+: b.pending :=
        prefix_of_prefix_length_le ⟨_, rfl⟩ hft (by
          rw [length_header]
          omega)
      obtain ⟨_, hq⟩ := hft
      refine (nextFrame_of_header hf hq.symm).1 ?_
      rw [← hq, length_append, length_header, length_wire] at hlt
      omega

end ReadBuffer

end Tailgate
