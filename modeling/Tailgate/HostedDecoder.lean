import Tailgate.PacketFraming

/-!
# The decoder of a relay connection

What is read goes into a buffer, and frames are taken off its front. The payloads
of fragments go through a `PacketReassembler` into a second buffer, off which
frames are taken; a connection has fragments throughout or not at all.

`next` is a loop that ends: a turn that does not return makes progress towards
what has been read but not reassembled (`load`).
-/

namespace Tailgate

open Procedure StreamDecoding List Frame ReadBuffer PacketReassembler

/-- **A decoder**, with its two buffers. -/
structure Decoder where
  buffer : ReadBuffer := {}
  fragments : PacketReassembler := {}
  stream : ReadBuffer := {}
  fragmented : Bool := false

inductive DecoderReadStatus
  | wouldBlock
  | closed
  deriving DecidableEq

structure DecoderReadResult where
  frames : List Frame := []
  status : DecoderReadStatus := .wouldBlock

namespace Decoder

def onBuffer {α : Type} (x : EStateM ProtocolError ReadBuffer α) :
    EStateM ProtocolError Decoder α :=
  within Decoder.buffer (fun b d => { d with buffer := b }) x

def onFragments {α : Type} (x : EStateM ProtocolError PacketReassembler α) :
    EStateM ProtocolError Decoder α :=
  within Decoder.fragments (fun r d => { d with fragments := r }) x

def onStream {α : Type} (x : EStateM ProtocolError ReadBuffer α) :
    EStateM ProtocolError Decoder α :=
  within Decoder.stream (fun b d => { d with stream := b }) x

section Parts

variable {α : Type} {d : Decoder} {a : α} {x : EStateM ProtocolError ReadBuffer α} {b : ReadBuffer}

theorem onBuffer_ok (h : x d.buffer = .ok a b) : onBuffer x d = .ok a { d with buffer := b } :=
  within_ok h

variable {e : ProtocolError}

theorem onBuffer_error (h : x d.buffer = .error e b) :
    onBuffer x d = .error e { d with buffer := b } :=
  within_error h

theorem onFragments_ok {x : EStateM ProtocolError PacketReassembler α} {r : PacketReassembler}
    (h : x d.fragments = .ok a r) : onFragments x d = .ok a { d with fragments := r } :=
  within_ok h

theorem onStream_ok (h : x d.stream = .ok a b) : onStream x d = .ok a { d with stream := b } :=
  within_ok h

theorem onStream_error (h : x d.stream = .error e b) :
    onStream x d = .error e { d with stream := b } :=
  within_error h

end Parts

def feed (data : Bytes) : EStateM ProtocolError Decoder Unit :=
  onBuffer (ReadBuffer.feed data)

def fromStream (frame : Frame) : EStateM ProtocolError Decoder (Option (Option Frame)) :=
  if frame.type = .fragment then
    throw (.framing .nestedFragment)
  else
    pure (some (some frame))

def extend (bytes : Bytes) : EStateM ProtocolError Decoder (Option (Option Frame)) := do
  modify fun d => { d with stream := d.stream.compact.append bytes }
  pure none

/-- A frame off the buffer is returned, unless it is a fragment or comes
between fragments. -/
def fromBuffer (frame : Frame) : EStateM ProtocolError Decoder (Option (Option Frame)) := do
  if frame.type ≠ .fragment then
    if (← get).fragmented then
      throw (.framing .mixedFraming)
    else
      pure (some (some frame))
  else do
    modify fun d => { d with fragmented := true }
    onFragments (accept frame.payload)
    pure none

/-- What is done once the stream is used up: a fragment is taken off the
buffer, or a frame. -/
def refill : EStateM ProtocolError Decoder (Option (Option Frame)) := do
  match ← onBuffer nextFrame with
  | none => pure (some none)
  | some frame => fromBuffer frame

/-- What is done without a whole frame in the stream: it is extended, if the
next range is there. -/
def reassemble : EStateM ProtocolError Decoder (Option (Option Frame)) := do
  let bytes ← onFragments take
  if bytes ≠ [] then
    extend bytes
  else
    refill

/-- **One turn** of the loop that looks for a frame: what to return, if the
loop is to end. -/
def turn : EStateM ProtocolError Decoder (Option (Option Frame)) := do
  match ← onStream nextFrame with
  | some frame => fromStream frame
  | none => reassemble

def load (d : Decoder) : ℕ := d.buffer.pending.length + d.fragments.bytes

/-- **The next frame**, if a whole one is there. -/
def next : EStateM ProtocolError Decoder (Option Frame) := fun d =>
  loop none turn (d.load + 1) d

def bufferedBytes (d : Decoder) : ℕ :=
  d.buffer.bytes.length - d.buffer.offset + (d.stream.bytes.length - d.stream.offset)
    + d.fragments.bufferedBytes

def drain : EStateM ProtocolError Decoder (List Frame) := fun d =>
  collect next (d.bufferedBytes + 1) d

/-- The frames that come in with what the connection gives to read, until it
gives nothing more for now or, with an empty read, is closed. -/
def readFrames : List Bytes → EStateM ProtocolError Decoder DecoderReadResult
  | [] => do
    let frames ← drain
    pure { frames }
  | input :: inputs => do
    let frames ← drain
    if input = [] then
      pure { frames, status := .closed }
    else do
      feed input
      let result ← readFrames inputs
      pure { result with frames := frames ++ result.frames }

/-- **Read the frames that are available**, from a connection that gives the
inputs to read, each of at most the given size. -/
def readAvailable (maximumReadSize : ℕ) (inputs : List Bytes) :
    EStateM ProtocolError Decoder DecoderReadResult :=
  if maximumReadSize = 0 then
    throw .zeroReadSize
  else
    readFrames inputs

/-! ## A turn that does not return makes progress -/

end Decoder

namespace PacketReassembler

theorem take_ok (r : PacketReassembler) :
    ∃ data r', take r = .ok data r' ∧ r.bytes = data.length + r'.bytes := by
  cases hfg : r.fragments with
  | nil => exact ⟨[], r, take_of_nil hfg, (Nat.zero_add _).symm⟩
  | cons first =>
    by_cases hoffset : first.offset = r.offset
    · refine ⟨_, _, take_of_next hfg hoffset, ?_⟩
      have hsum := r.bytes_eq
      rw [hfg, map_cons, sum_cons] at hsum
      show r.bytes = first.data.length + (r.bytes - first.data.length)
      omega
    · exact ⟨[], r, take_of_gap hfg hoffset, (Nat.zero_add _).symm⟩

theorem bytes_of_accept {r r' : PacketReassembler} {pl : Bytes}
    (h : accept pl r = .ok () r') : r'.bytes ≤ r.bytes + pl.length := by
  unfold accept at h
  split at h
  · cases h
  · split at h
    · cases h
    · split at h
      · cases h
      · split at h
        · cases h
        · obtain rfl := (EStateM.Result.ok.inj h).2
          show r.bytes + (pl.drop _).length ≤ _
          rw [length_drop]
          omega

end PacketReassembler

namespace Decoder

abbrev Progresses (P : Decoder → Prop) (n : ℕ)
    (x : EStateM ProtocolError Decoder (Option (Option Frame))) : Prop :=
  Meets P x (fun r d => r = none → d.load < n) (fun _ _ => True)

theorem progresses_fromBuffer (frame : Frame) (n : ℕ) :
    Progresses (fun d => d.load + headerSize + frame.payload.length ≤ n) n (fromBuffer frame) := by
  refine .ite (fun _ => ?_) fun _ => ?_
  · refine .bind (Q := fun _ _ => True) (.get fun _ _ => .intro) fun d => ?_
    exact .ite (fun _ => .throw fun _ _ => .intro) fun _ => .pure nofun
  · refine .bind (.modify (Q := fun _ (d : Decoder) =>
      d.load + headerSize + frame.payload.length ≤ n) fun d hd => hd) fun _ => ?_
    refine .bind (Q := fun _ (d : Decoder) => d.load < n) (.within fun d hd => ?_)
      fun _ => .pure fun d hd _ => hd
    cases hac : accept frame.payload d.fragments with
    | error => exact .intro
    | ok _ r =>
      have hby := bytes_of_accept hac
      unfold load headerSize at hd
      show d.buffer.pending.length + r.bytes < n
      omega

theorem progresses_refill (n : ℕ) : Progresses (fun d => d.load = n) n refill := by
  refine .bind (Q := fun fr (d : Decoder) => ∀ f ∈ fr,
    d.load + headerSize + f.payload.length ≤ n) (.within fun d hd => ?_) fun fr => ?_
  · rcases d.buffer.nextFrame_cases with ⟨_, hnx⟩ | ⟨hnx, -⟩ | ⟨f, b, hnx, -, hwr⟩
    · rw [hnx]
      exact .intro
    · rw [hnx]
      exact nofun
    · rw [hnx]
      intro _ hf'
      cases hf'
      have hlen := congrArg length hwr
      rw [length_append, length_wire] at hlen
      unfold load at hd
      show b.pending.length + d.fragments.bytes + headerSize + f.payload.length ≤ n
      omega
  · cases fr with
    | none => exact .pure nofun
    | some fr =>
      exact (progresses_fromBuffer fr n).pre fun d hd => hd fr rfl

theorem progresses_reassemble (n : ℕ) : Progresses (fun d => d.load = n) n reassemble := by
  refine .bind (Q := fun bs (d : Decoder) => d.load + bs.length = n)
    (.within fun d hd => ?_) fun bs => ?_
  · obtain ⟨data, r, htk, _⟩ := d.fragments.take_ok
    rw [htk]
    unfold load at hd
    show d.buffer.pending.length + r.bytes + data.length = n
    omega
  · refine .ite (fun hne => ?_) fun hnil => ?_
    · have hpos := length_pos_iff.mpr hne
      refine .bind (.modify (Q := fun _ (d : Decoder) => d.load < n) fun d hd => ?_)
        fun _ => .pure fun d hd _ => hd
      unfold load at hd ⊢
      show d.buffer.pending.length + d.fragments.bytes < n
      omega
    · rw [not_not.mp hnil]
      exact progresses_refill n

/-- **A turn that does not return makes progress.** -/
theorem load_lt_of_turn {d d' : Decoder} (h : turn d = .ok none d') : d'.load < d.load := by
  have htr : Progresses (fun s => s.load = d.load) d.load turn := by
    refine .bind (Keeps.frame _ (fun s _ hs => hs) fun _ _ _ => True.intro) fun fr => ?_
    cases fr with
    | none => exact progresses_reassemble _
    | some =>
      exact .ite (fun _ => .throw fun _ _ => .intro) fun _ => .pure nofun
  exact htr.of_ok rfl h rfl

/-! ## The loop, turn by turn -/

section Next

variable {d d' : Decoder}

theorem next_of_some {r : Option Frame} (h : turn d = .ok (some r) d') : next d = .ok r d' :=
  loop_some h

theorem next_of_none (h : turn d = .ok none d') : next d = next d' := by
  have hlt := load_lt_of_turn h
  unfold next
  rw [loop_none h]
  exact loop_eq_of_measure_lt (fun _ _ => load_lt_of_turn) hlt (Nat.lt_succ_self _)

end Next

/-! ## Connections without fragments -/

abbrev Plain (f : Frame) : Prop := f.Valid ∧ f.type ≠ .fragment

structure Unfragmented (d : Decoder) : Prop where
  fragments : d.fragments.fragments = []
  /-- There is no stream of fragments. -/
  stream : d.stream.pending = []
  fragmented : d.fragmented = false

theorem unfragmented_initial : Unfragmented {} := ⟨rfl, rfl, rfl⟩

theorem Unfragmented.turn_eq {d : Decoder} (h : Unfragmented d) : turn d = refill d := by
  have hsr : onStream nextFrame d = .ok none d :=
    onStream_ok (nextFrame_of_unfinished (.inl h.stream))
  have htk : onFragments take d = .ok [] d :=
    onFragments_ok (take_of_nil h.fragments)
  unfold turn
  rw [bind_ok hsr]
  show reassemble d = refill d
  unfold reassemble
  rw [bind_ok htk]
  rfl

/-- **Without fragments, the decoder tells frames apart as they come in.** -/
theorem decodes_unfragmented :
    Decodes wire Plain Unfragmented (fun _ => True) (fun d => d.buffer.pending) next where
  complete {d f rest} h hf hpd := by
    obtain ⟨b, hnx, hrs⟩ := nextFrame_of_wire hf.1 hpd
    refine ⟨{ d with buffer := b }, next_of_some ?_, ⟨h.fragments, h.stream, h.fragmented⟩, hrs⟩
    rw [h.turn_eq]
    unfold refill
    rw [bind_ok (onBuffer_ok hnx)]
    show fromBuffer f { d with buffer := b } = _
    unfold fromBuffer
    rw [if_pos hf.2]
    rw [h.fragmented]
    rfl
  unfinished {d} h hlf := by
    have hlf' : Unfinished wire Frame.Valid d.buffer.pending :=
      hlf.imp_right fun ⟨f, hf, hft⟩ => ⟨f, hf.1, hft⟩
    refine ⟨d, next_of_some ?_, h, .intro, rfl⟩
    have hbf : onBuffer nextFrame d = .ok none d :=
      onBuffer_ok (nextFrame_of_unfinished hlf')
    rw [h.turn_eq]
    unfold refill
    rw [bind_ok hbf]
    rfl

section Reading

variable {d : Decoder} {frames : List Frame}

/-- Draining returns the frames that are there and leaves the decoder caught
up. -/
theorem Unfragmented.drain (h : Unfragmented d) (hpl : ∀ f ∈ frames, Plain f)
    {future : Bytes} (hsp : d.buffer.pending ++ future = frames.flatMap wire) :
    ∃ done rest d', frames = done ++ rest ∧ drain d = .ok done d' ∧ Unfragmented d'
      ∧ d.buffer.pending = done.flatMap wire ++ d'.buffer.pending
      ∧ CaughtUp wire rest d'.buffer.pending future := by
  have htu : d.buffer.pending.length < d.bufferedBytes + 1 := by
    unfold bufferedBytes
    rw [length_pending]
    omega
  obtain ⟨done, rest, d', hfr, hcl, hd', -, hpd, hca⟩ :=
    decodes_unfragmented.collect (fun f _ => f.wire_ne_nil) h hpl hsp htu
  exact ⟨done, rest, d', hfr, hcl, hd', hpd, hca⟩

variable {data : Bytes} {n : ℕ} {inputs : List Bytes}

theorem Unfragmented.feed_of_le (h : Unfragmented d)
    (hle : d.buffer.pending.length + data.length ≤ maximumEncodedSize) :
    ∃ d', feed data d = .ok () d' ∧ Unfragmented d'
      ∧ d'.buffer.pending = d.buffer.pending ++ data := by
  obtain ⟨b, hfd, hpd⟩ := ReadBuffer.feed_of_le hle
  exact ⟨{ d with buffer := b }, onBuffer_ok hfd, ⟨h.fragments, h.stream, h.fragmented⟩, hpd⟩

theorem feed_of_lt (hdt : data ≠ [])
    (hlt : maximumEncodedSize < d.buffer.pending.length + data.length) :
    ∃ d', feed data d = .error .bufferLimit d' := by
  obtain ⟨b, hfd⟩ := ReadBuffer.feed_of_lt hdt hlt
  exact ⟨{ d with buffer := b }, onBuffer_error hfd⟩

/-- **Reads that fit.** With `n` bytes of the frames' encodings in, each
further read together with what is begun of the next frame is no larger than
the largest frame. -/
def Fits (frames : List Frame) : ℕ → List Bytes → Prop
  | _, [] => True
  | n, input :: inputs =>
    begun wire frames n + input.length ≤ maximumEncodedSize ∧ Fits frames (n + input.length) inputs

theorem fits_append {done rest : List Frame} :
    Fits (done ++ rest) ((done.flatMap wire).length + n) inputs ↔ Fits rest n inputs := by
  induction inputs generalizing n with
  | nil => exact .rfl
  | cons _ _ ih =>
    unfold Fits
    rw [begun_append, Nat.add_assoc, ih]

theorem Fits.begun_add_le {before after : List Bytes} {input : Bytes}
    (h : Fits frames n (before ++ input :: after)) :
    begun wire frames (n + before.flatten.length) + input.length ≤ maximumEncodedSize := by
  induction before generalizing n with
  | nil => exact h.1
  | cons _ _ ih =>
    have hrs := ih h.2
    rwa [flatten_cons, length_append, ← Nat.add_assoc]

/-- **Reading the encodings of frames**, cut anyhow: reads that fit give the
frames, and otherwise one of them is refused. -/
theorem Unfragmented.readFrames (h : Unfragmented d)
    (hpl : ∀ f ∈ frames, Plain f) (hin : ∀ input ∈ inputs, input ≠ [])
    (hsp : d.buffer.pending ++ inputs.flatten = frames.flatMap wire) :
    (Fits frames d.buffer.pending.length inputs → ∃ d', readFrames inputs d = .ok { frames } d')
      ∧ (¬Fits frames d.buffer.pending.length inputs →
        ∃ d', readFrames inputs d = .error .bufferLimit d') := by
  induction inputs generalizing d frames with
  | nil =>
    obtain ⟨_, _, d', rfl, hdrain, -, -, hca⟩ := h.drain hpl hsp
    refine ⟨fun _ => ⟨d', ?_⟩, fun hnot => absurd .intro hnot⟩
    rw [hca.eq_nil, append_nil]
    unfold Decoder.readFrames
    rw [bind_ok hdrain]
    rfl
  | cons input inputs ih =>
    have hit := hin input mem_cons_self
    have hrs := fun i hi => hin i (mem_cons_of_mem _ hi)
    obtain ⟨done, rest, d₁, rfl, hdrain, h₁, hpd, hca⟩ := h.drain hpl hsp
    have hpl' := fun f hf => hpl f (mem_append_right done hf)
    -- what fits is a matter of the frames that are left
    rw [hpd, length_append, fits_append]
    unfold Decoder.readFrames
    rw [bind_ok hdrain]
    simp only [hit, if_false]
    by_cases hle : d₁.buffer.pending.length + input.length ≤ maximumEncodedSize
    · obtain ⟨d₂, hfd, h₂, hpd₂⟩ := h₁.feed_of_le hle
      have hsp₂ : d₂.buffer.pending ++ inputs.flatten = rest.flatMap wire := by
        rw [hpd₂, append_assoc, ← flatten_cons]
        exact hca.split
      have hfi : Fits rest d₁.buffer.pending.length (input :: inputs)
          ↔ Fits rest d₂.buffer.pending.length inputs := by
        rw [hpd₂, length_append]
        exact and_iff_right (hca.begun_eq.symm ▸ hle)
      obtain ⟨hok, her⟩ := ih h₂ hpl' hrs hsp₂
      rw [hfi, bind_ok hfd]
      constructor
      · intro hfit
        obtain ⟨d₃, hrd⟩ := hok hfit
        rw [bind_ok hrd]
        exact ⟨d₃, rfl⟩
      · intro hnot
        obtain ⟨d₃, hrd⟩ := her hnot
        exact ⟨d₃, bind_error hrd⟩
    · obtain ⟨d₂, hfd⟩ := feed_of_lt hit (not_le.mp hle)
      constructor
      · intro hfit
        have hbg := hfit.1
        rw [hca.begun_eq] at hbg
        exact absurd hbg hle
      · intro _
        exact ⟨d₂, bind_error hfd⟩

end Reading

section Available

variable {frames : List Frame} {inputs : List Bytes} {maximumReadSize : ℕ}

theorem readAvailable_frames (hsz : maximumReadSize ≠ 0) (hty : ∀ f ∈ frames, f.type ≠ .fragment)
    (hed : encodeAll frames = .ok inputs.flatten) (hin : ∀ input ∈ inputs, input ≠ []) :
    (Fits frames 0 inputs → ∃ d, readAvailable maximumReadSize inputs {} = .ok { frames } d) ∧
      (¬Fits frames 0 inputs →
        ∃ d, readAvailable maximumReadSize inputs {} = .error .bufferLimit d) := by
  obtain ⟨hvd, hfl⟩ := encodeAll_eq_ok.mp hed
  unfold readAvailable
  rw [if_neg hsz]
  exact unfragmented_initial.readFrames (fun f hf => ⟨hvd f hf, hty f hf⟩) hin hfl

/-- **Reading frames without fragments.** A connection that gives the
encodings of frames to read, cut anyhow, gives exactly those frames – unless
a read, together with what is begun of the next frame, is larger than the
largest frame. -/
theorem readAvailable_frames_iff (hsize : maximumReadSize ≠ 0)
    (htype : ∀ f ∈ frames, f.type ≠ .fragment)
    (hencode : encodeAll frames = .ok inputs.flatten)
    (hinputs : ∀ input ∈ inputs, input ≠ [] ∧ input.length ≤ maximumReadSize) :
    (∃ d, readAvailable maximumReadSize inputs {} = .ok { frames } d) ↔ Fits frames 0 inputs := by
  have hne := fun input hi => (hinputs input hi).1
  obtain ⟨hok, her⟩ := readAvailable_frames hsize htype hencode hne
  refine ⟨fun ⟨d, hrd⟩ => ?_, hok⟩
  by_contra hnot
  obtain ⟨_, hrd'⟩ := her hnot
  rw [hrd] at hrd'
  cases hrd'

end Available

theorem readAvailable_mapAndHeartbeat :
    ∃ d, readAvailable 16384 [[84, 71, 82, 49, 0], [4, 0, 0, 0, 0, 0, 3, 1, 2],
        [3, 84, 71, 82, 49, 0, 5, 0, 0, 0, 0, 0, 1, 9, 84, 71],
        [82, 49, 0, 10, 0, 0, 0, 0, 0, 0]] {}
      = .ok { frames := [⟨.networkMap, [1, 2, 3]⟩, ⟨.clientPacket, [9]⟩, ⟨.heartbeat, []⟩] } d :=
  (readAvailable_frames_iff (by decide) (by decide) rfl (by decide)).mpr
    ⟨by decide, by decide, by decide, by decide, .intro⟩

theorem not_fits_largest {pl : Bytes} (hpy : pl.length = maximumPayloadSize)
    {syms : Bytes} (hlen : syms.length = 1048600) :
    ¬Fits [⟨.networkMap, pl⟩, ⟨.heartbeat, []⟩] 0 (reads 16384 65 syms) := by
  rw [reads_succ]
  intro h
  have hle := h.begun_add_le
  rw [flatten_reads, length_take, length_take, length_drop, hlen, begun_eq] at hle
  · unfold maximumEncodedSize headerSize maximumPayloadSize at hle
    omega
  · intro _ hf
    cases hf
    rw [length_wire, hpy]
    unfold headerSize maximumPayloadSize
    omega

/-- **A frame of the largest size may not come through.** Read 16 KiB at a
time, the last read brings the end of such a frame and the frame behind it,
and the two together are refused although each read is small. -/
theorem largest_frame_refused : ∃ (frames : List Frame) (inputs : List Bytes),
      (∀ f ∈ frames, f.type ≠ .fragment) ∧ encodeAll frames = .ok inputs.flatten
        ∧ (∀ input ∈ inputs, input ≠ [] ∧ input.length ≤ 16384)
        ∧ ∃ d, readAvailable 16384 inputs {} = .error .bufferLimit d := by
  obtain ⟨pl, hpy⟩ : ∃ pl : Bytes, pl.length = maximumPayloadSize :=
    ⟨replicate maximumPayloadSize 0, length_replicate⟩
  let frames : List Frame := [⟨.networkMap, pl⟩, ⟨.heartbeat, []⟩]
  have hvd : ∀ f ∈ frames, f.Valid := by
    intro _ hf
    rcases mem_pair.mp hf with rfl | rfl
    · exact hpy.le
    · exact Nat.zero_le _
  have hty : ∀ f ∈ frames, f.type ≠ .fragment := by
    intro _ hf
    rcases mem_pair.mp hf with rfl | rfl <;> exact nofun
  have hlen : (frames.flatMap wire).length = 1048600 := by
    rw [flatMap_cons, flatMap_cons, flatMap_nil, append_nil,
      length_append, length_wire, length_wire, hpy, length_nil]
    unfold headerSize maximumPayloadSize
    omega
  have hfl : (reads 16384 65 (frames.flatMap wire)).flatten = frames.flatMap wire := by
    rw [flatten_reads, take_of_length_le]
    omega
  have hin : ∀ input ∈ reads 16384 65 (frames.flatMap wire), input ≠ [] ∧ input.length ≤ 16384 :=
    fun _ hi => length_of_mem_reads (by decide) (by omega) hi
  have hed := encodeAll_eq_ok.mpr ⟨hvd, hfl⟩
  exact ⟨frames, _, hty, hed, hin, (readAvailable_frames (by decide) hty hed
    fun input hi => (hin input hi).1).2 (not_fits_largest hpy hlen)⟩

end Decoder

end Tailgate
