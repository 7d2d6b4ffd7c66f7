import Tailgate.HeaderSynchronisation

/-!
# The bytes of the stream of maps

What the server sends on the stream of maps is to get, byte by byte, into the
body that maps are taken off. It does exactly if no request finds any of it and
none is behind a frame that ends the search or whose answer does not get through
– provided that what has been put aside was whole frames without any.
-/

namespace Tailgate

open Procedure H2Codec PartialReads List

variable (streamId : ℕ)

def isDataOn (frame : H2Frame) : Bool :=
  frame.type = .data && frame.streamId == streamId

/-- **What some frames bring to a stream**: the payloads of its data, one
behind the other. -/
def dataOn (frames : List H2Frame) : Bytes :=
  (frames.filter (isDataOn streamId)).flatMap H2Frame.payload

theorem dataOn_append (sid : ℕ) (fs gs : List H2Frame) :
    dataOn sid (fs ++ gs) = dataOn sid fs ++ dataOn sid gs := by
  unfold dataOn
  rw [filter_append, flatMap_append]

def carries (frame : H2Frame) : Bool :=
  !frame.payload.isEmpty && isDataOn streamId frame

/-- **A batch is whole** if nothing for the stream of maps is behind a frame
its reader stops with, and its reader keeps all there is. -/
def Batch.Whole (b : Batch) : Prop :=
  b.answered.Pairwise (fun f g => b.reader.halts f = true → carries streamId g.1 = false) ∧
    ∀ f ∈ b.frames, carries streamId f = true → b.reader.keeps f = true

instance (streamId : ℕ) (b : Batch) : Decidable (b.Whole streamId) :=
  inferInstanceAs (Decidable (_ ∧ _))

/-- Nothing is lost with what a request puts aside if that is whole frames
with nothing for the stream of maps. -/
def Harmless (plaintext : Bytes) : Prop :=
  (takeCompleteFrames plaintext).2 = [] ∧ dataOn streamId (takeCompleteFrames plaintext).1 = []

instance (streamId : ℕ) (plaintext : Bytes) : Decidable (Harmless streamId plaintext) :=
  inferInstanceAs (Decidable (_ ∧ _))

def Reader.On : Reader → Prop
  | request _ => True
  | map searched => searched = streamId

/-! ## One batch -/

section Batches

variable {m : ℕ} {b : Batch}

theorem Reader.isDataOn_of_keeps {r : Reader} (hr : r.On m) {f : H2Frame}
    (h : r.keeps f = true) : isDataOn m f = true := by
  cases r with
  | request => cases h
  | map streamId =>
    obtain rfl : streamId = m := hr
    obtain ⟨hdt, hon⟩ := Bool.and_eq_true_iff.mp h
    exact Bool.and_eq_true_iff.mpr ⟨hdt, (Bool.and_eq_true_iff.mp hon).2⟩

theorem dataOn_eq (frs : List H2Frame) :
    dataOn m frs = (frs.filter (carries m)).flatMap H2Frame.payload := by
  unfold dataOn
  rw [← flatMap_filter, filter_filter]
  rfl

theorem Batch.appended_sublist (hr : b.reader.On m) : b.appended.Sublist (dataOn m b.frames) := by
  unfold Batch.appended dataOn Batch.read Batch.frames
  rw [filter_map, filter_map]
  exact ((filter_through_sublist (fun _ => Reader.isDataOn_of_keeps hr) b.answered).map _).flatMap _

/-- **A batch brings all of its data to the body exactly if it is whole.** -/
theorem Batch.appended_eq_iff (hr : b.reader.On m) :
    b.appended = dataOn m b.frames ↔ b.Whole m := by
  have hpc (f : H2Frame × Bool)
      (h : ((fun g : H2Frame => !g.payload.isEmpty && b.reader.keeps g) ∘ Prod.fst) f = true) :
      (carries m ∘ Prod.fst) f = true := by
    obtain ⟨hso, hkp⟩ := Bool.and_eq_true_iff.mp h
    exact Bool.and_eq_true_iff.mpr ⟨hso, Reader.isDataOn_of_keeps hr hkp⟩
  have hso (f : H2Frame × Bool) (hf : f ∈ b.answered.filter (carries m ∘ Prod.fst)) :
      f.1.payload ≠ [] := by
    have hcr := (mem_filter.mp hf).2
    simpa using (Bool.and_eq_true_iff.mp hcr).1
  unfold Batch.appended Batch.read Batch.Whole Batch.frames
  rw [dataOn_eq, ← flatMap_filter, filter_filter, filter_map, filter_map, flatMap_map, flatMap_map,
    flatMap_eq_iff (filter_through_sublist hpc b.answered) hso, filter_through_eq_iff hpc,
    forall_mem_map]
  refine and_congr_right fun _ => forall₃_congr fun f _ hcr => ?_
  show (!f.1.payload.isEmpty && b.reader.keeps f.1) = true ↔ _
  rw [(Bool.and_eq_true_iff.mp hcr).1, Bool.true_and]

theorem dataOn_flatMap (bs : List Batch) :
    dataOn m (bs.flatMap Batch.frames) = bs.flatMap fun b => dataOn m b.frames := by
  unfold dataOn
  rw [filter_flatMap, flatMap_assoc]

end Batches

/-! ## Along a run -/

/-- What has been put behind the body, and what has arrived, is accounted
for. -/
structure View.Tracks (m : ℕ) (v : View) : Prop where
  /-- The stream of maps stays the same. -/
  stream : v.stream = m
  /-- What has been put behind the body is what the batches brought. -/
  appended : v.trace.appended = v.trace.batches.flatMap Batch.appended
  /-- The search for maps has been on the stream of maps. -/
  searched : ∀ b ∈ v.trace.batches, b.reader.On m
  /-- What has arrived for the stream of maps has been taken off the buffer or
  is still there. -/
  data : dataOn m (takeCompleteFrames v.trace.arrived).1 =
    dataOn m v.trace.extracted ++ dataOn m (takeCompleteFrames v.buffer).1
  /-- What is left at the end is the beginning of the same frame. -/
  left : (takeCompleteFrames v.trace.arrived).2 = (takeCompleteFrames v.buffer).2

/-- The stream of maps stays the same, and what has been put aside stays so. -/
theorem ReadStep.frame {v v' : View} (h : ReadStep v v') :
    v'.stream = v.stream ∧ ∀ p ∈ v.trace.dropped, p ∈ v'.trace.dropped := by
  cases h with
  | dropped => exact ⟨rfl, fun p hp => mem_append_left _ hp⟩
  | requested | inserted | searched => exact ⟨rfl, fun _ hp => hp⟩

namespace View.Tracks

variable {m : ℕ} {t : Trace} {buffer : Bytes} {s : ℕ}

theorem insert (h : Tracks m ⟨t, buffer, s⟩) (pt : Bytes) :
    Tracks m ⟨t.receive pt, buffer ++ pt, s⟩ := by
  have har := H2Codec.framing.takeAll_append t.arrived pt
  have hbf := H2Codec.framing.takeAll_append buffer pt
  have hdt := h.data
  have hlf := h.left
  unfold takeCompleteFrames at hdt hlf
  refine ⟨h.stream, h.appended, h.searched, ?_, ?_⟩
  · unfold takeCompleteFrames Trace.receive
    rw [har, hbf]
    rw [dataOn_append, dataOn_append, hdt, hlf, append_assoc]
    rfl
  · unfold takeCompleteFrames Trace.receive
    rw [har, hbf, hlf]

theorem read (h : Tracks m ⟨t, buffer, s⟩) {b : Batch} (hr : b.reader.On m)
    (hb : b.frames = (takeCompleteFrames buffer).1) :
    Tracks m ⟨t.read b, (takeCompleteFrames buffer).2, s⟩ := by
  have hem := Framing.takeAll_of_none (Framing.take_takeAll (F := H2Codec.framing) buffer)
  refine ⟨h.stream, ?_, ?_, ?_, ?_⟩
  · unfold Trace.read
    rw [h.appended, flatMap_append, flatMap_singleton]
  · intro b' hb'
    obtain hb' | hb' := mem_append.mp hb'
    · exact h.searched b' hb'
    · obtain rfl := mem_singleton.mp hb'
      exact hr
  · have hex : (t.read b).extracted = t.extracted ++ (takeCompleteFrames buffer).1 := by
      unfold Trace.extracted Trace.read
      rw [flatMap_append, flatMap_singleton, hb]
    rw [hex, dataOn_append, show takeCompleteFrames (takeCompleteFrames buffer).2 =
      ([], (takeCompleteFrames buffer).2) from hem]
    exact h.data.trans (append_nil _).symm
  · exact h.left.trans (congrArg Prod.snd hem).symm

theorem drop (h : Tracks m ⟨t, [], s⟩) {pt : Bytes} (hp : Harmless m pt) :
    Tracks m ⟨{ t.receive pt with dropped := t.dropped ++ [pt] }, [], s⟩ := by
  have har := H2Codec.framing.takeAll_append t.arrived pt
  have hno : (H2Codec.framing.takeAll t.arrived).2 = [] := h.left
  rw [hno, nil_append] at har
  refine ⟨h.stream, h.appended, h.searched, ?_, ?_⟩
  · unfold Trace.receive
    rw [show takeCompleteFrames (t.arrived ++ pt) = _ from har]
    rw [dataOn_append, show dataOn m (H2Codec.framing.takeAll pt).1 = [] from hp.2, append_nil]
    exact h.data
  · exact (congrArg Prod.snd har).trans hp.1

/-- **Reading keeps track**, if all that has been put aside is harmless. -/
theorem step {v v' : View} (h : v.Tracks m) (hsp : ReadStep v v')
    (hdr : ∀ p ∈ v'.trace.dropped, Harmless m p) : v'.Tracks m := by
  cases hsp with
  | dropped => exact h.drop (hdr _ (by simp))
  | requested _ pt hfr => exact (h.insert pt).read trivial hfr
  | inserted pt => exact h.insert pt
  | searched hfr => exact h.read h.stream hfr

end View.Tracks

namespace ControlConnection

variable {δ γ : Type} (decode : Bytes → δ → Option H2Headers × δ)
  (onMap : Bytes → EStateM ControlError (γ × ℕ) Bool)

def started (c : ControlConnection δ γ) : ControlConnection δ γ :=
  { after (setPreferredDerp decode) c with trace := { arrived := c.h2Buffer } }

/-- **A stream of maps and what happens to it**: it is started on any
connection, and then there is any call but the start of another. -/
def mapStreams : TransitionSystem (ControlConnection δ γ) Call where
  init c := ∃ c₀, c = started decode c₀
  step c call c' := call ≠ .setPreferredDerp ∧ c' = after (call.run decode onMap) c

variable {decode onMap} {m : ℕ}

structure Streams (decode : Bytes → δ → Option H2Headers × δ)
    (c : ControlConnection δ γ) : Prop where
  /-- The decoder has been given what has been decoded. -/
  decoding : ∃ d₀, Decoding decode d₀ c
  /-- The body of the stream of maps. -/
  aligned : Aligned c
  /-- What has arrived is accounted for, if all that has been put aside is
  harmless. -/
  tracks : (∀ p ∈ c.trace.dropped, Harmless c.mapResponse.streamId p) →
    c.view.Tracks c.mapResponse.streamId

theorem streams_started (c : ControlConnection δ γ) : Streams decode (started decode c) := by
  obtain ⟨_, hst⟩ := after_setPreferredDerp decode c
  unfold started
  rw [hst]
  refine ⟨⟨c.headerDecoder, rfl⟩, .refl, fun _ => ⟨rfl, rfl, ?_, rfl, rfl⟩⟩
  intro _ hb
  exact absurd hb not_mem_nil

variable {v v' : View} {c : ControlConnection δ γ}

theorem stream_of_steps (h : Relation.ReflTransGen ReadStep v v') : v'.stream = v.stream := by
  induction h with
  | refl => rfl
  | tail _ hsp ih => exact hsp.frame.1.trans ih

/-- **Reading keeps track**, step after step. -/
theorem tracks_of_steps (h : Relation.ReflTransGen ReadStep v v')
    (hv : (∀ p ∈ v.trace.dropped, Harmless m p) → v.Tracks m)
    (hdr : ∀ p ∈ v'.trace.dropped, Harmless m p) : v'.Tracks m := by
  induction h with
  | refl => exact hv hdr
  | tail _ hsp ih =>
    exact (ih fun p hp => hdr p (hsp.frame.2 p hp)).step hsp hdr

theorem Streams.call (h : Streams decode c) {call : Call}
    (hcl : call ≠ .setPreferredDerp) : Streams decode (after (call.run decode onMap) c) := by
  obtain ⟨d₀, hdc⟩ := h.decoding
  have hrd : Reads decode d₀ c.view (after (call.run decode onMap) c) :=
    Call.reads_after hcl hdc h.aligned
  have hsr : (after (call.run decode onMap) c).mapResponse.streamId =
      c.mapResponse.streamId := stream_of_steps hrd.steps
  refine ⟨⟨d₀, hrd.decoding⟩, hrd.aligned, ?_⟩
  rw [hsr]
  exact tracks_of_steps hrd.steps h.tracks

theorem streams_of_reachable (h : (mapStreams decode onMap).Reachable c) : Streams decode c := by
  refine TransitionSystem.invariant ?_ ?_ h
  · rintro _ ⟨c₀, rfl⟩
    exact streams_started c₀
  · rintro _ _ _ hc ⟨hcl, rfl⟩
    exact hc.call hcl

/-- **The bytes of the stream of maps are complete exactly if every batch is
whole.** What has arrived for the stream is what has been put behind the body,
and what is still in the buffer; and the body is always what is left of that
after some maps. -/
theorem map_bytes_complete_iff {c : ControlConnection δ γ}
    (h : (mapStreams decode onMap).Reachable c)
    (hdropped : ∀ p ∈ c.trace.dropped, Harmless c.mapResponse.streamId p) :
    MapStreamResponse.framing.Rest c.trace.appended c.mapResponse.body ∧
      (dataOn c.mapResponse.streamId (takeCompleteFrames c.trace.arrived).1 =
        c.trace.appended ++ dataOn c.mapResponse.streamId (takeCompleteFrames c.h2Buffer).1 ↔
          ∀ b ∈ c.trace.batches, b.Whole c.mapResponse.streamId) := by
  have hss := streams_of_reachable h
  have htr := hss.tracks hdropped
  refine ⟨hss.aligned, ?_⟩
  have hdt : dataOn c.mapResponse.streamId (takeCompleteFrames c.trace.arrived).1 =
      dataOn c.mapResponse.streamId c.trace.extracted ++
        dataOn c.mapResponse.streamId (takeCompleteFrames c.h2Buffer).1 := htr.data
  have hap : c.trace.appended = c.trace.batches.flatMap Batch.appended := htr.appended
  rw [hdt, append_cancel_right_eq, hap, eq_comm]
  unfold Trace.extracted
  have hsr : ∀ b ∈ c.trace.batches, b.reader.On c.mapResponse.streamId := htr.searched
  rw [dataOn_flatMap, flatMap_eq_flatMap_iff fun b hb => Batch.appended_sublist (hsr b hb)]
  exact forall₂_congr fun b hb => Batch.appended_eq_iff (hsr b hb)

/-! ## A request in between -/

/-- What some calls leave of a connection on which a stream of maps has been
started. -/
def streamCalls (calls : List Call) : ControlConnection ℕ Unit :=
  calls.foldl (fun c call => after (call.run counting answering) c)
    (started counting { headerDecoder := 0, maps := () })

theorem reachable_streamCalls {cs : List Call} (h : ∀ call ∈ cs, call ≠ .setPreferredDerp) :
    (mapStreams counting answering).Reachable (streamCalls cs) :=
  foldlRecOn cs _ (.init ⟨_, rfl⟩) fun _ hre call hcl => hre.step ⟨h call hcl, rfl⟩

/-- The headers of the response to a request on the second stream, which has
no body. -/
def secondResponse : Bytes := [0, 0, 1, 1, 5, 0, 0, 0, 3, 0x88]

def searchedStream : ControlConnection ℕ Unit :=
  streamCalls [.arrives mapAndHeaders, .pollNetworkMap]

theorem reachable_searchedStream : (mapStreams counting answering).Reachable searchedStream :=
  reachable_streamCalls (by decide)

theorem searched_bytes_complete : (∀ b ∈ searchedStream.trace.batches, b.Whole 1) ∧
      dataOn 1 (takeCompleteFrames searchedStream.trace.arrived).1 =
        searchedStream.trace.appended ++
          dataOn 1 (takeCompleteFrames searchedStream.h2Buffer).1 := by
  have hdr : ∀ p ∈ searchedStream.trace.dropped, Harmless 1 p := by
    decide +kernel
  have hwh : ∀ b ∈ searchedStream.trace.batches, b.Whole 1 := by decide +kernel
  exact ⟨hwh, (map_bytes_complete_iff reachable_searchedStream hdr).2.mpr hwh⟩

/-- **A request passes over a map**: what arrives for the stream of maps while
a response is waited for does not get to the body. -/
theorem request_loses_map :
    ∃ c : ControlConnection ℕ Unit, (mapStreams counting answering).Reachable c ∧
      dataOn 1 (takeCompleteFrames c.trace.arrived).1 = [1, 0, 0, 0, 0x21] ∧
      c.trace.appended = [] ∧ c.h2Buffer = [] ∧ c.mapResponse.streamId = 1 :=
  ⟨streamCalls [.arrives mapAndHeaders, .arrives secondResponse, .queryFeature, .pollNetworkMap],
    reachable_streamCalls (by decide), by decide +kernel, by decide +kernel, by decide +kernel,
    by decide +kernel⟩

end ControlConnection

end Tailgate
