import Tailgate.Framing
import Tailgate.PacketReassembly
import Tailgate.PacketReordering

/-!
# What a decoder is to deliver

What a decoder delivers in the end is a matter of the bytes alone, and
`reference` says what: the frames the bytes begin with, each of which is
delivered, refused or, if it is a fragment, offered to a reassembler, whose
output is a stream of its own.

`Follows` relates the decoder to the reference at any time: it has delivered
what the reference delivers for the frames it has taken off, but for the frames
that are in its second buffer or can be put there.
-/

namespace Tailgate

open Procedure List ReadBuffer PacketReassembler

/-! ## The frames that bytes begin with -/

namespace ReadBuffer

def front (bytes : Bytes) : Option (Frame × Bytes) :=
  match nextFrame { bytes := bytes } with
  | .ok (some f) b => some (f, b.pending)
  | _ => none

section Front

variable {b b' : ReadBuffer} {f : Frame} {bytes rest : Bytes}

/-- **There is a frame at the front exactly if the bytes begin with the
encoding of one.** -/
theorem front_eq_some_iff : front bytes = some (f, rest) ↔ f.Valid ∧ bytes = f.wire ++ rest := by
  unfold front
  constructor
  · intro h
    cases hnx : nextFrame { bytes := bytes } with
    | error =>
      rw [hnx] at h
      cases h
    | ok frame =>
      rw [hnx] at h
      cases frame with
      | none => cases h
      | some =>
        cases h
        exact wire_of_nextFrame hnx
  · rintro ⟨hf, hby⟩
    obtain ⟨_, hnx, hrs⟩ := nextFrame_of_wire (b := { bytes := bytes }) hf hby
    rw [hnx, ← hrs]

theorem front_of_some (h : nextFrame b = .ok (some f) b') :
    front b.pending = some (f, b'.pending) :=
  front_eq_some_iff.mpr (wire_of_nextFrame h)

/-- Where the buffer has no frame there is none at the front of what is
pending. -/
theorem front_of_ne (h : ∀ f b', nextFrame b ≠ .ok (some f) b') : front b.pending = none := by
  cases hft : front b.pending with
  | none => rfl
  | some res =>
    obtain ⟨hf, hby⟩ := front_eq_some_iff.mp (show front b.pending = some (res.1, res.2)
      from hft)
    obtain ⟨b', hnx, -⟩ := nextFrame_of_wire hf hby
    exact absurd hnx (h res.1 b')

end Front

def framing : Framing UInt8 Frame where
  take := front
  shrinks {bytes f rest} h := by
    have hlength := congrArg length (front_eq_some_iff.mp h).2
    have hpos := length_pos_iff.mpr f.wire_ne_nil
    rw [length_append] at hlength
    omega
  stable {bytes f rest} h c := by
    obtain ⟨hf, rfl⟩ := front_eq_some_iff.mp h
    exact front_eq_some_iff.mpr ⟨hf, append_assoc _ _ _⟩

end ReadBuffer

open ReadBuffer (framing)

/-! ## What a reassembler passes on -/

namespace PacketReassembler

/-- The reassembler once it has passed on what it can, in so many calls at
most. -/
def settleUpTo : ℕ → PacketReassembler → PacketReassembler
  | 0, r => r
  | n + 1, r =>
    match take r with
    | .ok [] r' => r'
    | .ok (_ :: _) r' => settleUpTo n r'
    | .error _ r' => r'

/-- **The reassembler once it has passed on what it can.** -/
def settle (r : PacketReassembler) : PacketReassembler := settleUpTo r.fragments.length r

section Settle

variable {r r' : PacketReassembler} {data : Bytes}

theorem settleUpTo_of_nil (h : take r = .ok [] r) (n : ℕ) : settleUpTo n r = r := by
  cases n with
  | zero => rfl
  | succ =>
    unfold settleUpTo
    rw [h]

theorem settle_of_nil (h : take r = .ok [] r) : settle r = r := settleUpTo_of_nil h _

theorem settle_of_next {first : Fragment} {rest : List Fragment}
    (h : r.fragments = first :: rest) (hoffset : first.offset = r.offset) :
    settle r = settle (r.passed first rest h hoffset) := by
  have hne : first.data ≠ [] := r.nonempty first (by rw [h]; exact mem_cons_self)
  have hlen : r.fragments.length = (r.passed first rest h hoffset).fragments.length + 1 := by
    rw [h]
    rfl
  unfold settle
  rw [hlen, settleUpTo, take_of_next h hoffset]
  cases hdt : first.data with
  | nil => exact absurd hdt hne
  | cons => rfl

end Settle

end PacketReassembler

/-! ## The reference -/

/-- **Where the reference parse stands.** -/
structure Reference where
  fragmented : Bool := false
  fragments : PacketReassembler := {}
  /-- What is left of the stream that was put together. -/
  stream : Bytes := []

namespace Reference

def plain (f : Frame) : Bool := decide (f.type ≠ .fragment)

variable (s : Reference) (frs : List Frame)

/-- What is done with one frame: where the parse stands then, and the frames
that are delivered. -/
def offer (f : Frame) : Reference × List Frame :=
  if f.type ≠ .fragment then (s, if s.fragmented then [] else [f])
  else
    match accept f.payload s.fragments with
    | .error _ _ => ({ s with fragmented := true }, [])
    | .ok _ r =>
      let parsed := framing.takeAll (s.stream ++ r.ready)
      ({ fragmented := true, fragments := r.settle, stream := parsed.2 }, parsed.1.filter plain)

def after (frames : List Frame) : Reference :=
  frames.foldl (fun s f => (s.offer f).1) s

def deliveries : Reference → List Frame → List Frame
  | _, [] => []
  | s, f :: frames => (s.offer f).2 ++ deliveries (s.offer f).1 frames

theorem after_append (more : List Frame) :
    s.after (frs ++ more) = (s.after frs).after more :=
  foldl_append

theorem deliveries_append (more : List Frame) :
    s.deliveries (frs ++ more) = s.deliveries frs ++ (s.after frs).deliveries more := by
  induction frs generalizing s with
  | nil => rfl
  | cons _ _ ih =>
    rw [cons_append, deliveries, deliveries, ih, append_assoc]
    rfl

theorem after_concat (f : Frame) :
    s.after (frs ++ [f]) = ((s.after frs).offer f).1 :=
  s.after_append frs [f]

theorem deliveries_concat (f : Frame) :
    s.deliveries (frs ++ [f]) = s.deliveries frs ++ ((s.after frs).offer f).2 := by
  rw [deliveries_append, deliveries, deliveries, append_nil]

theorem deliveries_plain {frames : List Frame} (h : ∀ f ∈ frames, f.type ≠ .fragment) :
    deliveries {} frames = frames := by
  induction frames with
  | nil => rfl
  | cons f frames ih =>
    obtain ⟨hf, h⟩ := forall_mem_cons.mp h
    rw [deliveries, offer, if_pos hf, ih h]
    rfl

end Reference

/-- **The reference parse**: the frames that bytes are to deliver. -/
def reference (bytes : Bytes) : List Frame :=
  Reference.deliveries {} (framing.takeAll bytes).1

/-- More bytes deliver more frames. -/
theorem reference_append (bytes more : Bytes) :
    reference bytes <+: reference (bytes ++ more) := by
  unfold reference
  rw [Framing.takeAll_append, Reference.deliveries_append]
  exact prefix_append _ _

theorem reference_frames {frames : List Frame} (hvd : ∀ f ∈ frames, f.Valid)
    (hty : ∀ f ∈ frames, f.type ≠ .fragment) : reference (frames.flatMap Frame.wire) = frames := by
  have htk : framing.takeAll (frames.flatMap Frame.wire) = (frames.map id, []) :=
    Framing.takeAll_flatMap fun f hf _ => ReadBuffer.front_eq_some_iff.mpr ⟨hvd f hf, rfl⟩
  rw [reference, htk, map_id, Reference.deliveries_plain hty]

namespace Decoder

open Reference

/-! ## The decoder follows the reference -/

def Taken (fed : Bytes) (done : List Frame) (pending : Bytes) : Prop :=
  framing.takeAll fed = (done ++ (framing.takeAll pending).1, (framing.takeAll pending).2)

def streamed (d : Decoder) : Bytes := d.stream.pending ++ d.fragments.ready

/-- **The decoder against the reference** after some frames. -/
structure Matches (delivered done : List Frame) (d : Decoder) : Prop where
  /-- Whether a fragment has been seen. -/
  fragmented_eq : (after {} done).fragmented = d.fragmented
  fragments_eq : (after {} done).fragments = d.fragments.settle
  stream_eq : (after {} done).stream = (framing.takeAll d.streamed).2
  /-- What has been delivered, and what is to be delivered from the stream. -/
  delivered_eq : delivered ++ (framing.takeAll d.streamed).1.filter Reference.plain
    = deliveries {} done

/-- **What a decoder holds is bounded.** -/
structure Bounded (d : Decoder) : Prop where
  buffer_le : d.buffer.pending.length ≤ Frame.maximumEncodedSize
  /-- What has been put together of the stream. -/
  stream_le : d.stream.pending.length ≤ Frame.maximumEncodedSize + maximumWindow
  window : d.fragments.InWindow

/-- **A decoder that has been fed and has delivered so much.** -/
def Follows (fed : Bytes) (delivered : List Frame) (d : Decoder) : Prop :=
  ∃ done, Taken fed done d.buffer.pending ∧ Matches delivered done d ∧ Bounded d

structure Idle (d : Decoder) : Prop where
  front_eq : framing.take d.stream.pending = none
  take_eq : take d.fragments = .ok [] d.fragments
  ready_eq : d.fragments.ready = []

section Turns

variable {fed : Bytes} {delivered done : List Frame} {d : Decoder}

theorem follows_start : Follows [] [] {} :=
  ⟨[], rfl, ⟨rfl, rfl, rfl, rfl⟩, Nat.zero_le _, Nat.zero_le _, nofun⟩

variable (h : Matches delivered done d)

include h

/-- A decoder with nothing to deliver from the stream is where the reference
is. -/
theorem Matches.of_idle (hil : Idle d) :
    after {} done = ⟨d.fragmented, d.fragments, d.stream.pending⟩
      ∧ delivered = deliveries {} done := by
  have hsd : framing.takeAll d.streamed = ([], d.stream.pending) := by
    unfold streamed
    rw [hil.ready_eq, append_nil]
    exact Framing.takeAll_of_none hil.front_eq
  have hdl := h.delivered_eq
  have hsr := h.stream_eq
  have hfg := h.fragments_eq
  rw [hsd] at hdl hsr
  rw [settle_of_nil hil.take_eq] at hfg
  constructor
  · cases haf : after {} done with
    | mk =>
      have hfr := h.fragmented_eq
      rw [haf] at hfr hfg hsr
      dsimp only at hfr hfg hsr
      rw [hfr, hfg, hsr]
  · simpa using hdl

theorem Matches.withBuffer (b : ReadBuffer) : Matches delivered done { d with buffer := b } :=
  ⟨h.fragmented_eq, h.fragments_eq, h.stream_eq, h.delivered_eq⟩

/-- **A frame off the stream**: what is to be delivered has it in front. -/
theorem Matches.takeStream {f : Frame} {b : ReadBuffer}
    (hnx : nextFrame d.stream = .ok (some f) b) :
    Matches (delivered ++ [f].filter Reference.plain) done { d with stream := b } := by
  have htk : framing.take d.streamed = some (f, b.pending ++ d.fragments.ready) :=
    framing.stable (front_of_some hnx) _
  have hall := Framing.takeAll_of_some htk
  refine ⟨h.fragmented_eq, h.fragments_eq, ?_, ?_⟩
  · rw [h.stream_eq, hall]
    rfl
  · rw [← h.delivered_eq, hall, append_assoc, ← filter_append]
    rfl

/-- **Bytes onto the stream**: what has been put together and what can be is the
same. -/
theorem Matches.extend {first : Fragment} {rest : List Fragment}
    (hfg : d.fragments.fragments = first :: rest)
    (hoffset : first.offset = d.fragments.offset)
    (hry : d.fragments.ready
      = first.data ++ (d.fragments.passed first rest hfg hoffset).ready) :
    Matches delivered done { d with
      fragments := d.fragments.passed first rest hfg hoffset
      stream := d.stream.compact.append first.data } := by
  have hsd : d.streamed = (d.stream.compact.append first.data).pending
      ++ (d.fragments.passed first rest hfg hoffset).ready := by
    unfold streamed
    rw [hry, pending_append, pending_compact, append_assoc]
  refine ⟨h.fragmented_eq, ?_, ?_, ?_⟩
  · rw [h.fragments_eq]
    exact settle_of_next hfg hoffset
  · rw [h.stream_eq, hsd]
    rfl
  · rw [← h.delivered_eq, hsd]
    rfl

omit h

theorem Taken.takeBuffer {pend rest : Bytes} {f : Frame} (h : Taken fed done pend)
    (hft : framing.take pend = some (f, rest)) : Taken fed (done ++ [f]) rest := by
  unfold Taken at h ⊢
  rw [h, Framing.takeAll_of_some hft, append_assoc, singleton_append]

theorem Taken.feed {pend : Bytes} (h : Taken fed done pend) (data : Bytes) :
    Taken (fed ++ data) done (pend ++ data) := by
  unfold Taken at h ⊢
  rw [framing.takeAll_append fed, framing.takeAll_append pend, h]
  simp only [append_assoc]

/-- **What a part of a turn is to do**: a frame it returns is delivered. -/
abbrev Delivers (fed : Bytes) (delivered : List Frame) (P : Decoder → Prop)
    (x : EStateM ProtocolError Decoder (Option (Option Frame))) : Prop :=
  Meets P x (fun r => Follows fed (delivered ++ r.join.toList)) (fun _ => Follows fed delivered)

theorem delivers_pure {P : Decoder → Prop} (h : ∀ d, P d → Follows fed delivered d)
    {r : Option (Option Frame)} (hr : r.join = none) : Delivers fed delivered P (pure r) := by
  refine .pure fun d hd => ?_
  rw [hr, Option.toList_none, append_nil]
  exact h d hd

theorem delivers_fromStream (f : Frame) :
    Delivers fed delivered (Follows fed (delivered ++ [f].filter Reference.plain))
      (fromStream f) := by
  refine .ite (fun hfr => .throw fun d hd => ?_)
    fun hpl => .pure fun d hd => ?_
  · have hno : [f].filter Reference.plain = [] := by simp [Reference.plain, hfr]
    rwa [hno, append_nil] at hd
  · have hone : [f].filter Reference.plain = [f] := by simp [Reference.plain, hpl]
    rwa [hone] at hd

def Took (fed : Bytes) (delivered : List Frame) (f : Frame) (d : Decoder) : Prop :=
  ∃ done, Taken fed (done ++ [f]) d.buffer.pending ∧ Matches delivered done d ∧ Bounded d ∧ Idle d

/-- **A fragment is offered to the reassembler.** -/
theorem Took.accept {f : Frame} (h : Took fed delivered f d) (hfr : f.type = .fragment) :
    match accept f.payload d.fragments with
    | .ok _ r => Follows fed delivered { d with fragmented := true, fragments := r }
    | .error _ r => Follows fed delivered { d with fragmented := true, fragments := r } := by
  obtain ⟨done, htn, hma, hbd, hil⟩ := h
  obtain ⟨haf, hdl⟩ := hma.of_idle hil
  have hpl : ¬f.type ≠ .fragment := not_not.mpr hfr
  rcases accept_cases d.fragments f.payload with ⟨had, hrun⟩ | ⟨_, hrun⟩
  · rw [hrun]
    refine ⟨done ++ [f], htn, ?_, hbd.buffer_le, hbd.stream_le,
      hbd.window.insert had⟩
    have hof : (after {} done).offer f
        = ({ fragmented := true
             fragments := (d.fragments.insert _ had).settle
             stream := (framing.takeAll (d.stream.pending
               ++ (d.fragments.insert _ had).ready)).2 },
          (framing.takeAll (d.stream.pending
            ++ (d.fragments.insert _ had).ready)).1.filter Reference.plain) := by
      rw [haf, offer, if_neg hpl, hrun]
    refine ⟨?_, ?_, ?_, ?_⟩
    · rw [after_concat, hof]
    · rw [after_concat, hof]
    · rw [after_concat, hof]
      rfl
    · rw [deliveries_concat, hof, ← hdl]
      rfl
  · rw [hrun]
    refine ⟨done ++ [f], htn, ?_, hbd.buffer_le, hbd.stream_le, hbd.window⟩
    have hof : (after {} done).offer f
        = (⟨true, d.fragments, d.stream.pending⟩, []) := by
      rw [haf, offer, if_neg hpl, hrun]
    refine ⟨?_, ?_, ?_, ?_⟩
    · rw [after_concat, hof]
    · rw [after_concat, hof]
      exact (settle_of_nil hil.take_eq).symm
    · rw [after_concat, hof]
      exact (congrArg Reference.stream haf).symm.trans hma.stream_eq
    · rw [deliveries_concat, hof, append_nil]
      exact hma.delivered_eq

/-- **A frame off the first buffer that is no fragment** is delivered, unless a
fragment has been seen. -/
theorem Took.plain {f : Frame} (h : Took fed delivered f d) (hpl : f.type ≠ .fragment) :
    Follows fed (delivered ++ if d.fragmented then [] else [f]) d := by
  obtain ⟨done, htn, hma, hbd, hil⟩ := h
  obtain ⟨haf, hdl⟩ := hma.of_idle hil
  have hof : (after {} done).offer f
      = (.after {} done, if d.fragmented then [] else [f]) := by
    rw [offer, if_pos hpl, haf]
  refine ⟨done ++ [f], htn, ⟨?_, ?_, ?_, ?_⟩, hbd⟩
  · rw [after_concat, hof]
    exact hma.fragmented_eq
  · rw [after_concat, hof]
    exact hma.fragments_eq
  · rw [after_concat, hof]
    exact hma.stream_eq
  · have hsd := hma.delivered_eq
    rw [← hdl] at hsd
    have hno : (framing.takeAll d.streamed).1.filter Reference.plain = [] := by
      simpa using hsd
    rw [deliveries_concat, hof, ← hdl, hno, append_nil]

theorem delivers_fromBuffer (f : Frame) :
    Delivers fed delivered (Took fed delivered f) (fromBuffer f) := by
  refine .ite (fun hpl => .look fun d hd => ?_) fun hft => ?_
  · have hfl := hd.plain hpl
    cases hfr : d.fragmented with
    | true =>
      rw [hfr] at hfl
      refine .throw fun d' hd' => ?_
      rw [hd']
      simpa using hfl
    | false =>
      rw [hfr] at hfl
      refine .pure fun d' hd' => ?_
      rw [hd']
      exact hfl
  · refine .bind (.modify (Q := fun _ d => ∃ d₀, Took fed delivered f d₀
      ∧ d = { d₀ with fragmented := true }) fun d hd => ⟨d, hd, rfl⟩) fun _ => ?_
    refine .bind (Q := fun _ => Follows fed delivered) (.within ?_) fun _ =>
      delivers_pure (fun _ hd => hd) rfl
    rintro _ ⟨d₀, hd₀, rfl⟩
    have hac := hd₀.accept (not_not.mp hft)
    cases hrun : accept f.payload d₀.fragments with
    | ok | error =>
      rw [hrun] at hac
      exact hac

def Rests (fed : Bytes) (delivered : List Frame) (d : Decoder) : Prop :=
  Follows fed delivered d ∧ Idle d

theorem delivers_refill : Delivers fed delivered (Rests fed delivered) refill := by
  refine .bind (Q := fun fr d => fr.elim (Follows fed delivered d)
    fun f => Took fed delivered f d) (.within ?_) fun fr => ?_
  · rintro d ⟨hfl, hil⟩
    rcases d.buffer.nextFrame_cases with ⟨_, hnx⟩ | ⟨hnx, -⟩ | ⟨_, b, hnx, -, hwr⟩
    · rw [hnx]
      exact hfl
    · rw [hnx]
      exact hfl
    · obtain ⟨done, htn, hma, hbd⟩ := hfl
      have hbf : b.pending.length ≤ Frame.maximumEncodedSize :=
        (hwr ▸ (suffix_append _ _).length_le).trans hbd.buffer_le
      rw [hnx]
      exact ⟨done, htn.takeBuffer (front_of_some hnx), hma.withBuffer b,
        ⟨hbf, hbd.stream_le, hbd.window⟩, hil.front_eq, hil.take_eq,
        hil.ready_eq⟩
  · cases fr with
    | none => exact delivers_pure (fun _ hd => hd) rfl
    | some f => exact delivers_fromBuffer f

def Waits (fed : Bytes) (delivered : List Frame) (d : Decoder) : Prop :=
  Follows fed delivered d ∧ framing.take d.stream.pending = none
    ∧ d.stream.pending.length < Frame.maximumEncodedSize

theorem delivers_reassemble : Delivers fed delivered (Waits fed delivered) reassemble := by
  refine .bind (Q := fun bytes d => (bytes = [] → Rests fed delivered d)
    ∧ (bytes ≠ [] → Follows fed delivered { d with stream := d.stream.compact.append bytes }))
    (.within ?_) fun bytes => ?_
  · rintro d ⟨⟨done, htn, hma, hbd⟩, hft, _⟩
    rcases d.fragments.take_cases with
      ⟨hry, htk⟩ | ⟨first, rest, hfg, hoffset, htk, hne, hry⟩
    · rw [htk]
      exact ⟨fun _ => ⟨⟨done, htn, hma, hbd⟩, hft, htk, hry⟩,
        fun hne => absurd rfl hne⟩
    · rw [htk]
      refine ⟨fun hnil => absurd hnil hne, fun _ => ?_⟩
      refine ⟨done, htn, hma.extend hfg hoffset hry, hbd.buffer_le, ?_,
        hbd.window.passed hfg hoffset⟩
      have hfi : first ∈ d.fragments.fragments := by
        rw [hfg]
        exact mem_cons_self
      have hsp := hbd.window first hfi
      rw [Fragment.stop, hoffset] at hsp
      show (d.stream.compact.append first.data).pending.length ≤ _
      rw [pending_append, pending_compact, length_append]
      omega
  · refine .ite (fun hne => ?_) fun hnil => ?_
    · refine .bind (Q := fun _ => Follows fed delivered) (.modify fun d hd => hd.2 hne)
        fun _ => delivers_pure (fun _ hd => hd) rfl
    · exact delivers_refill.pre fun d hd => hd.1 (not_not.mp hnil)

/-- **A turn follows the reference.** -/
theorem delivers_turn : Delivers fed delivered (Follows fed delivered) turn := by
  refine .bind (Q := fun fr d => fr.elim (Waits fed delivered d)
    fun f => Follows fed (delivered ++ [f].filter Reference.plain) d) (.within ?_)
    fun fr => ?_
  · rintro d hfl
    rcases d.stream.nextFrame_cases with ⟨_, hnx⟩ | ⟨hnx, hlt⟩ | ⟨f, b, hnx, -, hwr⟩
    · rw [hnx]
      exact hfl
    · rw [hnx]
      refine ⟨hfl, front_of_ne fun f b hso => ?_, hlt⟩
      rw [hnx] at hso
      cases hso
    · obtain ⟨done, htn, hma, hbd⟩ := hfl
      have hsr : b.pending.length
          ≤ Frame.maximumEncodedSize + maximumWindow :=
        (hwr ▸ (suffix_append _ _).length_le).trans hbd.stream_le
      rw [hnx]
      exact ⟨done, htn, hma.takeStream hnx, hbd.buffer_le, hsr, hbd.window⟩
  · cases fr with
    | none => exact delivers_reassemble
    | some f => exact delivers_fromStream f

/-- **The next frame follows the reference.** -/
theorem follows_next : Meets (Follows fed delivered) next
    (fun r => Follows fed (delivered ++ r.toList)) (fun _ => Follows fed delivered) := by
  intro d hd
  refine Meets.loop (Q := fun r : Option Frame => Follows fed (delivered ++ r.toList)) ?_ ?_
    (d.load + 1) d hd
  · intro _ _
    rwa [Option.toList_none, append_nil]
  · refine delivers_turn.post (fun r d h => ?_) fun _ _ h => h
    cases r with
    | none => simpa using h
    | some => exact h

/-- **Feeding follows the reference**: what is accepted has been fed. -/
theorem follows_feed (data : Bytes) : Meets (Follows fed delivered) (feed data)
    (fun _ => Follows (fed ++ data) delivered) (fun _ => Follows fed delivered) := by
  refine .within ?_
  rintro d ⟨done, htn, hma, hbd⟩
  rcases d.buffer.feed_cases data with ⟨b, hfd, hpd, hle⟩ | ⟨_, b, hfd, hpd, -⟩
  · rw [hfd]
    refine ⟨done, ?_, hma.withBuffer b, hle hbd.buffer_le, hbd.stream_le,
      hbd.window⟩
    rw [hpd]
    exact htn.feed data
  · rw [hfd]
    refine ⟨done, ?_, hma.withBuffer b, ?_, hbd.stream_le, hbd.window⟩
    · rw [hpd]
      exact htn
    · rw [hpd]
      exact hbd.buffer_le

end Turns

/-! ## A decoder without a frame -/

/-- **A decoder that holds no whole frame**, in any of its parts. -/
structure Exhausted (d : Decoder) : Prop where
  stream_eq : nextFrame d.stream = .ok none d.stream
  fragments_eq : take d.fragments = .ok [] d.fragments
  buffer_eq : nextFrame d.buffer = .ok none d.buffer

section Exhausted

variable {d d' : Decoder}

theorem Exhausted.next_eq (h : Exhausted d) : next d = .ok none d := by
  refine next_of_some ?_
  unfold turn
  rw [bind_ok (onStream_ok h.stream_eq)]
  dsimp only
  unfold reassemble
  rw [bind_ok (onFragments_ok h.fragments_eq), if_neg (not_not.mpr rfl)]
  unfold refill
  rw [bind_ok (onBuffer_ok h.buffer_eq)]
  rfl

/-- A frame that is taken off is returned, offered to the reassembler or
refused. -/
theorem fromBuffer_ne (f : Frame) : fromBuffer f d ≠ .ok (some none) d' := by
  have hmt : Meets (fun _ => True) (fromBuffer f) (fun r _ => r ≠ some none)
      (fun _ _ => True) := by
    refine .ite (fun _ => .look fun d _ => ?_) fun _ => ?_
    · exact .ite (fun _ => .throw fun _ _ => .intro)
        fun _ => .pure nofun
    · refine .bind (Q := fun _ _ => True) (.modify fun _ _ => .intro) fun _ => ?_
      refine .bind (Q := fun _ _ => True) (.within fun d _ => ?_)
        fun _ => .pure nofun
      cases accept f.payload d.fragments with
      | ok | error => exact .intro
  exact fun h => hmt.of_ok .intro h rfl

/-- **A turn that finds nothing leaves everything as it is.** -/
theorem exhausted_of_turn (h : turn d = .ok (some none) d') : d' = d ∧ Exhausted d := by
  unfold turn at h
  rcases d.stream.nextFrame_cases with ⟨_, hsr⟩ | ⟨hsr, -⟩ | ⟨f, _, hsr, -⟩
  · rw [bind_error (onStream_error hsr)] at h
    cases h
  · rw [bind_ok (onStream_ok hsr)] at h
    dsimp only at h
    unfold reassemble at h
    rcases d.fragments.take_cases with ⟨-, htk⟩ | ⟨_, _, _, _, htk, hne, -⟩
    · rw [bind_ok (onFragments_ok htk), if_neg (not_not.mpr rfl)] at h
      unfold refill at h
      rcases d.buffer.nextFrame_cases with ⟨_, hbf⟩ | ⟨hbf, -⟩ | ⟨f, _, hbf, -⟩
      · rw [bind_error (onBuffer_error hbf)] at h
        cases h
      · rw [bind_ok (onBuffer_ok hbf)] at h
        exact ⟨(EStateM.Result.ok.inj h).2.symm, hsr, htk, hbf⟩
      · rw [bind_ok (onBuffer_ok hbf)] at h
        exact absurd h (fromBuffer_ne f)
    · rw [bind_ok (onFragments_ok htk), if_pos hne] at h
      cases h
  · rw [bind_ok (onStream_ok hsr)] at h
    dsimp only [fromStream] at h
    split at h
    · cases h
    · cases h

/-- **A decoder that returned no frame holds none.** -/
theorem exhausted_of_next (h : next d = .ok none d') : Exhausted d' := by
  -- the turns before the last one make the load smaller
  induction hld : d.load using Nat.strong_induction_on generalizing d with
  | _ _ ih =>
    cases htr : turn d with
    | error e d'' =>
      have her : next d = .error e d'' := loop_error htr
      rw [her] at h
      cases h
    | ok r d'' =>
      cases r with
      | none =>
        rw [next_of_none htr] at h
        exact ih d''.load (hld ▸ load_lt_of_turn htr) h rfl
      | some =>
        rw [next_of_some htr] at h
        cases h
        obtain ⟨rfl, hex⟩ := exhausted_of_turn htr
        exact hex

end Exhausted

/-! ## Runs -/

inductive Call
  | feed (data : Bytes)
  | next

/-- **A decoder and what came of the calls made on it.** -/
structure Decoding where
  decoder : Decoder := {}
  fed : Bytes := []
  delivered : List Frame := []

namespace Decoding

def step (s : Decoding) : Call → Decoding
  | .feed data =>
    match feed data s.decoder with
    | .ok _ d => { s with decoder := d, fed := s.fed ++ data }
    | .error _ d => { s with decoder := d }
  | .next =>
    match next s.decoder with
    | .ok frame d => { s with decoder := d, delivered := s.delivered ++ frame.toList }
    | .error _ d => { s with decoder := d }

def run (calls : List Call) : Decoding := calls.foldl step {}

theorem follows_step {s : Decoding} (h : Follows s.fed s.delivered s.decoder) (call : Call) :
    Follows (s.step call).fed (s.step call).delivered (s.step call).decoder := by
  cases call with
  | feed data =>
    have hfd := follows_feed data s.decoder h
    rw [step]
    cases hrun : feed data s.decoder with
    | ok | error =>
      rw [hrun] at hfd
      exact hfd
  | next =>
    have hnx := follows_next s.decoder h
    rw [step]
    cases hrun : next s.decoder with
    | ok | error =>
      rw [hrun] at hnx
      exact hnx

theorem follows_run (cs : List Call) :
    Follows (run cs).fed (run cs).delivered (run cs).decoder :=
  foldlRecOn (motive := fun s => Follows s.fed s.delivered s.decoder) cs step follows_start
    fun _ h call _ => follows_step h call

end Decoding

def maximumBufferedBytes : ℕ :=
  2 * Frame.maximumEncodedSize + 2 * maximumWindow

theorem Bounded.bufferedBytes_le {d : Decoder} (h : Bounded d) :
    d.bufferedBytes ≤ maximumBufferedBytes := by
  have hbf := h.buffer_le
  have hsr := h.stream_le
  have hfg := h.window.bytes_le
  rw [length_pending] at hbf hsr
  unfold bufferedBytes maximumBufferedBytes
  show d.buffer.bytes.length - d.buffer.offset + (d.stream.bytes.length - d.stream.offset)
    + d.fragments.bytes ≤ _
  omega

theorem Follows.delivered_front {fed : Bytes} {delivered : List Frame} {d : Decoder}
    (h : Follows fed delivered d) : delivered <+: reference fed := by
  obtain ⟨_, htn, hma, -⟩ := h
  unfold reference
  rw [htn, deliveries_append, ← hma.delivered_eq, append_assoc]
  exact prefix_append _ _

/-- **A decoder is bounded and follows the reference**, whatever it is fed and
whenever it is asked: its offsets lie within its buffers, what it holds is
bounded, and the frames it has delivered are the first ones of the reference
parse of the bytes it has accepted. -/
theorem run_bounded (calls : List Call) :
    (Decoding.run calls).decoder.buffer.offset ≤ (Decoding.run calls).decoder.buffer.bytes.length
      ∧ (Decoding.run calls).decoder.stream.offset
        ≤ (Decoding.run calls).decoder.stream.bytes.length
      ∧ (Decoding.run calls).decoder.bufferedBytes ≤ maximumBufferedBytes
      ∧ (Decoding.run calls).delivered <+: reference (Decoding.run calls).fed := by
  have hfl := Decoding.follows_run calls
  obtain ⟨_, -, -, hbd⟩ := hfl
  exact ⟨offset_le _, offset_le _, hbd.bufferedBytes_le,
    (Decoding.follows_run calls).delivered_front⟩

end Decoder

end Tailgate
