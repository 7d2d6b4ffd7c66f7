import Tailgate.PacketFraming

/-!
# What a packet encoder sends

Frames are queued on a `PacketEncoder`, and between times it is asked for buffers
of whatever capacity the transport has. A `Sending` also records what the encoder
accepted and produced. The fragments produced tile the stream of the frames that
were accepted up to the encoder's offset, and the rest is what the encoder still
holds (`Sending.Covers`).
-/

namespace Tailgate

open List

namespace PacketEncoder

/-- **Queueing** appends to what is to be sent, or throws and does nothing. -/
theorem queue_cases (bytes : Bytes) (e : PacketEncoder) :
    (∃ error, queue bytes e = .error error e)
      ∨ ∃ e', queue bytes e = .ok () e' ∧ e'.offset = e.offset
        ∧ e'.remaining = e.remaining ++ bytes := by
  unfold queue
  split
  · exact .inl ⟨_, rfl⟩
  · split
    · rename_i hnil
      exact .inr ⟨e, rfl, rfl, by rw [hnil, append_nil]⟩
    · exact .inr ⟨_, rfl, rfl, drop_flatten_append e.queued⟩

theorem remaining_sent (e : PacketEncoder) (count : ℕ) (h : count ≤ 2 ^ 64 - 1 - e.offset) :
    (e.sent count h).remaining = e.remaining.drop count :=
  (consume_spec e.queued).2

/-- **A fragment is produced**: it starts where the encoder stands, carries
the front of what is to be sent and fits the buffer. -/
structure Emits (e : PacketEncoder) (capacity : ℕ) (t : Fragment) (e' : PacketEncoder) : Prop where
  /-- It starts where the encoder stands. -/
  offset_eq : t.offset = e.offset
  nonempty : t.data ≠ []
  valid : t.frame.Valid
  length_le : t.frame.wire.length ≤ capacity
  /-- It carries the front of what is to be sent. -/
  remaining_eq : e.remaining = t.data ++ e'.remaining
  stop_eq : e'.offset = t.stop

/-- **Asking for a buffer** produces a fragment, or nothing if nothing is to
be sent, or throws and does nothing. -/
theorem next_cases (capacity : ℕ) (e : PacketEncoder) :
    (∃ error, next capacity e = .error error e) ∨ next capacity e = .ok [] e
      ∨ ∃ t e', next capacity e = .ok t.frame.wire e' ∧ e.Emits capacity t e' := by
  by_cases hcp : capacity ≤ overhead
  · exact .inl ⟨_, if_pos hcp⟩
  by_cases hct : e.nextCount capacity = 0
  · refine .inr (.inl ?_)
    unfold next
    rw [if_neg hcp, if_pos hct]
  by_cases hoffset : e.nextCount capacity > 2 ^ 64 - 1 - e.offset
  · refine .inl ⟨.framing .invalidFragment, ?_⟩
    unfold next
    rw [if_neg hcp, if_neg hct, dif_pos hoffset]
  -- the remaining case: so many bytes from the front of what is to be sent
  have hle : e.nextCount capacity ≤ e.remaining.length := by
    show _ ≤ (e.pending.flatten.drop e.pendingOffset).length
    rw [← e.pendingBytes_eq]
    exact Nat.min_le_left _ _
  have hbn : e.nextCount capacity ≤ capacity - overhead
      ∧ e.nextCount capacity ≤ Frame.maximumPayloadSize - offsetSize :=
    le_min_iff.mp (Nat.min_le_right _ _)
  let t : Fragment := ⟨e.offset, e.remaining.take (e.nextCount capacity)⟩
  have hlen : t.data.length = e.nextCount capacity := length_take_of_le hle
  have hpy : t.payload.length = offsetSize + e.nextCount capacity := by
    unfold Fragment.payload
    rw [length_append, BigEndian.length_bytes, hlen]
  have hvd : t.frame.Valid := by
    show t.payload.length ≤ Frame.maximumPayloadSize
    omega
  have hed : (Frame.mk .fragment (BigEndian.bytes offsetSize e.offset
      ++ gather e.pending e.pendingOffset (e.nextCount capacity))).encode = .ok t.frame.wire := by
    rw [gather_eq e.queued]
    exact Frame.encode_eq_ok.mpr ⟨hvd, rfl⟩
  refine .inr (.inr ⟨t, e.sent (e.nextCount capacity) (not_lt.mp hoffset), ?_, ?_⟩)
  · unfold next
    rw [if_neg hcp, if_neg hct, dif_neg hoffset]
    simp only [hed]
  · exact
      { offset_eq := rfl
        nonempty := length_pos_iff.mp (by omega)
        valid := hvd
        length_le := by
          rw [Frame.length_wire]
          show Frame.headerSize + t.payload.length ≤ capacity
          unfold overhead at *
          omega
        remaining_eq := by
          rw [remaining_sent]
          exact (take_append_drop _ _).symm
        stop_eq := by
          show e.offset + _ = e.offset + t.data.length
          rw [hlen] }

variable {capacity : ℕ} {e e' : PacketEncoder} {error : ProtocolError}

/-- **No fragment is larger than the buffer it is for.** -/
theorem length_next_le {buf : Bytes}
    (h : next capacity e = .ok buf e') : buf.length ≤ capacity := by
  rcases next_cases capacity e with ⟨_, hnx⟩ | hnx | ⟨_, _, hnx, hem⟩
  · rw [hnx] at h
    cases h
  · rw [hnx] at h
    cases h
    exact Nat.zero_le _
  · rw [hnx] at h
    cases h
    exact hem.length_le

theorem eq_of_queue_error {bytes : Bytes} (h : queue bytes e = .error error e') : e' = e := by
  rcases queue_cases bytes e with ⟨_, hqu⟩ | ⟨_, hqu, -⟩
  · rw [hqu] at h
    exact (EStateM.Result.error.inj h).2.symm
  · rw [hqu] at h
    cases h

theorem eq_of_next_error (h : next capacity e = .error error e') : e' = e := by
  rcases next_cases capacity e with ⟨_, hnx⟩ | hnx | ⟨_, _, hnx, -⟩
  · rw [hnx] at h
    exact (EStateM.Result.error.inj h).2.symm
  · rw [hnx] at h
    cases h
  · rw [hnx] at h
    cases h

theorem remaining_of_not_hasPending (h : e.hasPending = false) : e.remaining = [] := by
  have hnil : e.pending = [] := by simpa [hasPending] using h
  unfold remaining
  rw [hnil]
  exact drop_nil

end PacketEncoder

/-! ## Tilings -/

/-- **Fragments that tile a stream** from an offset on: each is where the one
before it ends, and none is empty. -/
def Tiled : ℕ → List Fragment → Prop
  | _, [] => True
  | offset, t :: ts => t.offset = offset ∧ t.data ≠ [] ∧ Tiled t.stop ts

def dataOf (ts : List Fragment) : Bytes := ts.flatMap Fragment.data

section Tiled

variable {offset : ℕ} {t : Fragment} {ts us : List Fragment}

theorem dataOf_cons : dataOf (t :: ts) = t.data ++ dataOf ts := flatMap_cons

theorem dataOf_append : dataOf (ts ++ us) = dataOf ts ++ dataOf us := flatMap_append

theorem tiled_cons :
    Tiled offset (t :: ts) ↔ t.offset = offset ∧ t.data ≠ [] ∧ Tiled t.stop ts := .rfl

theorem tiled_append :
    Tiled offset (ts ++ us) ↔ Tiled offset ts ∧ Tiled (offset + (dataOf ts).length) us := by
  induction ts generalizing offset with
  | nil => exact ⟨fun h => ⟨.intro, h⟩, fun h => h.2⟩
  | cons _ _ ih =>
    rw [cons_append, tiled_cons, tiled_cons, ih, dataOf_cons, length_append]
    constructor
    · rintro ⟨rfl, hne, htl, hus⟩
      rw [Fragment.stop, Nat.add_assoc] at hus
      exact ⟨⟨rfl, hne, htl⟩, hus⟩
    · rintro ⟨⟨rfl, hne, htl⟩, hus⟩
      rw [← Nat.add_assoc] at hus
      exact ⟨rfl, hne, htl, hus⟩

theorem Tiled.bounds (h : Tiled offset ts) (ht : t ∈ ts) :
    offset ≤ t.offset ∧ t.data ≠ [] ∧ t.stop ≤ offset + (dataOf ts).length := by
  obtain ⟨_, _, rfl⟩ := append_of_mem ht
  obtain ⟨-, _, hne, -⟩ := tiled_append.mp h
  refine ⟨by omega, hne, ?_⟩
  rw [dataOf_append, dataOf_cons, length_append, length_append]
  unfold Fragment.stop
  omega

/-- Around a fragment of a tiling, the others end before it or start behind
it. -/
theorem Tiled.around (h : Tiled offset (ts ++ t :: us)) :
    (∀ a ∈ ts, a.stop ≤ t.offset ∧ a.offset < t.offset) ∧ ∀ b ∈ us, t.stop ≤ b.offset := by
  obtain ⟨hts, _, -, hus⟩ := tiled_append.mp h
  refine ⟨fun a ha => ?_, fun b hb => (hus.bounds hb).1⟩
  obtain ⟨-, hne, hsp⟩ := hts.bounds ha
  have hpos := length_pos_iff.mpr hne
  unfold Fragment.stop at hsp ⊢
  omega

theorem Tiled.apart (h : Tiled offset ts) : Apart ts := by
  induction ts generalizing offset with
  | nil => exact .nil
  | cons _ _ ih =>
    have hrs := (tiled_cons.mp h).2.2
    exact pairwise_cons.mpr ⟨fun b hb => (hrs.bounds hb).1, ih hrs⟩

/-- The bytes of a tiling are those of its fragments, each where it belongs. -/
theorem Tiled.getElem? (h : Tiled offset ts) {i : ℕ} (hi : i < (dataOf ts).length) :
    ∃ t ∈ ts, t.offset ≤ offset + i ∧ offset + i < t.stop
      ∧ (dataOf ts)[i]? = t.data[offset + i - t.offset]? := by
  induction ts generalizing offset i with
  | nil => exact absurd hi (Nat.not_lt_zero i)
  | cons t _ ih =>
    obtain ⟨rfl, -, hrs⟩ := tiled_cons.mp h
    rw [dataOf_cons, length_append] at hi
    by_cases hfi : i < t.data.length
    · refine ⟨t, mem_cons_self, by omega, by unfold Fragment.stop; omega, ?_⟩
      rw [dataOf_cons, getElem?_append_left hfi, Nat.add_sub_cancel_left]
    · obtain ⟨u, hu, hle, hlt, hby⟩ := ih hrs (i := i - t.data.length) (by omega)
      have hoffset : t.stop + (i - t.data.length) = t.offset + i := by
        unfold Fragment.stop
        omega
      rw [hoffset] at hle hlt hby
      refine ⟨u, mem_cons_of_mem t hu, hle, hlt, ?_⟩
      rw [dataOf_cons, getElem?_append_right (not_lt.mp hfi), hby]

theorem Tiled.notMem (h : Tiled offset (ts ++ t :: us)) : t ∉ ts ∧ t ∉ us := by
  obtain ⟨hbe, hbh⟩ := h.around
  have hpos := length_pos_iff.mpr (h.bounds (mem_append_right _ mem_cons_self)).2.1
  refine ⟨fun ht => ?_, fun ht => ?_⟩
  · have hlt := (hbe t ht).2
    omega
  · have hle := hbh t ht
    unfold Fragment.stop at hle
    omega

theorem Tiled.nodup (h : Tiled offset ts) : ts.Nodup := by
  induction ts generalizing offset with
  | nil => exact nodup_nil
  | cons t ts ih =>
    have hnot := Tiled.notMem (show Tiled offset ([] ++ t :: ts) from h)
    exact nodup_cons.mpr ⟨hnot.2, ih (tiled_cons.mp h).2.2⟩

end Tiled

/-! ## Runs of an encoder -/

inductive PacketEncoder.Call
  | queue (frame : Frame)
  | next (capacity : ℕ)

structure Sending where
  encoder : PacketEncoder := {}
  queued : List Frame := []
  produced : List Bytes := []

namespace Sending

def queue (s : Sending) (frame : Frame) (bytes : Bytes) : Sending :=
  match PacketEncoder.queue bytes s.encoder with
  | .ok _ e => { s with encoder := e, queued := s.queued ++ [frame] }
  | .error _ e => { s with encoder := e }

def next (s : Sending) (capacity : ℕ) : Sending :=
  match PacketEncoder.next capacity s.encoder with
  | .ok [] e => { s with encoder := e }
  | .ok buffer e => { s with encoder := e, produced := s.produced ++ [buffer] }
  | .error _ e => { s with encoder := e }

def step (s : Sending) : PacketEncoder.Call → Sending
  | .queue frame =>
    match frame.encode with
    | .ok bytes => s.queue frame bytes
    | .error _ => s
  | .next capacity => s.next capacity

/-- **A run**: calls made one after the other. -/
def run (calls : List PacketEncoder.Call) : Sending :=
  calls.foldl step {}

theorem step_queue_cases (s : Sending) (fr : Frame) : s.step (.queue fr) = s
      ∨ fr.Valid ∧ s.step (.queue fr) = s.queue fr fr.wire := by
  show (match fr.encode with
    | .ok bs => s.queue fr bs
    | .error _ => s) = s ∨ fr.Valid ∧ (match fr.encode with
    | .ok bs => s.queue fr bs
    | .error _ => s) = s.queue fr fr.wire
  cases hed : fr.encode with
  | error => exact .inl rfl
  | ok =>
    obtain ⟨hvd, rfl⟩ := Frame.encode_eq_ok.mp hed
    exact .inr ⟨hvd, rfl⟩

/-- **What was produced covers the stream.** The fragments tile it up to
where the encoder stands, and what is to be sent follows. -/
structure Covers (s : Sending) (tiles : List Fragment) : Prop where
  /-- The buffers are those of the fragments. -/
  produced_eq : s.produced = tiles.map fun t => t.frame.wire
  tiled : Tiled 0 tiles
  valid : ∀ t ∈ tiles, t.frame.Valid
  /-- They end where the encoder stands. -/
  offset_eq : s.encoder.offset = (dataOf tiles).length
  /-- They are the front of the stream of the frames queued. -/
  split : s.queued.flatMap Frame.wire = dataOf tiles ++ s.encoder.remaining
  encodable : ∀ f ∈ s.queued, f.Valid

theorem covers_initial : Covers {} [] where
  produced_eq := rfl
  tiled := .intro
  valid := nofun
  offset_eq := rfl
  split := rfl
  encodable := nofun

section Step

variable {s : Sending} {tiles : List Fragment}

theorem Covers.queue (h : Covers s tiles) {fr : Frame} (hfr : fr.Valid) :
    Covers (s.queue fr fr.wire) tiles := by
  unfold Sending.queue
  rcases s.encoder.queue_cases fr.wire with ⟨_, hqu⟩ | ⟨_, hqu, hoffset, hrm⟩
  · rw [hqu]
    exact h
  · rw [hqu]
    exact
      { h with
        offset_eq := hoffset.trans h.offset_eq
        split := by
          rw [flatMap_append, h.split, hrm, flatMap_singleton, append_assoc]
        encodable := forall_mem_append.mpr ⟨h.encodable, forall_mem_singleton.mpr hfr⟩ }

theorem Covers.next (h : Covers s tiles) (capacity : ℕ) :
    ∃ tiles', Covers (s.next capacity) tiles' := by
  unfold Sending.next
  rcases s.encoder.next_cases capacity with ⟨_, hnx⟩ | hnx | ⟨t, e, hnx, hem⟩
  · rw [hnx]
    exact ⟨tiles, h⟩
  · rw [hnx]
    exact ⟨tiles, h⟩
  · rw [hnx]
    obtain ⟨_, _, hwr⟩ := exists_cons_of_ne_nil t.frame.wire_ne_nil
    refine ⟨tiles ++ [t], ?_⟩
    have hstart : t.offset = 0 + (dataOf tiles).length := by
      rw [hem.offset_eq, h.offset_eq, Nat.zero_add]
    exact
      { produced_eq := by rw [h.produced_eq, map_append, map_singleton, hwr]
        tiled := tiled_append.mpr ⟨h.tiled, hstart, hem.nonempty, .intro⟩
        valid := forall_mem_append.mpr ⟨h.valid, forall_mem_singleton.mpr hem.valid⟩
        offset_eq := by
          show e.offset = _
          rw [hem.stop_eq, dataOf_append, dataOf_cons, length_append, length_append,
            Fragment.stop, hstart]
          simp [dataOf]
        split := by
          show s.queued.flatMap Frame.wire = dataOf (tiles ++ [t]) ++ e.remaining
          rw [h.split, hem.remaining_eq, dataOf_append, dataOf_cons]
          simp [dataOf]
        encodable := h.encodable }

theorem Covers.step (h : Covers s tiles) (call : PacketEncoder.Call) :
    ∃ tiles', Covers (s.step call) tiles' := by
  cases call with
  | next capacity => exact h.next capacity
  | queue fr =>
    rcases s.step_queue_cases fr with hsp | ⟨hvd, hsp⟩
    · rw [hsp]
      exact ⟨tiles, h⟩
    · rw [hsp]
      exact ⟨tiles, h.queue hvd⟩

end Step

/-- **In every run what was produced covers the stream.** -/
theorem covers_run (cs : List PacketEncoder.Call) : ∃ tiles, Covers (run cs) tiles :=
  foldlRecOn (motive := fun s => ∃ tiles, Covers s tiles) cs step ⟨[], covers_initial⟩
    fun _ ⟨_, h⟩ call _ => h.step call

theorem mem_queued_step {s : Sending} {call : PacketEncoder.Call} {f : Frame}
    (h : f ∈ (s.step call).queued) : f ∈ s.queued ∨ call = .queue f := by
  cases call with
  | next capacity =>
    left
    change f ∈ (s.next capacity).queued at h
    unfold Sending.next at h
    split at h <;> exact h
  | queue fr =>
    rcases s.step_queue_cases fr with hsp | ⟨-, hsp⟩
    · rw [hsp] at h
      exact .inl h
    · rw [hsp] at h
      unfold Sending.queue at h
      split at h
      · rcases mem_append.mp h with h | h
        · exact .inl h
        · exact .inr (by rw [mem_singleton.mp h])
      · exact .inl h

theorem mem_queued_run {calls : List PacketEncoder.Call} {f : Frame} (h : f ∈ (run calls).queued) :
    .queue f ∈ calls := by
  induction calls using reverseRecOn with
  | nil => cases h
  | append_singleton _ _ ih =>
    unfold run at h
    rw [foldl_append] at h
    rcases mem_queued_step h with h | rfl
    · exact mem_append_left _ (ih h)
    · exact mem_append_right _ mem_cons_self

end Sending

end Tailgate
