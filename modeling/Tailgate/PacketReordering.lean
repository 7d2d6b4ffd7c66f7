import Mathlib.Data.List.TakeWhile
import Tailgate.HostedDecoder
import Tailgate.PacketSending

/-!
# Packet framing restores the stream

The fragments an encoder produces may arrive in any order. A decoder that is fed
one after the other, and drained each time, returns the frames that were queued,
in order.

The reassembler holds the fragments that do not follow on from what it has
passed on (`Reassembles`). Over the bytes up to the first one that is missing,
its `reach`, the decoder is a reader of the kind `StreamDecoding` is about
(`decodes_fragmented`).
-/

namespace Tailgate

open Procedure StreamDecoding List Frame ReadBuffer Sending PacketEncoder

namespace PacketReassembler

def contiguous : ℕ → List Fragment → Bytes
  | _, [] => []
  | offset, f :: fs => if f.offset = offset then f.data ++ contiguous f.stop fs else []

variable (r : PacketReassembler)

def ready : Bytes := contiguous r.offset r.fragments

theorem length_contiguous_le (off : ℕ) (fs : List Fragment) :
    (contiguous off fs).length ≤ (fs.map fun f => f.data.length).sum := by
  induction fs generalizing off with
  | nil => exact Nat.le_refl _
  | cons _ _ ih =>
    unfold contiguous
    split
    · rw [length_append, map_cons, sum_cons]
      exact Nat.add_le_add_left (ih _) _
    · exact Nat.zero_le _

theorem length_ready_le : r.ready.length ≤ r.bytes := by
  rw [r.bytes_eq]
  exact length_contiguous_le _ _

/-- **Passing on**: nothing can be passed on, or the front of what can be
is. -/
theorem take_cases : (r.ready = [] ∧ take r = .ok [] r)
      ∨ ∃ first rest, ∃ h : r.fragments = first :: rest, ∃ ho : first.offset = r.offset,
        take r = .ok first.data (r.passed first rest h ho) ∧ first.data ≠ []
          ∧ r.ready = first.data ++ (r.passed first rest h ho).ready := by
  by_cases hnil : r.fragments = []
  · refine .inl ⟨?_, take_of_nil hnil⟩
    unfold ready
    rw [hnil]
    rfl
  · obtain ⟨first, rest, hfg⟩ := exists_cons_of_ne_nil hnil
    by_cases hoffset : first.offset = r.offset
    · refine .inr ⟨first, rest, hfg, hoffset, take_of_next hfg hoffset, ?_, ?_⟩
      · exact r.nonempty first (by rw [hfg]; exact mem_cons_self)
      · unfold ready
        rw [hfg, contiguous, if_pos hoffset, Fragment.stop, hoffset]
        rfl
    · refine .inl ⟨?_, take_of_gap hfg hoffset⟩
      unfold ready
      rw [hfg, contiguous, if_neg hoffset]

/-! ## What the reassembler holds -/

/-- **A reassembler of a tiled stream.** It has passed on the fragments
`passed`, and of those that follow, `waiting`, it holds the ones that have
arrived. -/
structure Reassembles (passed waiting arrived : List Fragment) (r : PacketReassembler) :
    Prop where
  tiled : Tiled 0 (passed ++ waiting)
  /-- What has been passed on has arrived. -/
  passed_arrived : ∀ t ∈ passed, t ∈ arrived
  /-- The stream is passed on up to the end of a fragment. -/
  offset_eq : r.offset = (dataOf passed).length
  /-- What has arrived and is not passed on is held. -/
  fragments_eq : r.fragments = waiting.filter (· ∈ arrived)

section Reassembles

variable {r} {passed waiting arrived : List Fragment}

theorem reassembles_initial {tiles : List Fragment} (h : Tiled 0 tiles) :
    Reassembles [] tiles [] {} where
  tiled := h
  passed_arrived := nofun
  offset_eq := rfl
  fragments_eq := by simp

theorem Reassembles.tiled_waiting (h : Reassembles passed waiting arrived r) :
    Tiled r.offset waiting := by
  have htl := (tiled_append.mp h.tiled).2
  rwa [Nat.zero_add, ← h.offset_eq] at htl

/-- Of a tiling, the bytes that follow on are those up to the first fragment
that is missing. -/
theorem contiguous_filter {off : ℕ} {ts : List Fragment} (h : Tiled off ts) :
    contiguous off (ts.filter (· ∈ arrived)) = dataOf (ts.takeWhile (· ∈ arrived)) := by
  induction ts generalizing off with
  | nil => rfl
  | cons t ts ih =>
    obtain ⟨rfl, hne, htl⟩ := tiled_cons.mp h
    by_cases ht : t ∈ arrived
    · rw [filter_cons_of_pos (by simpa using ht),
        takeWhile_cons_of_pos (by simpa using ht), contiguous, if_pos rfl, ih htl,
        dataOf_cons]
    · rw [filter_cons_of_neg (by simpa using ht), takeWhile_cons_of_neg (by simpa using ht)]
      -- whatever is held starts behind the missing fragment
      cases hfl : ts.filter (· ∈ arrived) with
      | nil => rfl
      | cons u =>
        have hu : u ∈ ts := (mem_filter.mp (hfl ▸ mem_cons_self)).1
        have hle := (htl.bounds hu).1
        have hpos := length_pos_iff.mpr hne
        unfold Fragment.stop at hle
        rw [contiguous, if_neg (by omega)]
        rfl

/-- **What can be passed on** and what lies behind the first fragment that is
missing are all that waits. -/
theorem Reassembles.ready_append (h : Reassembles passed waiting arrived r) :
    r.ready ++ dataOf ((passed ++ waiting).dropWhile (· ∈ arrived)) = dataOf waiting := by
  have hdr : (passed ++ waiting).dropWhile (· ∈ arrived) = waiting.dropWhile (· ∈ arrived) :=
    dropWhile_append_of_pos fun t ht => by simpa using h.passed_arrived t ht
  unfold ready
  rw [h.fragments_eq, contiguous_filter h.tiled_waiting, hdr, ← dataOf_append,
    takeWhile_append_dropWhile]

/-- Passing on the next fragment moves it from what waits to what is passed
on. -/
theorem Reassembles.pass (h : Reassembles passed waiting arrived r) {first : Fragment}
    {rest : List Fragment} (hfg : r.fragments = first :: rest)
    (hoffset : first.offset = r.offset) :
    ∃ waiting', waiting = first :: waiting' ∧ Reassembles (passed ++ [first]) waiting' arrived
        (r.passed first rest hfg hoffset) := by
  have hhe := h.fragments_eq
  rw [hfg] at hhe
  have hfi : first ∈ waiting.filter (· ∈ arrived) := hhe ▸ mem_cons_self
  have htl := h.tiled_waiting
  cases waiting with
  | nil => cases hfi
  | cons t waiting' =>
    obtain ⟨_, hne, hta⟩ := tiled_cons.mp htl
    have hpos := length_pos_iff.mpr hne
    obtain rfl : first = t := by
      rcases mem_cons.mp (mem_filter.mp hfi).1 with rfl | hmem
      · rfl
      · have hle := (hta.bounds hmem).1
        unfold Fragment.stop at hle
        omega
    have har : first ∈ arrived := by simpa using (mem_filter.mp hfi).2
    rw [filter_cons_of_pos (by simpa using har)] at hhe
    refine ⟨waiting', rfl, ?_⟩
    exact
      { tiled := by
          have hall := h.tiled
          rwa [← append_cons]
        passed_arrived := forall_mem_append.mpr ⟨h.passed_arrived, forall_mem_singleton.mpr har⟩
        offset_eq := by
          show r.offset + first.data.length = _
          rw [h.offset_eq, dataOf_append, dataOf_cons, length_append]
          simp [dataOf]
        fragments_eq := (cons.inj hhe).2 }

/-! ## One more fragment -/

section Arrival

variable {ts us : List Fragment} {t : Fragment}
  (h : Reassembles passed (ts ++ t :: us) arrived r) (ht : t ∉ arrived)

include h ht in
theorem Reassembles.split :
    r.before t.offset = ts.filter (· ∈ arrived)
      ∧ r.lowerBound t.offset = us.filter (· ∈ arrived) := by
  obtain ⟨hbe, hbh⟩ := h.tiled_waiting.around
  have hhe : r.fragments = ts.filter (· ∈ arrived) ++ us.filter (· ∈ arrived) := by
    rw [h.fragments_eq, filter_append, filter_cons_of_neg (by simpa using ht)]
  have hts : ∀ a ∈ ts.filter (· ∈ arrived), decide (a.offset < t.offset) = true := fun a ha =>
    decide_eq_true (hbe a (mem_filter.mp ha).1).2
  have hus : ∀ b ∈ us.filter (· ∈ arrived), decide (b.offset < t.offset) = false := fun b hb => by
    have hle := hbh b (mem_filter.mp hb).1
    unfold Fragment.stop at hle
    exact decide_eq_false (by omega)
  have htk : (us.filter (· ∈ arrived)).takeWhile (fun f => f.offset < t.offset) = [] := by
    cases hfl : us.filter (· ∈ arrived) with
    | nil => rfl
    | cons b =>
      have hb := hus b (hfl ▸ mem_cons_self)
      rw [takeWhile_cons_of_neg (by simpa using hb)]
  have hdr : (us.filter (· ∈ arrived)).dropWhile (fun f => f.offset < t.offset)
      = us.filter (· ∈ arrived) := by
    have hap := takeWhile_append_dropWhile
      (p := fun f : Fragment => decide (f.offset < t.offset)) (l := us.filter (· ∈ arrived))
    rwa [htk, nil_append] at hap
  unfold before lowerBound
  rw [hhe, takeWhile_append_of_pos hts, dropWhile_append_of_pos hts, htk, hdr, append_nil]
  exact ⟨rfl, rfl⟩

include h ht in
/-- **A fragment that has not arrived can be taken in**, if it is within the
window and there is room for it. -/
theorem Reassembles.admits
    (hsp : t.stop < 2 ^ 64) (hwi : t.stop ≤ r.offset + maximumWindow)
    (hrm : r.fragments.length < maximumFragments) : r.Admits t := by
  obtain ⟨hbe, hbh⟩ := h.tiled_waiting.around
  obtain ⟨hab, hne, -⟩ := h.tiled_waiting.bounds (mem_append_right ts mem_cons_self)
  obtain ⟨hft, hbc⟩ := h.split ht
  refine ⟨hne, hab, hwi, hsp, hrm, ?_⟩
  unfold overlaps
  rw [hft, hbc, Bool.or_eq_false_iff, Option.any_eq_false, Option.any_eq_false]
  constructor
  · intro b hb
    have hmem := (mem_filter.mp (mem_of_mem_head? hb)).1
    have hle := hbh b hmem
    unfold Fragment.stop at hle
    simpa using hle
  · intro a ha
    have hmem := (mem_filter.mp (mem_of_mem_getLast? ha)).1
    have hle := (hbe a hmem).1
    unfold Fragment.stop at hle
    simpa using hle

include h ht in
theorem Reassembles.insert (had : r.Admits t) :
    Reassembles passed (ts ++ t :: us) (t :: arrived) (r.insert t had) := by
  obtain ⟨hft, hbc⟩ := h.split ht
  obtain ⟨hts, hus⟩ := h.tiled_waiting.notMem
  -- for the other fragments nothing has arrived
  have hot : ∀ {us : List Fragment}, t ∉ us →
      us.filter (· ∈ t :: arrived) = us.filter (· ∈ arrived) := by
    intro _ hus
    refine filter_congr fun u hu => ?_
    have hne : u ≠ t := fun heq => hus (heq ▸ hu)
    simp [hne]
  exact
    { tiled := h.tiled
      passed_arrived := fun u hu => mem_cons_of_mem _ (h.passed_arrived u hu)
      offset_eq := h.offset_eq
      fragments_eq := by
        show r.before t.offset ++ t :: r.lowerBound t.offset = _
        rw [hft, hbc, filter_append, filter_cons_of_pos (by simp), hot hts, hot hus] }

end Arrival

end Reassembles

end PacketReassembler

namespace Decoder

open PacketReassembler

/-! ## What the decoder returns -/

/-- **The bytes a decoder can get to**: those of the stream it has put
together and those it can put behind them. -/
def reach (d : Decoder) : Bytes := d.stream.pending ++ d.fragments.ready

/-- A decoder that has taken in all it was fed, of a tiled stream of which
some fragments have arrived. -/
structure Reassembling (tiles arrived : List Fragment) (d : Decoder) : Prop where
  idle : d.buffer.pending = []
  /-- What has arrived is held or passed on. -/
  reassembles : ∃ passed waiting, tiles = passed ++ waiting
    ∧ Reassembles passed waiting arrived d.fragments

section Turn

variable {d : Decoder}

theorem turn_of_wire {f : Frame} {q : Bytes} (hf : Plain f)
    (h : d.stream.pending = f.wire ++ q) :
    ∃ b, turn d = .ok (some (some f)) { d with stream := b } ∧ b.pending = q := by
  obtain ⟨b, hnx, hpd⟩ := nextFrame_of_wire hf.1 h
  refine ⟨b, ?_, hpd⟩
  unfold turn
  rw [bind_ok (onStream_ok hnx)]
  show fromStream f _ = _
  unfold fromStream
  rw [if_neg hf.2]
  rfl

theorem turn_of_unfinished (h : Unfinished wire Frame.Valid d.stream.pending) :
    turn d = reassemble d := by
  have hsr : onStream nextFrame d = .ok none d :=
    onStream_ok (nextFrame_of_unfinished h)
  unfold turn
  rw [bind_ok hsr]

theorem reassemble_of_next {data : Bytes} {r : PacketReassembler}
    (h : take d.fragments = .ok data r) (hdt : data ≠ []) :
    reassemble d = .ok none { d with fragments := r, stream := d.stream.compact.append data } := by
  unfold reassemble
  rw [bind_ok (onFragments_ok h), if_pos hdt]
  rfl

theorem reassemble_of_gap (h : take d.fragments = .ok [] d.fragments) :
    reassemble d = refill d := by
  have htk : onFragments take d = .ok [] d := onFragments_ok h
  unfold reassemble
  rw [bind_ok htk]
  rfl

theorem refill_of_idle (h : d.buffer.pending = []) : refill d = .ok (some none) d := by
  have hbf : onBuffer nextFrame d = .ok none d :=
    onBuffer_ok (nextFrame_of_unfinished (.inl h))
  unfold refill
  rw [bind_ok hbf]
  rfl

end Turn

variable {tiles arrived : List Fragment}

/-- **One turn over the reach**: with less than a frame in the stream, either
the next fragment is put behind it and the reach stays the same, or the reach
is at its end. -/
theorem Reassembling.turn_cases {d : Decoder} (h : Reassembling tiles arrived d)
    (hlf : Unfinished wire Frame.Valid d.stream.pending) :
    (d.fragments.ready = [] ∧ turn d = .ok (some none) d)
      ∨ ∃ d', turn d = .ok none d' ∧ Reassembling tiles arrived d' ∧ d'.reach = d.reach
        ∧ d'.fragments.fragments.length < d.fragments.fragments.length := by
  rw [turn_of_unfinished hlf]
  rcases d.fragments.take_cases with
    ⟨hry, htk⟩ | ⟨first, rest, hfg, hoffset, htk, hne, hry⟩
  · refine .inl ⟨hry, ?_⟩
    rw [reassemble_of_gap htk, refill_of_idle h.idle]
  · refine .inr ⟨_, reassemble_of_next htk hne, ?_, ?_, ?_⟩
    · obtain ⟨passed, _, rfl, hre⟩ := h.reassembles
      obtain ⟨waiting', rfl, hre'⟩ := hre.pass hfg hoffset
      exact ⟨h.idle, passed ++ [first], waiting', append_cons .., hre'⟩
    · unfold reach
      rw [pending_append, pending_compact, hry, append_assoc]
    · rw [hfg]
      exact Nat.lt_succ_self _

theorem Reassembling.next_of_wire {f : Frame} (hf : Plain f) {rest : Bytes} (n : ℕ) :
    ∀ {d : Decoder}, d.fragments.fragments.length = n → Reassembling tiles arrived d →
      d.reach = f.wire ++ rest →
      ∃ d', next d = .ok (some f) d' ∧ Reassembling tiles arrived d' ∧ d'.reach = rest := by
  induction n using Nat.strong_induction_on with
  | _ _ ih =>
    intro d hn h hre
    rcases append_cases (show d.stream.pending ++ d.fragments.ready = _ from hre) with
      ⟨q, hsr, hrs⟩ | ⟨hft, hlt⟩
    · obtain ⟨b, htr, hb⟩ := turn_of_wire hf hsr
      refine ⟨{ d with stream := b }, next_of_some htr, ⟨h.idle, h.reassembles⟩, ?_⟩
      show b.pending ++ d.fragments.ready = rest
      rw [hb, hrs]
    · rcases h.turn_cases (.inr ⟨f, hf.1, hft, hlt⟩) with
        ⟨hry, -⟩ | ⟨d', htr, h', hre', hsh⟩
      · -- the end of the reach lies behind the frame
        have hlen := congrArg length hre
        unfold reach at hlen
        rw [hry, append_nil, length_append] at hlen
        omega
      · obtain ⟨d'', hnx, hd''⟩ := ih _ (hn ▸ hsh) rfl h' (hre'.trans hre)
        exact ⟨d'', (next_of_none htr).trans hnx, hd''⟩

theorem Reassembling.next_of_unfinished (n : ℕ) :
    ∀ {d : Decoder}, d.fragments.fragments.length = n → Reassembling tiles arrived d →
      Unfinished wire Plain d.reach →
      ∃ d', next d = .ok none d' ∧ Reassembling tiles arrived d' ∧ d'.fragments.ready = []
        ∧ d'.reach = d.reach := by
  induction n using Nat.strong_induction_on with
  | _ _ ih =>
    intro d hn h hlf
    have hsr : Unfinished wire Frame.Valid d.stream.pending := by
      rcases hlf with hnil | ⟨f, hf, hft, hlt⟩
      · exact .inl (append_eq_nil_iff.mp hnil).1
      · unfold reach at hft hlt
        rw [length_append] at hlt
        exact .inr ⟨f, hf.1, (prefix_append _ _).trans hft, by omega⟩
    rcases h.turn_cases hsr with ⟨hry, htr⟩ | ⟨_, htr, h', hre', hsh⟩
    · exact ⟨d, next_of_some htr, h, hry, rfl⟩
    · obtain ⟨d'', hnx, hd'', hry, hre''⟩ :=
        ih _ (hn ▸ hsh) rfl h' (hre'.symm ▸ hlf)
      exact ⟨d'', (next_of_none htr).trans hnx, hd'', hry, hre''.trans hre'⟩

/-- **A decoder of fragments reads the frames within its reach.** -/
theorem decodes_fragmented :
    Decodes wire Plain (Reassembling tiles arrived) (fun d => d.fragments.ready = []) reach
      next where
  complete h hf hre := Reassembling.next_of_wire hf _ rfl h hre
  unfinished h hlf := Reassembling.next_of_unfinished _ rfl h hlf

/-! ## Arrivals -/

def deliver (buffer : Bytes) : EStateM ProtocolError Decoder (List Frame) := do
  feed buffer
  drain

/-- **Buffers arrive one after the other.** -/
def receive : List Bytes → EStateM ProtocolError Decoder (List Frame)
  | [] => pure []
  | buffer :: buffers => do
    let frames ← deliver buffer
    let rest ← receive buffers
    pure (frames ++ rest)

def fragmentIn (buffer : Bytes) : Fragment := fragmentOf (buffer.drop headerSize)

theorem fragmentIn_wire {t : Fragment} (h : t.stop < 2 ^ 64) : fragmentIn t.frame.wire = t := by
  unfold fragmentIn
  refine fragmentOf_payload ?_
  unfold Fragment.stop at h
  omega

/-- The fragment in a buffer lies within the window of what has been passed
on, and fewer fragments wait than may. -/
def inWindow (d : Decoder) (buffer : Bytes) : Bool :=
  (fragmentIn buffer).stop ≤ d.fragments.offset + maximumWindow
    && d.fragments.fragments.length < maximumFragments

/-- **Every arrival finds room**: whenever a buffer arrives, its fragment lies
within the window and fewer fragments wait than may. -/
def admitted : Decoder → List Bytes → Bool
  | _, [] => true
  | d, buffer :: buffers =>
    d.inWindow buffer && match deliver buffer d with
      | .ok _ d' => admitted d' buffers
      | .error _ _ => true

/-- **A decoder between arrivals**: it has returned all frames but `left`, of
whose bytes the ones within reach are in, and it is caught up. -/
structure Standing (tiles arrived : List Fragment) (leftover : Bytes) (left : List Frame)
    (d : Decoder) : Prop where
  /-- What has arrived is held or passed on. -/
  reassembling : Reassembling tiles arrived d
  ready_eq : d.fragments.ready = []
  /-- All that is within reach has been returned. -/
  caughtUp : CaughtUp wire left d.reach (dataOf (tiles.dropWhile (· ∈ arrived)) ++ leftover)

section Arrivals

variable {leftover : Bytes} {left : List Frame} {d : Decoder}

theorem standing_initial (htl : Tiled 0 tiles)
    (hsp : left.flatMap wire = dataOf tiles ++ leftover) :
    Standing tiles [] leftover left {} where
  reassembling := ⟨rfl, [], tiles, rfl, reassembles_initial htl⟩
  ready_eq := rfl
  caughtUp :=
    { split := by
        have hdr : tiles.dropWhile (· ∈ ([] : List Fragment)) = tiles := by
          cases tiles <;> simp
        rw [hdr, hsp]
        rfl
      short := by
        intro f _
        exact length_pos_iff.mpr f.wire_ne_nil }

variable {t : Fragment}

/-- Feeding a fragment to a decoder that is caught up and looking for a frame
comes to taking it in. -/
theorem next_of_fragment (hlf : Unfinished wire Frame.Valid d.stream.pending)
    (hry : d.fragments.ready = []) (hvd : t.frame.Valid)
    (hbf : d.buffer.pending = t.frame.wire) (had : d.fragments.Admits t) :
    ∃ b : ReadBuffer, b.pending = [] ∧ next d = next
        { d with buffer := b, fragments := d.fragments.insert t had, fragmented := true } := by
  rcases d.fragments.take_cases with ⟨-, htk⟩ | ⟨_, _, _, _, -, hne, hry'⟩
  · have hwr : d.buffer.pending = t.frame.wire ++ [] := by rw [hbf, append_nil]
    obtain ⟨b, hnx, hb⟩ := nextFrame_of_wire hvd hwr
    refine ⟨b, hb, next_of_none ?_⟩
    rw [turn_of_unfinished hlf, reassemble_of_gap htk]
    unfold refill
    rw [bind_ok (onBuffer_ok hnx)]
    show fromBuffer t.frame { d with buffer := b } = _
    have hac : onFragments (accept t.frame.payload) { d with buffer := b, fragmented := true }
        = .ok () { d with
            buffer := b, fragments := d.fragments.insert t had, fragmented := true } :=
      onFragments_ok (accept_of_admits had)
    unfold fromBuffer
    show (onFragments (accept t.frame.payload) >>= fun _ => pure none)
      { d with buffer := b, fragmented := true } = _
    rw [bind_ok hac]
    rfl
  · rw [hry] at hry'
    exact absurd (append_eq_nil_iff.mp hry'.symm).1 hne

/-- **One arrival** returns the frames it completes. -/
theorem Standing.deliver (h : Standing tiles arrived leftover left d)
    (hpl : ∀ f ∈ left, Plain f) (htl : t ∈ tiles) (ht : t ∉ arrived)
    (hvd : t.frame.Valid) (hsp : t.stop < 2 ^ 64) (hwi : d.inWindow t.frame.wire = true) :
    ∃ frs left' d', left = frs ++ left' ∧ deliver t.frame.wire d = .ok frs d'
      ∧ Standing tiles (t :: arrived) leftover left' d' := by
  obtain ⟨⟨hil, passed, waiting, rfl, hre⟩, hry, hca⟩ := h
  obtain ⟨ts, us, rfl⟩ : ∃ ts us, waiting = ts ++ t :: us := by
    rcases mem_append.mp htl with hps | hwt
    · exact absurd (hre.passed_arrived t hps) ht
    · exact append_of_mem hwt
  have had : d.fragments.Admits t := by
    unfold inWindow at hwi
    rw [fragmentIn_wire hsp, Bool.and_eq_true, decide_eq_true_eq, decide_eq_true_eq] at hwi
    exact hre.admits ht hsp hwi.1 hwi.2
  -- the decoder is fed
  have hfi : d.buffer.pending.length + t.frame.wire.length ≤ maximumEncodedSize := by
    rw [hil, length_nil, Nat.zero_add]
    exact length_wire_le hvd
  obtain ⟨b, hfd, hb⟩ := feed_of_le hfi
  rw [hil, nil_append] at hb
  have hrc : d.reach = d.stream.pending := by
    unfold reach
    rw [hry, append_nil]
  have hlf : Unfinished wire Frame.Valid d.stream.pending := by
    rw [← hrc]
    exact hca.unfinished fun f hf => (hpl f hf).1
  obtain ⟨b', hb', hnx⟩ := next_of_fragment (d := { d with buffer := b }) hlf hry hvd hb
    had
  -- and drained, which starts with taking the fragment in
  have hrs : Reassembling (passed ++ (ts ++ t :: us)) (t :: arrived)
      { d with buffer := b', fragments := d.fragments.insert t had, fragmented := true } :=
    ⟨hb', passed, _, rfl, hre.insert ht had⟩
  have hspl : d.stream.pending ++ (d.fragments.insert t had).ready
      ++ (dataOf ((passed ++ (ts ++ t :: us)).dropWhile (· ∈ t :: arrived)) ++ leftover)
        = left.flatMap wire := by
    have hbe := hre.ready_append
    have haf := (hre.insert ht had).ready_append
    rw [hry, nil_append] at hbe
    rw [append_assoc, ← append_assoc (d.fragments.insert t had).ready, haf, ← hbe, ← hrc]
    exact hca.split
  have htu : (d.stream.pending ++ (d.fragments.insert t had).ready).length
      < ({ d with buffer := b } : Decoder).bufferedBytes + 1 := by
    have hle := (d.fragments.insert t had).length_ready_le
    have hby : (d.fragments.insert t had).bytes = d.fragments.bytes + t.data.length := rfl
    have hwr : t.data.length ≤ t.frame.wire.length := by
      rw [length_wire]
      show _ ≤ _ + t.payload.length
      unfold Fragment.payload
      rw [length_append]
      omega
    show _ < b.bytes.length - b.offset + (d.stream.bytes.length - d.stream.offset)
      + d.fragments.bytes + 1
    rw [← length_pending, ← length_pending, hb, length_append]
    omega
  obtain ⟨frs, left', d', hlf', hcl, hd', hry', -, hca'⟩ :=
    decodes_fragmented.collect (fun f _ => f.wire_ne_nil) hrs hpl hspl htu
  refine ⟨frs, left', d', hlf', ?_, hd', hry', hca'⟩
  have hfd' : feed t.frame.wire d = .ok () { d with buffer := b } := onBuffer_ok hfd
  unfold Decoder.deliver
  rw [bind_ok hfd']
  exact (collect_congr hnx).trans hcl

/-- **Arrivals in any order** return the frames they complete. -/
theorem Standing.receive {order : List Fragment} (h : Standing tiles arrived leftover left d)
    (hpl : ∀ f ∈ left, Plain f) (htl : ∀ t ∈ order, t ∈ tiles)
    (hnew : ∀ t ∈ order, t ∉ arrived)
    (hnd : order.Nodup) (hvd : ∀ t ∈ tiles, t.frame.Valid)
    (hsp : ∀ t ∈ tiles, t.stop < 2 ^ 64)
    (had : admitted d (order.map fun t => t.frame.wire) = true) :
    ∃ frs left' arrived' d', left = frs ++ left'
      ∧ receive (order.map fun t => t.frame.wire) d = .ok frs d'
      ∧ (∀ t, t ∈ arrived' ↔ t ∈ order ∨ t ∈ arrived)
      ∧ Standing tiles arrived' leftover left' d' := by
  induction order generalizing arrived left d with
  | nil => exact ⟨[], left, arrived, d, rfl, rfl, by simp, h⟩
  | cons t order ih =>
    have ht := htl t mem_cons_self
    rw [map_cons, admitted, Bool.and_eq_true] at had
    obtain ⟨frs, _, _, rfl, hdl, h₁⟩ := h.deliver hpl ht
      (hnew t mem_cons_self) (hvd t ht) (hsp t ht) had.1
    have hrs := had.2
    rw [hdl] at hrs
    obtain ⟨hnm, hnd'⟩ := nodup_cons.mp hnd
    have hnw' : ∀ u ∈ order, u ∉ t :: arrived := by
      intro u hu hmem
      rcases mem_cons.mp hmem with rfl | hmem
      · exact hnm hu
      · exact hnew u (mem_cons_of_mem _ hu) hmem
    obtain ⟨frs', left', arrived', d', rfl, hrc, har, hsg⟩ :=
      ih h₁ (fun f hf => hpl f (mem_append_right _ hf))
        (fun u hu => htl u (mem_cons_of_mem _ hu)) hnw' hnd' hrs
    refine ⟨frs ++ frs', left', arrived', d', (append_assoc ..).symm, ?_, ?_, hsg⟩
    · rw [map_cons, Decoder.receive, bind_ok hdl, bind_ok hrc]
      rfl
    · intro _
      rw [har, mem_cons, mem_cons]
      tauto

end Arrivals

variable {arrivals : List Bytes} {calls : List PacketEncoder.Call}

/-- Buffers that are those of fragments up to their order are the buffers of
the fragments in some order. -/
theorem exists_order (hpm : arrivals.Perm (tiles.map fun t => t.frame.wire))
    (hsp : ∀ t ∈ tiles, t.stop < 2 ^ 64) :
    ∃ order : List Fragment, order.Perm tiles ∧ arrivals = order.map fun t => t.frame.wire := by
  refine ⟨arrivals.map fragmentIn, ?_, ?_⟩
  · have hmap := hpm.map fragmentIn
    rw [map_map] at hmap
    have hid : tiles.map (fragmentIn ∘ fun t => t.frame.wire) = tiles :=
      (map_congr_left fun t ht => fragmentIn_wire (hsp t ht)).trans (map_id tiles)
    rwa [hid] at hmap
  · rw [map_map]
    refine ((map_congr_left fun buf hb => ?_).trans (map_id arrivals)).symm
    obtain ⟨t, ht, rfl⟩ := mem_map.mp (hpm.mem_iff.mp hb)
    show (fragmentIn t.frame.wire).frame.wire = t.frame.wire
    rw [fragmentIn_wire (hsp t ht)]

/-- **What a run of the encoder produced gives back what was queued**, in
whatever order it arrives: the frames whose bytes have all been produced. -/
theorem receive_produced (hty : ∀ f, PacketEncoder.Call.queue f ∈ calls → f.type ≠ .fragment)
    (hpm : arrivals.Perm (run calls).produced) (had : admitted {} arrivals = true) :
    ∃ d, receive arrivals {}
      = .ok (whole wire (run calls).queued (run calls).encoder.offset) d := by
  obtain ⟨tiles, hcv⟩ := covers_run calls
  have hsp : ∀ t ∈ tiles, t.stop < 2 ^ 64 := by
    intro _ ht
    have hle := (hcv.tiled.bounds ht).2.2
    rw [Nat.zero_add, ← hcv.offset_eq] at hle
    exact hle.trans_lt (run calls).encoder.offset_lt
  rw [hcv.produced_eq] at hpm
  obtain ⟨_, hor, rfl⟩ := exists_order hpm hsp
  have hpl : ∀ f ∈ (run calls).queued, Plain f := fun f hf =>
    ⟨hcv.encodable f hf, hty f (mem_queued_run hf)⟩
  obtain ⟨frames, _, arrived, d, hqd, hrc, har, hsg⟩ :=
    (standing_initial hcv.tiled hcv.split).receive hpl
      (fun t ht => hor.mem_iff.mp ht) (fun _ _ => not_mem_nil)
      (hor.nodup_iff.mpr hcv.tiled.nodup) hcv.valid hsp had
  refine ⟨d, ?_⟩
  -- all fragments have arrived, so the reach of the decoder is all that was produced
  have hall : tiles.dropWhile (· ∈ arrived) = [] := by
    refine dropWhile_eq_nil_iff.mpr fun t ht => ?_
    simpa using (har t).mpr (.inl (hor.mem_iff.mpr ht))
  have hca := hsg.caughtUp
  rw [hall] at hca
  have hpr : dataOf tiles = frames.flatMap wire ++ d.reach := by
    have hspl := hcv.split
    rw [hqd, flatMap_append, ← hca.split] at hspl
    exact (append_cancel_right ((append_assoc ..).trans hspl)).symm
  rw [hrc, hqd, hcv.offset_eq, hpr, length_append, whole_append, whole_eq_nil hca.short, append_nil]

theorem whole_of_not_hasPending (h : (run calls).encoder.hasPending = false) :
    whole wire (run calls).queued (run calls).encoder.offset = (run calls).queued := by
  obtain ⟨_, hcv⟩ := covers_run calls
  have hsp := hcv.split
  rw [remaining_of_not_hasPending h, append_nil] at hsp
  rw [hcv.offset_eq, ← hsp, whole_self]

/-- **Packet framing is a reordering transport.** Whatever calls are made on an
encoder with frames that are not fragments themselves, and in whatever order
what it produced arrives, as long as every arrival finds room, the decoder
returns the frames whose bytes have all been produced, in the order in which
they were queued – all of them, once nothing is to be sent. What is produced
tiles the stream, no fragment exceeds the buffer it is for, and a call that
throws leaves the encoder as it was. -/
theorem reordered_frames_restored {calls : List PacketEncoder.Call}
    {arrivals : List Bytes}
    (htype : ∀ f, .queue f ∈ calls → f.type ≠ .fragment)
    (hperm : arrivals.Perm (run calls).produced)
    (hadmitted : admitted {} arrivals = true) :
    (∃ d, receive arrivals {} = .ok (whole wire (run calls).queued (run calls).encoder.offset) d)
      ∧ ((run calls).encoder.hasPending = false →
        ∃ d, receive arrivals {} = .ok (run calls).queued d)
      ∧ (∃ tiles, (run calls).produced = tiles.map (fun t => t.frame.wire) ∧ Tiled 0 tiles
        ∧ (run calls).queued.flatMap wire = dataOf tiles ++ (run calls).encoder.remaining)
      ∧ (∀ e capacity buffer e', PacketEncoder.next capacity e = .ok buffer e' →
        buffer.length ≤ capacity)
      ∧ (∀ e bytes error e', PacketEncoder.queue bytes e = .error error e' → e' = e)
      ∧ ∀ e capacity error e', PacketEncoder.next capacity e = .error error e' → e' = e := by
  have hrc := receive_produced htype hperm hadmitted
  refine ⟨hrc, fun hpd => ?_, ?_, fun _ _ _ _ => PacketEncoder.length_next_le,
    fun _ _ _ _ => eq_of_queue_error, fun _ _ _ _ => eq_of_next_error⟩
  · rwa [whole_of_not_hasPending hpd] at hrc
  · obtain ⟨tiles, hcv⟩ := covers_run calls
    exact ⟨tiles, hcv.produced_eq, hcv.tiled, hcv.split⟩

theorem reordered_heartbeat_and_ping :
    ∃ d, receive (run [.queue ⟨.heartbeat, []⟩, .next 26, .queue ⟨.ping, [7]⟩, .next 30,
        .next 64]).produced.reverse {}
      = .ok [⟨.heartbeat, []⟩, ⟨.ping, [7]⟩] d :=
  (reordered_frames_restored (by simp) (reverse_perm (run [.queue ⟨.heartbeat, []⟩,
    .next 26, .queue ⟨.ping, [7]⟩, .next 30, .next 64]).produced) (by decide +kernel)).2.1
    (by decide +kernel)

/-- **A frame that is a fragment itself is not restored**: it is queued and all
of it is sent and finds room, but the decoder refuses it. -/
theorem nested_fragment_refused :
    (run [.queue ⟨.fragment, []⟩, .next 64]).queued = [⟨.fragment, []⟩]
      ∧ (run [.queue ⟨.fragment, []⟩, .next 64]).encoder.hasPending = false
      ∧ admitted {} (run [.queue ⟨.fragment, []⟩, .next 64]).produced = true
      ∧ ∃ d, receive (run [.queue ⟨.fragment, []⟩, .next 64]).produced {}
        = .error (.framing .nestedFragment) d :=
  ⟨by decide +kernel, by decide +kernel, by decide +kernel, _, by rfl⟩

end Decoder

end Tailgate
