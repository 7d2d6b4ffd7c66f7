import Tailgate.FrameProtocol

/-!
# Packet framing

Where a transport carries buffers of a limited size, and may deliver them out of
order, the stream of encoded frames is cut into *fragments*: an offset in the
stream, in eight bytes, and the bytes there. A `PacketEncoder` does the cutting,
and a `PacketReassembler` holds what arrives early.

Both carry what they rely on. Fragments are held in order and do not overlap: a
new one is compared with its two neighbours only (`Admits.apart_insert`).
-/

namespace Tailgate

open List BigEndian

/-! ## Cutting a stream into fragments -/

structure Queued (parts : List Bytes) (offset : ℕ) : Prop where
  nonempty : ∀ part ∈ parts, part ≠ []
  /-- The offset lies within the first part. -/
  front : ∀ part ∈ parts.head?, offset < part.length
  /-- With nothing queued it is zero. -/
  offset_eq : parts = [] → offset = 0

def PacketEncoder.maximumPendingBytes : ℕ := 4 * 1024 * 1024

/-- **An encoder**, with what it still holds. -/
structure PacketEncoder where
  offset : ℕ := 0
  pending : List Bytes := []
  pendingOffset : ℕ := 0
  pendingBytes : ℕ := 0
  /-- The parts and the offset into them go together. -/
  queued : Queued pending pendingOffset := by exact ⟨by simp, by simp, fun _ => rfl⟩
  /-- The bytes to be sent are counted. -/
  pendingBytes_eq : pendingBytes = (pending.flatten.drop pendingOffset).length := by rfl
  pendingBytes_le : pendingBytes ≤ PacketEncoder.maximumPendingBytes := by decide
  /-- The offset is a number of 64 bits. -/
  offset_lt : offset < 2 ^ 64 := by decide

namespace PacketEncoder

def offsetSize : ℕ := 8

def overhead : ℕ := Frame.headerSize + offsetSize

def gather : List Bytes → ℕ → ℕ → Bytes
  | [], _, _ => []
  | part :: parts, offset, remaining =>
    if remaining = 0 then
      []
    else
      let size := min remaining (part.length - offset)
      (part.drop offset).take size ++ gather parts 0 (remaining - size)

def consume : List Bytes → ℕ → ℕ → List Bytes × ℕ
  | [], offset, _ => ([], offset)
  | part :: parts, offset, remaining =>
    if remaining = 0 then
      (part :: parts, offset)
    else
      let size := min remaining (part.length - offset)
      if offset + size = part.length then
        consume parts 0 (remaining - size)
      else
        -- a part that is not used up has served all that remained
        (part :: parts, offset + size)

variable (e : PacketEncoder)

def remaining : Bytes := e.pending.flatten.drop e.pendingOffset

/-! ### The two loops over the parts -/

section Parts

variable {parts : List Bytes} {offset n : ℕ} {part : Bytes}

theorem drop_flatten_cons (h : offset ≤ part.length) :
    ((part :: parts).flatten).drop offset = part.drop offset ++ parts.flatten := by
  rw [flatten_cons, drop_append_of_le_length h]

theorem queued_tail (h : ∀ p ∈ part :: parts, p ≠ []) :
    Queued parts 0 where
  nonempty p hp := h p (mem_cons_of_mem _ hp)
  front p hp := length_pos_iff.mpr (h p (mem_cons_of_mem _ (mem_of_mem_head? hp)))
  offset_eq _ := rfl

theorem gather_eq (h : Queued parts offset) :
    gather parts offset n = (parts.flatten.drop offset).take n := by
  induction parts generalizing offset n with
  | nil => simp [gather]
  | cons part parts ih =>
    have hlt := h.front part rfl
    rw [gather, drop_flatten_cons hlt.le, take_append, length_drop]
    by_cases hn : n = 0
    · simp [hn]
    · rw [if_neg hn]
      show (part.drop offset).take (min n (part.length - offset))
        ++ gather parts 0 (n - min n (part.length - offset)) = _
      have htk : (part.drop offset).take (min n (part.length - offset))
          = (part.drop offset).take n := by
        rw [← length_drop, ← take_eq_take_min]
      have hsub : n - min n (part.length - offset) = n - (part.length - offset) := by omega
      rw [htk, hsub, ih (queued_tail h.nonempty), drop_zero]

theorem consume_spec (h : Queued parts offset) :
    Queued (consume parts offset n).1 (consume parts offset n).2
      ∧ (consume parts offset n).1.flatten.drop (consume parts offset n).2
        = (parts.flatten.drop offset).drop n := by
  induction parts generalizing offset n with
  | nil => exact ⟨h, by simp [consume]⟩
  | cons part _ ih =>
    have hlt := h.front part rfl
    rw [consume]
    by_cases hn : n = 0
    · rw [if_pos hn, hn]
      exact ⟨h, rfl⟩
    · rw [if_neg hn]
      by_cases hsz : offset + min n (part.length - offset) = part.length
      · obtain ⟨hqd, hdr⟩ := ih (n := n - min n (part.length - offset)) (queued_tail h.nonempty)
        simp only [hsz, if_true]
        refine ⟨hqd, ?_⟩
        rw [hdr, drop_flatten_cons hlt.le, drop_append, length_drop, drop_zero]
        have hall : (part.drop offset).drop n = [] := by
          rw [drop_eq_nil_iff, length_drop]
          omega
        rw [hall, nil_append]
        congr 1
        omega
      · simp only [hsz, if_false]
        have hmin : min n (part.length - offset) = n := by omega
        rw [hmin, drop_drop]
        refine ⟨⟨h.nonempty, ?_, nofun⟩, rfl⟩
        intro _ hp
        cases hp
        omega

end Parts

/-! ### Queueing and sending -/

variable {bytes : Bytes} {parts : List Bytes}

theorem queued_append {offset : ℕ}
    (h : Queued parts offset) (hby : bytes ≠ []) : Queued (parts ++ [bytes]) offset where
  nonempty := forall_mem_append.mpr ⟨h.nonempty, forall_mem_singleton.mpr hby⟩
  front part hp := by
    cases parts with
    | nil =>
      cases hp
      rw [h.offset_eq rfl]
      exact length_pos_iff.mpr hby
    | cons => exact h.front part hp
  offset_eq hnil := absurd hnil (by simp)

theorem offset_le_flatten {offset : ℕ} (h : Queued parts offset) :
    offset ≤ parts.flatten.length := by
  cases parts with
  | nil =>
    rw [h.offset_eq rfl]
    exact Nat.zero_le _
  | cons part =>
    have hlt := h.front part rfl
    rw [flatten_cons, length_append]
    omega

theorem drop_flatten_append {offset : ℕ} (h : Queued parts offset) :
    (parts ++ [bytes]).flatten.drop offset = parts.flatten.drop offset ++ bytes := by
  rw [flatten_append, flatten_singleton, drop_append_of_le_length (offset_le_flatten h)]

def queue (bytes : Bytes) : EStateM ProtocolError PacketEncoder Unit := fun e =>
  if hroom : bytes.length > maximumPendingBytes - e.pendingBytes then
    .error (.framing .windowExceeded) e
  else if h : bytes = [] then
    .ok () e
  else
    .ok () { e with
      pending := e.pending ++ [bytes]
      pendingBytes := e.pendingBytes + bytes.length
      queued := queued_append e.queued h
      pendingBytes_eq := by
        rw [drop_flatten_append e.queued, length_append, ← e.pendingBytes_eq]
      pendingBytes_le := by
        have hle := e.pendingBytes_le
        omega }

def hasPending : Bool := !e.pending.isEmpty

def sent (count : ℕ) (h : count ≤ 2 ^ 64 - 1 - e.offset) :
    PacketEncoder where
  offset := e.offset + count
  pending := (consume e.pending e.pendingOffset count).1
  pendingOffset := (consume e.pending e.pendingOffset count).2
  pendingBytes := e.pendingBytes - count
  queued := (consume_spec e.queued).1
  pendingBytes_eq := by
    rw [(consume_spec e.queued).2, length_drop, ← e.pendingBytes_eq]
  pendingBytes_le := (Nat.sub_le _ _).trans e.pendingBytes_le
  offset_lt := by
    have hlt := e.offset_lt
    omega

def nextCount (capacity : ℕ) : ℕ :=
  min e.pendingBytes (min (capacity - overhead) (Frame.maximumPayloadSize - offsetSize))

/-- **The next fragment**, for a buffer of the given capacity; it is empty if
there is nothing to be sent. -/
def next (capacity : ℕ) : EStateM ProtocolError PacketEncoder Bytes := fun e =>
  if capacity ≤ overhead then
    .error (.framing .invalidCapacity) e
  else if e.nextCount capacity = 0 then
    .ok [] e
  else if h : e.nextCount capacity > 2 ^ 64 - 1 - e.offset then
    .error (.framing .invalidFragment) e
  else
    let payload := BigEndian.bytes offsetSize e.offset
      ++ gather e.pending e.pendingOffset (e.nextCount capacity)
    match (Frame.mk .fragment payload).encode with
    | .error error => .error error e
    | .ok encoded => .ok encoded (e.sent (e.nextCount capacity) (not_lt.mp h))

end PacketEncoder

/-! ## Putting a stream back together -/

/-- A range of the stream. -/
structure Fragment where
  offset : ℕ
  data : Bytes
  deriving DecidableEq

namespace Fragment

def stop (f : Fragment) : ℕ := f.offset + f.data.length

def payload (f : Fragment) : Bytes :=
  BigEndian.bytes PacketEncoder.offsetSize f.offset ++ f.data

def frame (f : Fragment) : Frame := ⟨.fragment, f.payload⟩

end Fragment

abbrev Apart (fragments : List Fragment) : Prop :=
  fragments.Pairwise fun a b => a.stop ≤ b.offset

theorem apart_nil : Apart [] := .nil

theorem above_nil : ∀ f ∈ ([] : List Fragment), 0 ≤ f.offset := by simp

theorem nonempty_nil : ∀ f ∈ ([] : List Fragment), f.data ≠ [] := by simp

theorem bytes_nil : 0 = (([] : List Fragment).map fun f => f.data.length).sum := rfl

theorem stop_nil : ∀ f ∈ ([] : List Fragment), f.stop < 2 ^ 64 := by simp

/-- **What has arrived and is not passed on.** -/
structure PacketReassembler where
  /-- The fragments that wait, in the order of their offsets. -/
  fragments : List Fragment := []
  offset : ℕ := 0
  bytes : ℕ := 0
  apart : Apart fragments := by exact apart_nil
  /-- What waits has not been passed on. -/
  above : ∀ f ∈ fragments, offset ≤ f.offset := by exact above_nil
  nonempty : ∀ f ∈ fragments, f.data ≠ [] := by exact nonempty_nil
  /-- The bytes that wait are counted. -/
  bytes_eq : bytes = (fragments.map fun f => f.data.length).sum := by exact bytes_nil
  /-- Offsets are numbers of 64 bits. -/
  stop_lt : ∀ f ∈ fragments, f.stop < 2 ^ 64 := by exact stop_nil

namespace PacketReassembler

open PacketEncoder

def maximumWindow : ℕ := 4 * 1024 * 1024

def maximumFragments : ℕ := 4096

variable (r : PacketReassembler)

def before (offset : ℕ) : List Fragment :=
  r.fragments.takeWhile fun f => f.offset < offset

def lowerBound (offset : ℕ) : List Fragment :=
  r.fragments.dropWhile fun f => f.offset < offset

def overlaps (f : Fragment) : Bool :=
  ((r.lowerBound f.offset).head?.any fun next => f.offset + f.data.length > next.offset)
    || ((r.before f.offset).getLast?.any fun prev => prev.offset + prev.data.length > f.offset)

structure Admits (r : PacketReassembler) (f : Fragment) : Prop where
  nonempty : f.data ≠ []
  above : r.offset ≤ f.offset
  /-- It does not reach beyond the window. -/
  window : f.stop ≤ r.offset + maximumWindow
  /-- Its end is a number of 64 bits. -/
  stop_lt : f.stop < 2 ^ 64
  room : r.fragments.length < maximumFragments
  /-- It overlaps neither of its neighbours. -/
  clear : r.overlaps f = false

section Insert

variable {r} {f : Fragment}

theorem before_append_lowerBound (r : PacketReassembler) (offset : ℕ) :
    r.before offset ++ r.lowerBound offset = r.fragments :=
  takeWhile_append_dropWhile

/-- A fragment that ends before the next one starts ends before all that
follow. -/
theorem stop_le_of_mem_lowerBound (h : r.Admits f) {b : Fragment}
    (hb : b ∈ r.lowerBound f.offset) : f.stop ≤ b.offset := by
  have hcl := (Bool.or_eq_false_iff.mp h.clear).1
  have hap := r.apart
  rw [← before_append_lowerBound r f.offset] at hap
  have hsf := (pairwise_append.mp hap).2.1
  cases hlw : r.lowerBound f.offset with
  | nil =>
    rw [hlw] at hb
    cases hb
  | cons next =>
    rw [hlw] at hcl hb hsf
    have hnx : f.stop ≤ next.offset := by simpa [Fragment.stop] using hcl
    rcases mem_cons.mp hb with rfl | hb
    · exact hnx
    · have hle := (pairwise_cons.mp hsf).1 b hb
      unfold Fragment.stop at *
      omega

/-- A fragment that starts behind the end of the previous one starts behind
the ends of all before it. -/
theorem stop_le_of_mem_before (h : r.Admits f) {a : Fragment}
    (ha : a ∈ r.before f.offset) : a.stop ≤ f.offset := by
  have hcl := (Bool.or_eq_false_iff.mp h.clear).2
  have hap := r.apart
  rw [← before_append_lowerBound r f.offset] at hap
  have hft := (pairwise_append.mp hap).1
  rcases eq_nil_or_concat' (r.before f.offset) with hnil | ⟨_, prev, hbe⟩
  · rw [hnil] at ha
    cases ha
  · rw [hbe] at hcl ha hft
    have hpr : prev.stop ≤ f.offset := by simpa [Fragment.stop] using hcl
    rcases mem_append.mp ha with ha | ha
    · have hle := (pairwise_append.mp hft).2.2 a ha prev (mem_singleton_self _)
      unfold Fragment.stop at *
      omega
    · rw [mem_singleton.mp ha]
      exact hpr

/-- **Comparing with the neighbours suffices**: a fragment put where its
offset belongs overlaps none. -/
theorem Admits.apart_insert (h : r.Admits f) :
    Apart (r.before f.offset ++ f :: r.lowerBound f.offset) := by
  have hap := r.apart
  rw [← before_append_lowerBound r f.offset] at hap
  obtain ⟨hbe, hlw, hac⟩ := pairwise_append.mp hap
  refine pairwise_append.mpr ⟨hbe, pairwise_cons.mpr ⟨?_, hlw⟩, ?_⟩
  · exact fun b hb => stop_le_of_mem_lowerBound h hb
  · intro a ha b hb
    rcases mem_cons.mp hb with rfl | hb
    · exact stop_le_of_mem_before h ha
    · exact hac a ha b hb

theorem mem_insert {g : Fragment} :
    g ∈ r.before f.offset ++ f :: r.lowerBound f.offset ↔ g = f ∨ g ∈ r.fragments := by
  rw [← before_append_lowerBound r f.offset]
  simp only [mem_append, mem_cons]
  tauto

def insert (r : PacketReassembler) (f : Fragment) (h : r.Admits f) : PacketReassembler where
  fragments := r.before f.offset ++ f :: r.lowerBound f.offset
  offset := r.offset
  bytes := r.bytes + f.data.length
  apart := h.apart_insert
  above g hg := by
    rcases mem_insert.mp hg with rfl | hg
    · exact h.above
    · exact r.above g hg
  nonempty g hg := by
    rcases mem_insert.mp hg with rfl | hg
    · exact h.nonempty
    · exact r.nonempty g hg
  bytes_eq := by
    have hsum := r.bytes_eq
    rw [← before_append_lowerBound r f.offset] at hsum
    simp only [map_append, map_cons, sum_append, sum_cons] at hsum ⊢
    omega
  stop_lt g hg := by
    rcases mem_insert.mp hg with rfl | hg
    · exact h.stop_lt
    · exact r.stop_lt g hg

end Insert

def fragmentOf (payload : Bytes) : Fragment where
  offset := value (payload.take offsetSize)
  data := payload.drop offsetSize

def exceeds (f : Fragment) : Prop :=
  f.data.length > maximumWindow ∨ f.offset - r.offset > maximumWindow - f.data.length
    ∨ f.data.length > 2 ^ 64 - 1 - f.offset ∨ r.fragments.length ≥ maximumFragments

instance (r : PacketReassembler) (f : Fragment) : Decidable (r.exceeds f) :=
  inferInstanceAs (Decidable (_ ∨ _))

theorem admits_of_checks {r : PacketReassembler} {payload : Bytes}
    (hsz : ¬payload.length ≤ offsetSize)
    (hab : ¬(fragmentOf payload).offset < r.offset) (hwi : ¬r.exceeds (fragmentOf payload))
    (hcl : ¬r.overlaps (fragmentOf payload) = true) : r.Admits (fragmentOf payload) := by
  have hne : 0 < (fragmentOf payload).data.length := by
    show 0 < (payload.drop _).length
    rw [length_drop]
    omega
  unfold exceeds at hwi
  simp only [not_or, not_lt, ge_iff_le, not_le] at hwi
  exact
    { nonempty := length_pos_iff.mp hne
      above := not_lt.mp hab
      window := by
        unfold Fragment.stop
        omega
      stop_lt := by
        unfold Fragment.stop
        omega
      room := hwi.2.2.2
      clear := by simpa using hcl }

/-- **Take in a fragment.** -/
def accept (payload : Bytes) : EStateM ProtocolError PacketReassembler Unit := fun r =>
  if hsize : payload.length ≤ offsetSize then
    .error (.framing .invalidFragment) r
  else if habove : (fragmentOf payload).offset < r.offset then
    .error (.framing .overlappingFragment) r
  else if hwindow : r.exceeds (fragmentOf payload) then
    .error (.framing .windowExceeded) r
  else if hclear : r.overlaps (fragmentOf payload) = true then
    .error (.framing .overlappingFragment) r
  else
    .ok () (r.insert (fragmentOf payload) (admits_of_checks hsize habove hwindow hclear))

def passed (first : Fragment) (rest : List Fragment)
    (h : r.fragments = first :: rest) (hoffset : first.offset = r.offset) :
    PacketReassembler where
  fragments := rest
  offset := r.offset + first.data.length
  bytes := r.bytes - first.data.length
  apart := by
    have hapart := r.apart
    rw [h] at hapart
    exact (pairwise_cons.mp hapart).2
  above g hg := by
    have hapart := r.apart
    rw [h] at hapart
    have hle := (pairwise_cons.mp hapart).1 g hg
    rwa [Fragment.stop, hoffset] at hle
  nonempty g hg := r.nonempty g (by rw [h]; exact mem_cons_of_mem _ hg)
  bytes_eq := by
    have hsum := r.bytes_eq
    rw [h, map_cons, sum_cons] at hsum
    omega
  stop_lt g hg := r.stop_lt g (by rw [h]; exact mem_cons_of_mem _ hg)

/-- **Pass on the fragment that comes next in the stream**, if it is there. -/
def take : EStateM ProtocolError PacketReassembler Bytes := fun r =>
  match h : r.fragments with
  | [] => .ok [] r
  | first :: rest =>
    if hoffset : first.offset = r.offset then
      .ok first.data (r.passed first rest h hoffset)
    else
      .ok [] r

def bufferedBytes : ℕ := r.bytes

/-! ### What the two operations do -/

theorem fragmentOf_payload {f : Fragment} (h : f.offset < 2 ^ 64) : fragmentOf f.payload = f := by
  have hlen := length_bytes offsetSize f.offset
  unfold fragmentOf Fragment.payload
  rw [take_left' hlen, drop_left' hlen, value_bytes]
  exact h

theorem accept_of_admits {r : PacketReassembler} {f : Fragment} (h : r.Admits f) :
    accept f.payload r = .ok () (r.insert f h) := by
  have hne := length_pos_iff.mpr h.nonempty
  have hsp := h.stop_lt
  have hwi := h.window
  have hab := h.above
  have hrm := h.room
  unfold Fragment.stop at hsp hwi
  have hf : fragmentOf f.payload = f := fragmentOf_payload (by omega)
  have hsz : ¬f.payload.length ≤ offsetSize := by
    unfold Fragment.payload
    rw [length_append, length_bytes]
    omega
  unfold accept
  rw [dif_neg hsz, dif_neg (by rw [hf]; omega), dif_neg, dif_neg (by rw [hf, h.clear]; simp)]
  · congr 1
    simp only [hf]
  · rw [hf]
    unfold exceeds
    omega

theorem take_of_nil {r : PacketReassembler} (h : r.fragments = []) : take r = .ok [] r := by
  unfold take
  split
  · rfl
  · rename_i heq
    rw [h] at heq
    cases heq

variable {first : Fragment} {rest : List Fragment}

theorem take_of_gap {r : PacketReassembler}
    (h : r.fragments = first :: rest) (hoffset : first.offset ≠ r.offset) : take r = .ok [] r := by
  unfold take
  split
  · rfl
  · rename_i heq
    rw [h] at heq
    cases heq
    rw [dif_neg hoffset]

theorem take_of_next {r : PacketReassembler}
    (h : r.fragments = first :: rest) (hoffset : first.offset = r.offset) :
    take r = .ok first.data (r.passed first rest h hoffset) := by
  unfold take
  split
  · rename_i heq
    rw [h] at heq
    cases heq
  · rename_i heq
    have heq' := heq
    rw [h] at heq'
    cases heq'
    rw [dif_pos hoffset]

end PacketReassembler

end Tailgate
