import Tailgate.BigEndian
import Tailgate.LossyQueues

/-!
# The queue before a DERP connection

Packets for a relay wait in two queues, within one limit of packets and one of bytes.
Control packets are sent first, and where room has to be made the oldest data packet is
dropped first. Every packet is accounted for (`accounted_run`). A data packet takes nothing
from the control packets exactly if they leave room or it is too large
(`control_push_data`).
-/

namespace Tailgate

open LossyQueue Function

/-- A packet for a peer. -/
structure DerpSendQueue.Packet where
  destination : Bytes
  payload : Bytes
  deriving DecidableEq

inductive DerpSendQueue.Priority
  | data
  | control
  deriving DecidableEq

/-- What became of a packet. -/
structure DerpSendQueue.PushResult where
  accepted : Bool := false
  droppedPackets : ℕ := 0

/-- **The queue**, with the packets of each priority. -/
structure DerpSendQueue where
  maximumPackets : ℕ
  maximumBytes : ℕ
  bytes : ℕ := 0
  queued : DerpSendQueue.Priority → List DerpSendQueue.Packet := fun _ => []

namespace DerpSendQueue

def new (maximumPackets maximumBytes : ℕ) : Except String DerpSendQueue :=
  if maximumPackets = 0 ∨ maximumBytes = 0 then
    .error "DERP queue limits must be positive."
  else
    .ok { maximumPackets, maximumBytes }

/-- A sum over what is kept for the two priorities. -/
def sum (measure : List Packet → ℕ) (kept : Priority → List Packet) : ℕ :=
  measure (kept .control) + measure (kept .data)

variable (q : DerpSendQueue)

def size : ℕ := sum List.length q.queued

def popFront (priority : Priority) : Option (Packet × DerpSendQueue) :=
  match q.queued priority with
  | [] => none
  | packet :: rest =>
    some (packet, { q with
      bytes := q.bytes - packet.payload.length
      queued := update q.queued priority rest })

/-- The loop that makes room for a payload, with the count of what it has dropped. -/
def makeRoom (length : ℕ) : ℕ → DerpSendQueue → ℕ → DerpSendQueue × ℕ
  | 0, q, dropped => (q, dropped)
  | turns + 1, q, dropped =>
    if 0 < q.size ∧ (q.size ≥ q.maximumPackets ∨ q.bytes + length > q.maximumBytes) then
      match q.popFront (if q.queued .data = [] then .control else .data) with
      | none => (q, dropped)
      | some (_, q) => makeRoom length turns q (dropped + 1)
    else
      (q, dropped)

def push (packet : Packet) (priority : Priority) : PushResult × DerpSendQueue :=
  if packet.payload.length > q.maximumBytes then
    ({}, q)
  else
    let (q, dropped) := makeRoom packet.payload.length q.size q 0
    (⟨true, dropped⟩, { q with
      bytes := q.bytes + packet.payload.length
      queued := update q.queued priority (q.queued priority ++ [packet]) })

def pop : Option Packet × DerpSendQueue :=
  match q.popFront (if q.queued .control = [] then .data else .control) with
  | none => (none, q)
  | some (packet, q) => (some packet, q)

/-! ## Making room -/

def payloads (packets : List Packet) : ℕ := (packets.map fun packet => packet.payload.length).sum

/-- The bytes that are counted are those that are queued. -/
def Counted : Prop := q.bytes = sum payloads q.queued

/-- The control packets leave room for a payload. -/
structure Spares (q : DerpSendQueue) (length : ℕ) : Prop where
  packets : (q.queued .control).length < q.maximumPackets
  bytes : payloads (q.queued .control) + length ≤ q.maximumBytes

/-- **What is left when room has been made**: the packets `lost` came first, and no
control packet is among them if the others leave room. -/
structure Thinned (length : ℕ) (q q' : DerpSendQueue) (lost : Priority → List Packet) : Prop where
  queued : ∀ priority, q.queued priority = lost priority ++ q'.queued priority
  counted : q'.Counted
  limits : q'.maximumPackets = q.maximumPackets ∧ q'.maximumBytes = q.maximumBytes
  room : q'.size = 0 ∨ q'.size < q.maximumPackets ∧ q'.bytes + length ≤ q.maximumBytes
  spared : q.Spares length → lost .control = []

variable {q} {length : ℕ} {priority : Priority}

theorem sum_update (measure : List Packet → ℕ) (kept : Priority → List Packet)
    (priority : Priority) (packets : List Packet) :
    sum measure (update kept priority packets) + measure (kept priority)
      = sum measure kept + measure packets := by
  cases priority <;> simp [sum] <;> omega

theorem payloads_concat (pkts : List Packet) (pkt : Packet) :
    payloads (pkts ++ [pkt]) = payloads pkts + pkt.payload.length := by
  simp [payloads]

theorem Counted.eq_zero (h : q.Counted) (hsz : q.size = 0) : q.bytes = 0 := by
  obtain ⟨hcn, hdt⟩ := Nat.add_eq_zero_iff.mp hsz
  rw [h, sum, List.length_eq_zero_iff.mp hcn, List.length_eq_zero_iff.mp hdt]
  rfl

/-- The front of a queue, and what taking it leaves. -/
theorem popFront_of_cons {packet : Packet} {rest : List Packet}
    (h : q.queued priority = packet :: rest) (hcd : q.Counted) :
    ∃ q', q.popFront priority = some (packet, q') ∧ q'.queued = update q.queued priority rest
      ∧ q'.Counted ∧ q.size = q'.size + 1 ∧ q'.bytes ≤ q.bytes
      ∧ q'.maximumPackets = q.maximumPackets ∧ q'.maximumBytes = q.maximumBytes := by
  have hby := sum_update payloads q.queued priority rest
  have hsz := sum_update List.length q.queued priority rest
  rw [h] at hby hsz
  have hcn : payloads (packet :: rest) = packet.payload.length + payloads rest := rfl
  unfold Counted at hcd
  refine ⟨{ q with
    bytes := q.bytes - packet.payload.length
    queued := update q.queued priority rest }, ?_, rfl, ?_, ?_, Nat.sub_le .., rfl, rfl⟩
  · rw [popFront, h]
  · unfold Counted
    dsimp only
    omega
  · rw [List.length_cons] at hsz
    unfold size
    dsimp only
    omega

theorem makeRoom_thinned {turns dropped : ℕ} (h : q.Counted) (htu : q.size ≤ turns) :
    ∃ q' lost, makeRoom length turns q dropped = (q', dropped + sum List.length lost)
      ∧ Thinned length q q' lost := by
  induction turns generalizing q dropped with
  | zero =>
    exact ⟨q, fun _ => [], rfl, fun _ => rfl, h, ⟨rfl, rfl⟩, .inl (Nat.le_zero.mp htu),
      fun _ => rfl⟩
  | succ _ ih =>
    rw [makeRoom]
    split
    case isFalse hrm =>
      exact ⟨q, fun _ => [], rfl, fun _ => rfl, h, ⟨rfl, rfl⟩, by omega, fun _ => rfl⟩
    case isTrue hfl =>
      obtain ⟨priority, hpr⟩ : ∃ priority, priority =
        if q.queued .data = [] then Priority.control else .data := ⟨_, rfl⟩
      rw [← hpr]
      have hno : priority = .control → q.queued .data = [] := by
        intro hcn
        by_contra hdt
        rw [if_neg hdt, hcn] at hpr
        cases hpr
      cases hft : q.queued priority with
      | nil =>
        -- then there is nothing at all
        have hzero : q.size = 0 := by
          cases priority with
          | control => rw [size, sum, hft, hno rfl]; rfl
          | data => rw [if_pos hft] at hpr; cases hpr
        omega
      | cons packet =>
        obtain ⟨q₁, hpop, hqd, hcd, hsz, -, hpc, hby⟩ :=
          popFront_of_cons hft h
        obtain ⟨q', lost, hrun, hth⟩ := @ih q₁ (dropped + 1) hcd (by omega)
        have hls := sum_update List.length lost priority (packet :: lost priority)
        rw [List.length_cons] at hls
        refine ⟨q', update lost priority (packet :: lost priority), ?_, fun other => ?_,
          hth.counted, ?_, ?_, fun hsp => ?_⟩
        · rw [hpop]
          dsimp only
          rw [hrun]
          congr 1
          omega
        · have hrs := hth.queued other
          rw [hqd] at hrs
          rcases eq_or_ne other priority with rfl | hne
          · rw [update_self] at hrs ⊢
            rw [hft, hrs, List.cons_append]
          · rw [update_of_ne hne] at hrs ⊢
            exact hrs
        · exact ⟨hth.limits.1.trans hpc, hth.limits.2.trans hby⟩
        · rw [← hpc, ← hby]
          exact hth.room
        · cases priority with
          | control =>
            -- with no data queued, there is room already
            have hsz : q.size = (q.queued .control).length := by
              rw [size, sum, hno rfl]
              rfl
            have hby : q.bytes = payloads (q.queued .control) := by
              rw [h, sum, hno rfl]
              rfl
            obtain ⟨_, _⟩ := hsp
            omega
          | data =>
            refine hth.spared ⟨?_, ?_⟩
            · rw [hqd, hpc]
              exact hsp.packets
            · rw [hqd, hby]
              exact hsp.bytes

/-- **What a push does.** -/
theorem push_cases (h : q.Counted) (pkt : Packet) (priority : Priority) :
    q.maximumBytes < pkt.payload.length ∧ q.push pkt priority = ({}, q)
      ∨ pkt.payload.length ≤ q.maximumBytes ∧ ∃ q' lost, Thinned pkt.payload.length q q' lost
        ∧ q.push pkt priority = (⟨true, sum List.length lost⟩, { q' with
          bytes := q'.bytes + pkt.payload.length
          queued := update q'.queued priority (q'.queued priority ++ [pkt]) }) := by
  by_cases hlr : pkt.payload.length > q.maximumBytes
  · exact .inl ⟨hlr, if_pos hlr⟩
  · obtain ⟨q', lost, hrun, hth⟩ := makeRoom_thinned h (le_refl _)
    refine .inr ⟨not_lt.mp hlr, q', lost, hth, ?_⟩
    rw [push, if_neg hlr, hrun, Nat.zero_add]

/-! ## Runs -/

inductive Call
  | push (packet : Packet) (priority : Priority)
  | pop

/-- A queue with what its callers have seen of it: what was accepted and what was popped,
of which priority, and how many packets were said to be dropped. -/
structure Trace where
  queue : DerpSendQueue
  accepted : Priority → List Packet := fun _ => []
  popped : Priority → List Packet := fun _ => []
  dropped : ℕ := 0

def record (seen : Priority → List Packet) (priority : Priority) (packets : List Packet) :
    Priority → List Packet :=
  update seen priority (seen priority ++ packets)

def Trace.step (t : Trace) : Call → Trace
  | .push packet priority =>
    let (result, queue) := t.queue.push packet priority
    { t with
      queue
      accepted := record t.accepted priority (if result.accepted then [packet] else [])
      dropped := t.dropped + result.droppedPackets }
  | .pop =>
    let (packet, queue) := t.queue.pop
    { t with
      queue
      popped := record t.popped (if t.queue.queued .control = [] then .data else .control)
        packet.toList }

def run (q : DerpSendQueue) (calls : List Call) : Trace := calls.foldl Trace.step { queue := q }

/-- **The queue is within its limits, and every packet accounted for.** -/
structure Bounded (maximumPackets maximumBytes : ℕ) (t : Trace) : Prop where
  limits : t.queue.maximumPackets = maximumPackets ∧ t.queue.maximumBytes = maximumBytes
  counted : t.queue.Counted
  size_le : t.queue.size ≤ maximumPackets
  bytes_le : t.queue.bytes ≤ maximumBytes
  accounted : ∃ lost, sum List.length lost = t.dropped ∧ ∀ priority, Accounted
    (t.accepted priority) (t.popped priority) (lost priority) (t.queue.queued priority)

variable {maximumPackets maximumBytes : ℕ} {t : Trace}

theorem Bounded.push (h : Bounded maximumPackets maximumBytes t) (hpc : 0 < maximumPackets)
    (packet : Packet) (priority : Priority) :
    Bounded maximumPackets maximumBytes (t.step (.push packet priority)) := by
  obtain ⟨⟨rfl, rfl⟩, hcd, hsz, hby, lost, hdr, hac⟩ := h
  rcases push_cases hcd packet priority with ⟨-, hps⟩ | ⟨_, q, gone, hth, hps⟩
  · simp only [Trace.step, hps]
    refine ⟨⟨rfl, rfl⟩, hcd, hsz, hby, lost, hdr, fun other => ?_⟩
    simpa [record] using hac other
  · have hrm := hth.room
    have hpy := sum_update payloads q.queued priority (q.queued priority ++ [packet])
    have hlen := sum_update List.length q.queued priority (q.queued priority ++ [packet])
    rw [payloads_concat] at hpy
    rw [List.length_append, List.length_singleton] at hlen
    have hem := hth.counted.eq_zero
    have hcd := hth.counted
    simp only [Trace.step, hps]
    unfold Counted size at *
    refine ⟨hth.limits, ?_, ?_, ?_, fun other => lost other ++ gone other, ?_, fun other => ?_⟩
    · unfold Counted
      dsimp only
      omega
    · unfold size
      dsimp only
      omega
    · dsimp only
      omega
    · unfold sum at hdr ⊢
      simp only [List.length_append]
      omega
    · have hls := (hth.queued other ▸ hac other).loseAll
      rcases eq_or_ne other priority with rfl | hne
      · simpa [record] using hls.enter packet
      · simpa [record, hne] using hls

theorem Bounded.pop (h : Bounded maximumPackets maximumBytes t) :
    Bounded maximumPackets maximumBytes (t.step .pop) := by
  obtain ⟨⟨rfl, rfl⟩, hcd, hsz, hby, lost, hdr, hac⟩ := h
  unfold Trace.step DerpSendQueue.pop
  dsimp only
  generalize (if t.queue.queued .control = [] then Priority.data else .control) = priority
  cases hft : t.queue.queued priority with
  | nil =>
    have hpop : t.queue.popFront priority = none := by rw [popFront, hft]
    rw [hpop]
    refine ⟨⟨rfl, rfl⟩, hcd, hsz, hby, lost, hdr, fun other => ?_⟩
    simpa [record] using hac other
  | cons =>
    obtain ⟨_, hpop, hqd, hcd', _, hby', hlm⟩ :=
      popFront_of_cons hft hcd
    rw [hpop]
    refine ⟨hlm, hcd', ?_, hby'.trans hby, lost, hdr, fun other => ?_⟩
    · dsimp only
      omega
    · have hot := hac other
      dsimp only
      rw [hqd]
      rcases eq_or_ne other priority with rfl | hne
      · rw [hft] at hot
        simpa [record] using hot.take
      · simpa [record, hne] using hot

theorem bounded_run (h : new maximumPackets maximumBytes = .ok q) (cs : List Call) :
    Bounded maximumPackets maximumBytes (run q cs) := by
  unfold new at h
  split at h
  · cases h
  next hps =>
    cases h
    refine List.foldlRecOn cs Trace.step ?_ fun t ht call _ => ?_
    · exact ⟨⟨rfl, rfl⟩, rfl, Nat.zero_le _, Nat.zero_le _, fun _ => [], rfl,
        fun _ => accounted_nil⟩
    · cases call with
      | push pkt priority => exact ht.push (by omega) pkt priority
      | pop => exact ht.pop

/-- **The queue has two classes and is bounded.** However it is used, the bytes it counts are
those it has, and it is within its limits. What was accepted of a class has been popped, in
order, was dropped and counted as such, or is queued. The next packet is a control packet if
there is one, and a packet that is refused changes nothing. -/
theorem accounted_run (h : new maximumPackets maximumBytes = .ok q) (calls : List Call) :
    let t := run q calls
    t.queue.bytes = sum payloads t.queue.queued
      ∧ t.queue.size ≤ maximumPackets ∧ t.queue.bytes ≤ maximumBytes
      ∧ t.queue.pop.1 = (t.queue.queued .control ++ t.queue.queued .data).head?
      ∧ (∀ priority, (t.popped priority).Sublist (t.accepted priority))
      ∧ (∃ lost, sum List.length lost = t.dropped ∧ ∀ priority, (t.accepted priority).Perm
        (t.popped priority ++ lost priority ++ t.queue.queued priority))
      ∧ ∀ packet priority, (t.queue.push packet priority).1.accepted = false →
        t.queue.push packet priority = ({}, t.queue) := by
  intro t
  obtain ⟨-, hcd, hsz, hby, lost, hdr, hac⟩ := bounded_run h calls
  refine ⟨hcd, hsz, hby, ?_, fun priority => (hac priority).sublist,
    ⟨lost, hdr, fun priority => (hac priority).perm⟩, fun packet priority hno => ?_⟩
  · unfold pop popFront
    cases hcn : t.queue.queued .control with
    | cons => simp [hcn]
    | nil => cases hdt : t.queue.queued .data <;> simp [hdt]
  · rcases push_cases hcd packet priority with ⟨-, hps⟩ | ⟨-, _, _, -, hps⟩
    · exact hps
    · rw [hps] at hno
      cases hno

theorem accounted_run_pair : ∃ q, new 1 64 = .ok q
    ∧ (run q [.push ⟨[], [1]⟩ .data, .push ⟨[], [2]⟩ .control]).queue.size ≤ 1 :=
  ⟨_, rfl, (accounted_run (show new 1 64 = _ from rfl) _).2.1⟩

/-- No control packet is dropped only if the others leave room. -/
theorem Thinned.spares {q' : DerpSendQueue} {lost : Priority → List Packet}
    (h : Thinned length q q' lost) (hpc : 0 < q.maximumPackets) (hle : length ≤ q.maximumBytes)
    (hno : q'.queued .control = q.queued .control) : q.Spares length := by
  rcases h.room with hsz | ⟨hsz, hby⟩
  · have hnil : q.queued .control = [] :=
      hno ▸ List.length_eq_zero_iff.mp (Nat.add_eq_zero_iff.mp hsz).1
    exact ⟨by rw [hnil]; exact hpc, by rw [hnil]; simpa [payloads] using hle⟩
  · have hcd := h.counted
    unfold Counted sum at hcd
    unfold size sum at hsz
    rw [hno] at hcd hsz
    exact ⟨by omega, by omega⟩

/-- **A data packet drops no control packet** exactly if it is too large to be queued at all or
the control packets leave room for it. -/
theorem control_push_data (h : new maximumPackets maximumBytes = .ok q) (calls : List Call)
    (packet : Packet) :
    ((run q calls).queue.push packet .data).2.queued .control
        = (run q calls).queue.queued .control ↔
      maximumBytes < packet.payload.length ∨
        (run q calls).queue.Spares packet.payload.length := by
  have hbd := bounded_run h calls
  have hpc : 0 < maximumPackets := Nat.pos_of_ne_zero fun hz => by simp [new, hz] at h
  rcases push_cases hbd.counted packet .data with ⟨hlr, hps⟩ | ⟨hle, q', lost, hth, hps⟩
  · rw [hps]
    exact iff_of_true rfl (.inl (hbd.limits.2 ▸ hlr))
  · rw [hps]
    refine ⟨fun hno => .inr (hth.spares (hbd.limits.1 ▸ hpc) hle hno), ?_⟩
    rintro (hlt | hsp)
    · rw [hbd.limits.2] at hle
      omega
    · have hqd := hth.queued .control
      rw [hth.spared hsp] at hqd
      exact hqd.symm

theorem control_push_data_full : ∃ q, new 2 64 = .ok q
    ∧ ((run q [.push ⟨[], [1]⟩ .data, .push ⟨[], [2]⟩ .control]).queue.push ⟨[], [3]⟩
      .data).2.queued .control = [⟨[], [2]⟩] :=
  ⟨_, rfl, (control_push_data (show new 2 64 = _ from rfl)
    [.push ⟨[], [1]⟩ .data, .push ⟨[], [2]⟩ .control] _).mpr (.inr ⟨by decide, by decide⟩)⟩

/-- **A data packet drops a control packet** where nothing but control packets is queued. -/
theorem data_drops_control : ∃ q, new 1 64 = .ok q
    ∧ (run q [.push ⟨[], [1]⟩ .control]).queue.queued .control = [⟨[], [1]⟩]
    ∧ ((run q [.push ⟨[], [1]⟩ .control]).queue.push ⟨[], [2]⟩ .data).1 = ⟨true, 1⟩
    ∧ ((run q [.push ⟨[], [1]⟩ .control]).queue.push ⟨[], [2]⟩ .data).2.queued .control = [] :=
  ⟨_, rfl, rfl, rfl, rfl⟩

end DerpSendQueue

end Tailgate
