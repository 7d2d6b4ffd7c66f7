import Tailgate.PacketSending

/-!
# Runs of a reassembler

A reassembler is given ranges of a stream by someone who may send anything.
`Machine` has arithmetic that has no result where a sum wraps or a difference is
below zero; on a `PacketReassembler` this never happens (`accept?_machine`,
`take?_machine`). What has been taken is the stream from its start
(`run_consistent`), which may end before the first gap (`taken_before_gap`).
-/

namespace Tailgate

open List Option

namespace PacketReassembler

/-! ## Arithmetic of 64 bits -/

def add? (a b : ℕ) : Option ℕ := if a + b < 2 ^ 64 then some (a + b) else none

def sub? (a b : ℕ) : Option ℕ := if b ≤ a then some (a - b) else none

variable {a b : ℕ}

theorem add?_of_lt (h : a + b < 2 ^ 64) : add? a b = some (a + b) := if_pos h

theorem sub?_of_le (h : b ≤ a) : sub? a b = some (a - b) := if_pos h

/-! ## The plain reassembler -/

/-- **A reassembler as its fields.** -/
structure Machine where
  /-- The fragments that wait, in the order of their offsets. -/
  fragments : List Fragment := []
  offset : ℕ := 0
  bytes : ℕ := 0

namespace Machine

variable (m : Machine)

def before (offset : ℕ) : List Fragment :=
  m.fragments.takeWhile fun f => f.offset < offset

def lowerBound (offset : ℕ) : List Fragment :=
  m.fragments.dropWhile fun f => f.offset < offset

variable (f : Fragment)

def exceeds? : Option Bool :=
  if f.data.length > maximumWindow then some true
  else do
    let ahead ← sub? f.offset m.offset
    let room ← sub? maximumWindow f.data.length
    if ahead > room then some true
    else do
      let left ← sub? (2 ^ 64 - 1) f.offset
      if f.data.length > left then some true
      else some (decide (m.fragments.length ≥ maximumFragments))

def overlapsNext? : Option Bool :=
  match (m.lowerBound f.offset).head? with
  | none => some false
  | some next => do
    let stop ← add? f.offset f.data.length
    some (decide (stop > next.offset))

def overlapsPrevious? : Option Bool :=
  match (m.before f.offset).getLast? with
  | none => some false
  | some previous => do
    let stop ← add? previous.offset previous.data.length
    some (decide (stop > f.offset))

def overlaps? : Option Bool := do
  if ← m.overlapsNext? f then some true else m.overlapsPrevious? f

/-- **Take in a fragment.** -/
def accept? (payload : Bytes) : Option (EStateM.Result ProtocolError Machine Unit) :=
  let f := fragmentOf payload
  if payload.length ≤ PacketEncoder.offsetSize then some (.error (.framing .invalidFragment) m)
  else if f.offset < m.offset then some (.error (.framing .overlappingFragment) m)
  else do
    if ← m.exceeds? f then some (.error (.framing .windowExceeded) m)
    else if ← m.overlaps? f then some (.error (.framing .overlappingFragment) m)
    else do
      let bytes ← add? m.bytes f.data.length
      some (.ok () { m with
        fragments := m.before f.offset ++ f :: m.lowerBound f.offset
        bytes })

/-- **Pass on the fragment that comes next in the stream**, if it is there. -/
def take? : Option (EStateM.Result ProtocolError Machine Bytes) :=
  match m.fragments with
  | [] => some (.ok [] m)
  | first :: rest =>
    if first.offset ≠ m.offset then some (.ok [] m)
    else do
      let offset ← add? m.offset first.data.length
      let bytes ← sub? m.bytes first.data.length
      some (.ok first.data { fragments := rest, offset, bytes })

end Machine

def machine (r : PacketReassembler) : Machine := ⟨r.fragments, r.offset, r.bytes⟩

def machineResult {α : Type} :
    EStateM.Result ProtocolError PacketReassembler α → EStateM.Result ProtocolError Machine α
  | .ok a r => .ok a r.machine
  | .error e r => .error e r.machine

/-! ## Nothing wraps -/

def InWindow (r : PacketReassembler) : Prop :=
  ∀ f ∈ r.fragments, f.stop ≤ r.offset + maximumWindow

theorem sum_length_le {frags : List Fragment} (hap : Apart frags) {lower upper : ℕ}
    (hlw : ∀ f ∈ frags, lower ≤ f.offset) (hup : ∀ f ∈ frags, f.stop ≤ upper) :
    (frags.map fun f => f.data.length).sum ≤ upper - lower := by
  induction frags generalizing lower with
  | nil => simp
  | cons f _ ih =>
    obtain ⟨hfi, hrs⟩ := pairwise_cons.mp hap
    have hle := hlw f mem_cons_self
    have hsp := hup f mem_cons_self
    have hsum := ih hrs hfi fun g hg => hup g (mem_cons_of_mem f hg)
    rw [map_cons, sum_cons]
    unfold Fragment.stop at hsp hsum
    omega

variable {r : PacketReassembler}

theorem InWindow.bytes_le (h : r.InWindow) : r.bytes ≤ maximumWindow := by
  rw [r.bytes_eq]
  exact (sum_length_le r.apart r.above h).trans (by omega)

theorem InWindow.insert (h : r.InWindow) {f : Fragment}
    (hf : r.Admits f) : (r.insert f hf).InWindow := by
  intro g hg
  rcases mem_insert.mp hg with rfl | hg
  · exact hf.window
  · exact h g hg

theorem InWindow.passed (h : r.InWindow) {first : Fragment}
    {rest : List Fragment} (hfg : r.fragments = first :: rest)
    (hoffset : first.offset = r.offset) : (r.passed first rest hfg hoffset).InWindow := by
  intro g hg
  have hle := h g (by rw [hfg]; exact mem_cons_of_mem first hg)
  show g.stop ≤ r.offset + first.data.length + maximumWindow
  omega

section Agreement

variable {f : Fragment} {payload : Bytes}

theorem offset_fragmentOf_lt (payload : Bytes) : (fragmentOf payload).offset < 2 ^ 64 := by
  have hlt := BigEndian.value_lt (payload.take PacketEncoder.offsetSize)
  have hle : (payload.take PacketEncoder.offsetSize).length ≤ 8 := length_take_le _ _
  have hpow : 256 ^ (payload.take PacketEncoder.offsetSize).length ≤ 256 ^ 8 :=
    Nat.pow_le_pow_right (by decide) hle
  exact hlt.trans_le (hpow.trans (by decide))

theorem exceeds?_machine (hab : r.offset ≤ f.offset) (hlt : f.offset < 2 ^ 64) :
    r.machine.exceeds? f = some (decide (r.exceeds f)) := by
  unfold Machine.exceeds?
  by_cases hsz : f.data.length > maximumWindow
  · rw [if_pos hsz, decide_eq_true (show r.exceeds f from .inl hsz)]
  · have hlf : f.offset ≤ 2 ^ 64 - 1 := by omega
    rw [if_neg hsz, show sub? f.offset r.machine.offset = some (f.offset - r.offset) from
      sub?_of_le hab, sub?_of_le (not_lt.mp hsz), sub?_of_le hlf]
    simp only [bind_eq_bind, bind_some]
    by_cases hah : f.offset - r.offset > maximumWindow - f.data.length
    · rw [if_pos hah, decide_eq_true (show r.exceeds f from .inr (.inl hah))]
    · rw [if_neg hah]
      by_cases hend : f.data.length > 2 ^ 64 - 1 - f.offset
      · rw [if_pos hend, decide_eq_true (show r.exceeds f from .inr (.inr (.inl hend)))]
      · rw [if_neg hend, some.injEq, decide_eq_decide]
        show r.fragments.length ≥ maximumFragments ↔ r.exceeds f
        unfold exceeds
        simp only [hah, hend, hsz, false_or]

theorem overlaps?_machine (hsp : f.stop < 2 ^ 64) :
    r.machine.overlaps? f = some (r.overlaps f) := by
  have hnx : r.machine.overlapsNext? f = some ((r.lowerBound f.offset).head?.any
      fun next => decide (f.offset + f.data.length > next.offset)) := by
    show (match (r.lowerBound f.offset).head? with | none => _ | some next => _) = _
    cases (r.lowerBound f.offset).head? with
    | none => rfl
    | some =>
      rw [add?_of_lt hsp]
      rfl
  have hpr : r.machine.overlapsPrevious? f = some ((r.before f.offset).getLast?.any
      fun prev => decide (prev.offset + prev.data.length > f.offset)) := by
    show (match (r.before f.offset).getLast? with | none => _ | some prev => _) = _
    cases hla : (r.before f.offset).getLast? with
    | none => rfl
    | some prev =>
      have hmem : prev ∈ r.fragments :=
        ( takeWhile_prefix _).sublist.mem (mem_of_getLast? hla)
      show (add? prev.offset prev.data.length >>= _) = _
      rw [add?_of_lt (r.stop_lt prev hmem)]
      rfl
  unfold Machine.overlaps? overlaps
  rw [hnx, hpr]
  cases (r.lowerBound f.offset).head?.any
    (fun next => decide (f.offset + f.data.length > next.offset)) <;> rfl

theorem accept_cases (r : PacketReassembler) (payload : Bytes) :
    (∃ h : r.Admits (fragmentOf payload),
        accept payload r = .ok () (r.insert (fragmentOf payload) h))
      ∨ ∃ e, accept payload r = .error e r := by
  unfold accept
  by_cases hsz : payload.length ≤ PacketEncoder.offsetSize
  · exact .inr ⟨_, dif_pos hsz⟩
  rw [dif_neg hsz]
  by_cases hab : (fragmentOf payload).offset < r.offset
  · exact .inr ⟨_, dif_pos hab⟩
  rw [dif_neg hab]
  by_cases hwi : r.exceeds (fragmentOf payload)
  · exact .inr ⟨_, dif_pos hwi⟩
  rw [dif_neg hwi]
  by_cases hcl : r.overlaps (fragmentOf payload) = true
  · exact .inr ⟨_, dif_pos hcl⟩
  · exact .inl ⟨_, dif_neg hcl⟩

/-- **Taking in a fragment does not wrap**, whatever the fragment. -/
theorem accept?_machine (h : r.InWindow) (payload : Bytes) :
    r.machine.accept? payload = some (machineResult (accept payload r)) := by
  unfold Machine.accept? accept
  by_cases hsz : payload.length ≤ PacketEncoder.offsetSize
  · simp only [hsz, if_true]
    rfl
  · rw [dif_neg hsz]
    simp only [hsz, if_false]
    by_cases hab : (fragmentOf payload).offset < r.offset
    · rw [dif_pos hab]
      exact if_pos hab
    · rw [dif_neg hab]
      refine (if_neg hab).trans ?_
      rw [exceeds?_machine (not_lt.mp hab) (offset_fragmentOf_lt payload)]
      by_cases hwi : r.exceeds (fragmentOf payload)
      · rw [dif_pos hwi, decide_eq_true hwi]
        rfl
      · rw [dif_neg hwi, decide_eq_false hwi]
        have hsp : (fragmentOf payload).stop < 2 ^ 64 := by
          have hlt := offset_fragmentOf_lt payload
          unfold exceeds at hwi
          unfold Fragment.stop
          omega
        simp only [bind_eq_bind, bind_some, Bool.false_eq_true, if_false]
        rw [overlaps?_machine hsp]
        by_cases hcl : r.overlaps (fragmentOf payload) = true
        · rw [dif_pos hcl, hcl]
          rfl
        · rw [dif_neg hcl, Bool.eq_false_iff.mpr hcl]
          have hby : r.bytes + (fragmentOf payload).data.length < 2 ^ 64 := by
            have hle := h.bytes_le
            unfold exceeds at hwi
            unfold maximumWindow at hle hwi
            omega
          rw [show add? r.machine.bytes (fragmentOf payload).data.length
            = some (r.bytes + (fragmentOf payload).data.length) from add?_of_lt hby]
          rfl

/-- **Passing on a fragment does not wrap.** -/
theorem take?_machine (r : PacketReassembler) :
    r.machine.take? = some (machineResult (take r)) := by
  unfold Machine.take?
  cases hfg : r.machine.fragments with
  | nil =>
    rw [take_of_nil hfg]
    rfl
  | cons first rest =>
    have hfg : r.fragments = first :: rest := hfg
    by_cases hoffset : first.offset = r.offset
    · have hmem : first ∈ r.fragments := by
        rw [hfg]
        exact mem_cons_self
      have hsp := r.stop_lt first hmem
      have hby : first.data.length ≤ r.bytes := by
        rw [r.bytes_eq, hfg, map_cons, sum_cons]
        omega
      rw [Fragment.stop, hoffset] at hsp
      rw [take_of_next hfg hoffset]
      refine (if_neg (not_not.mpr hoffset)).trans ?_
      rw [show add? r.machine.offset first.data.length = some (r.offset + first.data.length) from
        add?_of_lt hsp, show sub? r.machine.bytes first.data.length
        = some (r.bytes - first.data.length) from sub?_of_le hby]
      rfl
    · rw [take_of_gap hfg hoffset]
      exact if_pos hoffset

end Agreement

/-! ## Runs -/

inductive Call
  | accept (payload : Bytes)
  | take

/-- **A reassembler and what came of the calls made on it.** -/
structure Reassembly where
  machine : Machine := {}
  accepted : List Fragment := []
  taken : List Bytes := []

namespace Reassembly

variable (s : Reassembly)

def step? : Call → Option Reassembly
  | .accept payload => do
    match ← s.machine.accept? payload with
    | .ok _ m => some { s with machine := m, accepted := s.accepted ++ [fragmentOf payload] }
    | .error _ m => some { s with machine := m }
  | .take => do
    match ← s.machine.take? with
    | .ok data m => some { s with machine := m, taken := s.taken ++ [data] }
    | .error _ m => some { s with machine := m }

def run? (calls : List Call) : Option Reassembly := calls.foldlM step? {}

def delivered : Bytes := s.taken.flatten

def Covered (i : ℕ) : Prop := ∃ f ∈ s.accepted, f.offset ≤ i ∧ i < f.stop

/-- All bytes of the stream before this one were taken in, and this one was
not. -/
def FirstGap (i : ℕ) : Prop := (∀ j < i, s.Covered j) ∧ ¬s.Covered i

/-- **What holds of a reassembler at any time.** -/
structure Consistent (s : Reassembly) : Prop where
  /-- No two fragments that wait overlap. -/
  apart : Apart s.machine.fragments
  /-- What waits has not been passed on. -/
  above : ∀ f ∈ s.machine.fragments, s.machine.offset ≤ f.offset
  /-- What waits lies within the window. -/
  window : ∀ f ∈ s.machine.fragments, f.stop ≤ s.machine.offset + maximumWindow
  /-- The bytes that wait are counted. -/
  bytes_eq : s.machine.bytes = (s.machine.fragments.map fun f => f.data.length).sum
  /-- The bytes that were passed on are counted. -/
  offset_eq : s.machine.offset = s.delivered.length
  /-- No two fragments that were taken in overlap. -/
  accepted_apart : s.accepted.Pairwise fun a b => a.stop ≤ b.offset ∨ b.stop ≤ a.offset
  /-- What was passed on is the stream from its start, byte by byte. -/
  delivered_eq : ∀ i < s.delivered.length, ∃ f ∈ s.accepted, f.offset ≤ i ∧ i < f.stop
    ∧ s.delivered[i]? = f.data[i - f.offset]?
  /-- If nothing can be passed on, it ends at the first gap. -/
  gap : s.machine.take? = some (.ok [] s.machine) → s.FirstGap s.delivered.length
  /-- A call that throws changes nothing. -/
  unchanged : ∀ payload error m, s.machine.accept? payload = some (.error error m) → m = s.machine

/-- **A run so far**: the fragments that were passed on tile the front of the
stream, and those that were taken in are these and the ones that wait. -/
structure Traces (s : Reassembly) (r : PacketReassembler) (passed : List Fragment) : Prop where
  /-- The fields are those of a reassembler. -/
  machine_eq : s.machine = r.machine
  /-- What waits lies within the window. -/
  window : r.InWindow
  /-- What was passed on tiles the front of the stream. -/
  tiled : Tiled 0 passed
  /-- It ends where the reassembler stands. -/
  offset_eq : r.offset = (dataOf passed).length
  delivered_eq : s.delivered = dataOf passed
  /-- What was taken in was passed on or waits. -/
  accepted_perm : s.accepted.Perm (passed ++ r.fragments)

section Steps

variable {s} {passed : List Fragment}

theorem traces_start : Traces {} {} [] where
  machine_eq := rfl
  window := nofun
  tiled := .intro
  offset_eq := rfl
  delivered_eq := rfl
  accepted_perm := .refl _

/-- A fragment is offered: it is put among those that wait, or nothing
changes. -/
theorem Traces.accept (h : Traces s r passed) (payload : Bytes) :
    ∃ s' r', s.step? (.accept payload) = some s' ∧ Traces s' r' passed := by
  rw [step?, h.machine_eq, accept?_machine h.window payload]
  rcases accept_cases r payload with ⟨had, hrun⟩ | ⟨_, hrun⟩
  · rw [hrun]
    refine ⟨_, _, rfl, rfl, h.window.insert had, h.tiled, h.offset_eq, h.delivered_eq, ?_⟩
    show (s.accepted ++ [fragmentOf payload]).Perm
      (passed ++ (r.before _ ++ fragmentOf payload :: r.lowerBound _))
    have hpm := h.accepted_perm
    rw [← before_append_lowerBound r (fragmentOf payload).offset] at hpm
    refine perm_append_comm.trans ?_
    rw [← append_assoc] at hpm ⊢
    exact (hpm.cons _).trans perm_middle.symm
  · rw [hrun]
    exact ⟨_, r, rfl, rfl, h.window, h.tiled, h.offset_eq, h.delivered_eq, h.accepted_perm⟩

/-- What comes next is asked for: the first fragment is passed on, or nothing
changes. -/
theorem Traces.take (h : Traces s r passed) :
    ∃ s' r' passed', s.step? .take = some s' ∧ Traces s' r' passed' := by
  rw [step?, h.machine_eq, take?_machine]
  -- a call that gives nothing leaves all as it is
  have hnt : Traces { s with machine := r.machine, taken := s.taken ++ [[]] } r passed := by
    refine ⟨rfl, h.window, h.tiled, h.offset_eq, ?_, h.accepted_perm⟩
    rw [← h.delivered_eq]
    show (s.taken ++ [[]]).flatten = s.taken.flatten
    simp
  cases hfg : r.fragments with
  | nil =>
    rw [take_of_nil hfg]
    exact ⟨_, r, passed, rfl, hnt⟩
  | cons first rest =>
    by_cases hoffset : first.offset = r.offset
    · rw [take_of_next hfg hoffset]
      have hfi : first ∈ r.fragments := by
        rw [hfg]
        exact mem_cons_self
      refine ⟨_, r.passed first rest hfg hoffset, passed ++ [first], rfl, rfl,
        h.window.passed hfg hoffset, ?_, ?_, ?_, ?_⟩
      · refine tiled_append.mpr ⟨h.tiled, ?_, r.nonempty first hfi, .intro⟩
        rw [hoffset, h.offset_eq, Nat.zero_add]
      · show r.offset + first.data.length = _
        rw [h.offset_eq, dataOf_append, length_append, dataOf_cons, length_append]
        rfl
      · show (s.taken ++ [first.data]).flatten = _
        rw [flatten_append, show s.taken.flatten = dataOf passed from h.delivered_eq,
          dataOf_append, flatten_singleton, dataOf_cons]
        simp [dataOf]
      · show s.accepted.Perm (passed ++ [first] ++ rest)
        rw [append_assoc, singleton_append, ← hfg]
        exact h.accepted_perm
    · rw [take_of_gap hfg hoffset]
      exact ⟨_, r, passed, rfl, hnt⟩

theorem Traces.step (h : Traces s r passed) (call : Call) :
    ∃ s' r' passed', s.step? call = some s' ∧ Traces s' r' passed' := by
  cases call with
  | accept payload =>
    obtain ⟨s', r', hsp, h'⟩ := h.accept payload
    exact ⟨s', r', passed, hsp, h'⟩
  | take => exact h.take

theorem traces_run (cs : List Call) : ∃ s r passed, run? cs = some s ∧ Traces s r passed := by
  have hfr : ∀ s r passed, Traces s r passed →
      ∃ s' r' passed', cs.foldlM step? s = some s' ∧ Traces s' r' passed' := by
    induction cs with
    | nil => exact fun s r passed h => ⟨s, r, passed, rfl, h⟩
    | cons call _ ih =>
      intro _ _ _ h
      obtain ⟨s₁, r₁, passed₁, hsp, h₁⟩ := h.step call
      obtain ⟨s', r', passed', hrun, h'⟩ := ih s₁ r₁ passed₁ h₁
      refine ⟨s', r', passed', ?_, h'⟩
      rw [foldlM_cons, hsp]
      exact hrun
  exact hfr {} {} [] traces_start

theorem Traces.apart (h : Traces s r passed) : Apart (passed ++ r.fragments) := by
  refine pairwise_append.mpr ⟨h.tiled.apart, r.apart, fun a ha b hb => ?_⟩
  have hsp := (h.tiled.bounds ha).2.2
  have hab := r.above b hb
  rw [Nat.zero_add, ← h.offset_eq] at hsp
  exact hsp.trans hab

/-- Where nothing can be passed on, no fragment that was taken in has the next
byte. -/
theorem Traces.not_covered (h : Traces s r passed)
    (htk : s.machine.take? = some (.ok [] s.machine)) : ¬s.Covered r.offset := by
  rintro ⟨f, hf, _, _⟩
  rcases mem_append.mp (h.accepted_perm.mem_iff.mp hf) with hf | hf
  · have hsp := (h.tiled.bounds hf).2.2
    rw [Nat.zero_add, ← h.offset_eq] at hsp
    omega
  · have hab := r.above f hf
    -- the fragment that has the next byte starts with it, and no other comes before it
    cases hfg : r.fragments with
    | nil =>
      rw [hfg] at hf
      cases hf
    | cons first =>
      have hfi : first ∈ r.fragments := by
        rw [hfg]
        exact mem_cons_self
      have hoffset : first.offset = r.offset := by
        have hfi := r.above first hfi
        have hap := r.apart
        rw [hfg] at hap hf
        rcases mem_cons.mp hf with rfl | hf
        · omega
        · have hsp := (pairwise_cons.mp hap).1 f hf
          unfold Fragment.stop at hsp
          omega
      rw [h.machine_eq, take?_machine, take_of_next hfg hoffset] at htk
      exact r.nonempty first hfi (EStateM.Result.ok.inj (some.inj htk)).1

/-- **A run so far is consistent.** -/
theorem Traces.consistent (h : Traces s r passed) : s.Consistent where
  apart := by
    rw [h.machine_eq]
    exact r.apart
  above := by
    rw [h.machine_eq]
    exact r.above
  window := by
    rw [h.machine_eq]
    exact h.window
  bytes_eq := by
    rw [h.machine_eq]
    exact r.bytes_eq
  offset_eq := by
    rw [h.machine_eq, h.delivered_eq]
    exact h.offset_eq
  accepted_apart := by
    refine (h.accepted_perm.pairwise_iff ?_).mpr (h.apart.imp .inl)
    exact fun hab => hab.symm
  delivered_eq i hi := by
    rw [h.delivered_eq] at hi ⊢
    obtain ⟨f, hf, hle, hlt, hby⟩ := h.tiled.getElem? hi
    rw [Nat.zero_add] at hle hlt hby
    exact ⟨f, h.accepted_perm.mem_iff.mpr (mem_append_left _ hf), hle, hlt, hby⟩
  gap htk := by
    have hgap := h.not_covered htk
    rw [h.offset_eq, ← h.delivered_eq] at hgap
    refine ⟨fun i hi => ?_, hgap⟩
    rw [h.delivered_eq] at hi
    obtain ⟨f, hf, hle, hlt, -⟩ := h.tiled.getElem? hi
    rw [Nat.zero_add] at hle hlt
    exact ⟨f, h.accepted_perm.mem_iff.mpr (mem_append_left _ hf), hle, hlt⟩
  unchanged payload error m hrun := by
    rw [h.machine_eq, accept?_machine h.window] at hrun
    rcases accept_cases r payload with ⟨_, hac⟩ | ⟨_, hac⟩
    · rw [hac] at hrun
      cases hrun
    · rw [hac] at hrun
      cases hrun
      exact h.machine_eq.symm

end Steps

/-- **A reassembler is consistent at any time**, whatever it is given: no
computation of 64 bits wraps, what waits does not overlap, has not been passed
on, lies within the window and is counted, a call that throws changes nothing,
and what was passed on is the stream from its start, each byte once and in
order. It never goes beyond the first gap, and ends at it once a call gives
nothing. -/
theorem run_consistent (calls : List Call) : ∃ s, run? calls = some s ∧ s.Consistent := by
  obtain ⟨s, _, _, hrun, h⟩ := traces_run calls
  exact ⟨s, hrun, h.consistent⟩

/-- **A call passes on one fragment**, even if the next byte is there. -/
theorem taken_before_gap : ∃ calls s, run? calls = some s ∧ calls.getLast? = some .take
      ∧ s.delivered = [7] ∧ ¬s.FirstGap s.delivered.length := by
  refine ⟨[.accept (Fragment.payload ⟨0, [7]⟩), .accept (Fragment.payload ⟨1, [8]⟩), .take], _, rfl,
    rfl, rfl, fun hgap => hgap.2 ⟨⟨1, [8]⟩, by decide, by decide, by decide⟩⟩

end Reassembly

end PacketReassembler

end Tailgate
