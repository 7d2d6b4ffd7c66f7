import Tailgate.CircularBitmap
import Tailgate.TransitionSystem

/-!
# The window against replays

`ReplayWindow` remembers the counters close below the highest it has accepted in
a circular bitmap and refuses what is further below. A counter is `Fresh` if it
has not been accepted and is not too far below any that has. `Holds` relates a
window to the counters it has accepted, and `accept` is that rule
(`Holds.accept`). The loop, in 64 bits, does not end for the highest number;
`accept` is given the turns it may take.
-/

namespace Tailgate

open List

def ReplayWindow.windowSize : ℕ := 8192

def ReplayWindow.counterLimit : ℕ := 2 ^ 64

/-- **A window**, with the highest counter. -/
structure ReplayWindow where
  bitmap : Bitmap 128 64 := Bitmap.empty
  highest : ℕ := 0
  initialized : Bool := false

namespace ReplayWindow

def isSet (w : ReplayWindow) (counter : ℕ) : Bool := w.bitmap.test counter

def set (w : ReplayWindow) (counter : ℕ) : ReplayWindow :=
  { w with bitmap := w.bitmap.insert counter }

def clear (w : ReplayWindow) (counter : ℕ) : ReplayWindow :=
  { w with bitmap := w.bitmap.erase counter }

/-- Forget the counters from `value` up to `counter`, if this takes no more
than some number of turns. -/
def clearUpTo (counter : ℕ) : ℕ → ℕ → ReplayWindow → Option ReplayWindow
  | turns, value, w =>
    if value ≤ counter then
      match turns with
      | 0 => none
      | turns + 1 => clearUpTo counter turns ((value + 1) % counterLimit) (w.clear value)
    else
      some w

def advance (turns counter : ℕ) (w : ReplayWindow) : Option ReplayWindow := do
  let w ←
    if windowSize ≤ counter - w.highest then
      some { w with bitmap := Bitmap.empty }
    else
      clearUpTo counter turns ((w.highest + 1) % counterLimit) w
  some ({ w with highest := counter }.set counter)

/-- **Accept a counter, or refuse it.** -/
def accept (turns counter : ℕ) (w : ReplayWindow) : Option (Bool × ReplayWindow) :=
  if w.initialized = false then
    some (true, { w with initialized := true, highest := counter }.set counter)
  else if w.highest < counter then do
    let w ← w.advance turns counter
    some (true, w)
  else if windowSize ≤ w.highest - counter ∨ w.isSet counter = true then
    some (false, w)
  else
    some (true, w.set counter)

/-! ## The loop -/

variable {w : ReplayWindow} {turns counter value : ℕ}

theorem isSet_set (w : ReplayWindow) (counter c : ℕ) :
    (w.set counter).isSet c = true ↔ counter ≡ c [MOD windowSize] ∨ w.isSet c = true :=
  w.bitmap.test_insert counter c

theorem isSet_clear (w : ReplayWindow) (counter c : ℕ) :
    (w.clear counter).isSet c = true ↔ ¬counter ≡ c [MOD windowSize] ∧ w.isSet c = true :=
  w.bitmap.test_erase counter c

/-- **The loop ends** if the counter is not the highest there is, after one
turn for each counter in between, and has cleared their bits. -/
theorem exists_clearUpTo (w : ReplayWindow) (turns value : ℕ)
    (hcr : counter + 1 < counterLimit) (hvl : value ≤ counter + 1)
    (htu : counter + 1 ≤ value + turns) :
    ∃ w', clearUpTo counter turns value w = some w' ∧
      w'.highest = w.highest ∧ w'.initialized = w.initialized ∧
      ∀ c, w'.isSet c = true ↔
        w.isSet c = true ∧ ∀ v, value ≤ v → v ≤ counter → ¬v ≡ c [MOD windowSize] := by
  induction turns generalizing value w with
  | zero =>
    have hend : ¬value ≤ counter := by omega
    unfold clearUpTo
    rw [if_neg hend]
    exact ⟨w, rfl, rfl, rfl, fun c => ⟨fun h => ⟨h, fun v hv hv' => by omega⟩, fun h => h.1⟩⟩
  | succ _ ih =>
    unfold clearUpTo
    by_cases hgs : value ≤ counter
    · rw [if_pos hgs, Nat.mod_eq_of_lt (by omega)]
      obtain ⟨w', hw', hhg, hin, hset⟩ :=
        ih (w.clear value) (value + 1) (by omega) (by omega)
      refine ⟨w', hw', hhg, hin, fun c => ?_⟩
      rw [hset, isSet_clear]
      constructor
      · rintro ⟨⟨hfi, hbe⟩, hrs⟩
        refine ⟨hbe, fun v hv hv' => ?_⟩
        obtain rfl | hlt := hv.eq_or_lt
        · exact hfi
        · exact hrs v hlt hv'
      · rintro ⟨hbe, hall⟩
        exact ⟨⟨hall value le_rfl hgs, hbe⟩, fun v hv hv' => hall v (by omega) hv'⟩
    · rw [if_neg hgs]
      exact ⟨w, rfl, rfl, rfl, fun c => ⟨fun h => ⟨h, fun v hv hv' => by omega⟩, fun h => h.1⟩⟩

/-- **The loop does not end** if the counter is the highest there is. -/
theorem clearUpTo_eq_none (hcr : counter + 1 = counterLimit) (hvl : value < counterLimit) :
    clearUpTo counter turns value w = none := by
  induction turns generalizing value w with
  | zero =>
    unfold clearUpTo
    rw [if_pos (by omega)]
  | succ _ ih =>
    unfold clearUpTo
    rw [if_pos (by omega)]
    exact ih (Nat.mod_lt _ (by unfold counterLimit; omega))

/-! ## The rule -/

/-- **The rule against replays**: a counter is fresh if it has not been
accepted, and is above or not too far below all that have. -/
def Fresh (accepted : List ℕ) (counter : ℕ) : Prop :=
  counter ∉ accepted ∧ ∀ a ∈ accepted, a ≤ counter + 8191

instance (accepted : List ℕ) (counter : ℕ) : Decidable (Fresh accepted counter) :=
  inferInstanceAs (Decidable (_ ∧ _))

structure Holds (w : ReplayWindow) (accepted : List ℕ) : Prop where
  /-- A window is initialized once something has been accepted. -/
  initialized : w.initialized = true ↔ accepted ≠ []
  /-- The highest counter has been accepted. -/
  highest_mem : w.initialized = true → w.highest ∈ accepted
  le_highest : ∀ a ∈ accepted, a ≤ w.highest
  empty : w.initialized = false → ∀ c, w.isSet c = false
  /-- The bits in the window are those of accepted counters. -/
  isSet_iff : w.initialized = true → ∀ c ≤ w.highest, w.highest < c + windowSize →
    (w.isSet c = true ↔ c ∈ accepted)

theorem holds_nil : Holds {} [] := by
  refine ⟨by simp, by simp, by simp, fun _ c => ?_, by simp⟩
  exact Bitmap.test_empty c

namespace Holds

variable {accepted : List ℕ}

/-- A new highest counter, with the bits of the counters in between cleared. -/
theorem raise (hcr : ∀ a ∈ accepted, a < counter) {w' : ReplayWindow}
    (hset : ∀ c < counter, counter < c + windowSize → (w'.isSet c = true ↔ c ∈ accepted)) :
    Holds ({ w' with initialized := true, highest := counter }.set counter)
      (accepted ++ [counter]) where
  initialized := by simp [ReplayWindow.set]
  highest_mem _ := mem_append_right _ (mem_singleton_self counter)
  le_highest a ha := by
    obtain ha | ha := mem_append.mp ha
    · exact (hcr a ha).le
    · exact (mem_singleton.mp ha).le
  empty := nofun
  isSet_iff _ c hc hwi := by
    have hc : c ≤ counter := hc
    have hwi : counter < c + windowSize := hwi
    rw [isSet_set, Bitmap.modEq_iff_eq (by omega) (by unfold windowSize; omega),
      mem_append, mem_singleton, eq_comm (a := c), or_comm]
    obtain rfl | hlt := hc.eq_or_lt
    · simp
    · exact or_congr_left (hset c hlt hwi)

theorem fill (h : Holds w accepted) (hw : w.initialized = true) (hcr : counter ≤ w.highest)
    (hwi : w.highest < counter + windowSize) :
    Holds (w.set counter) (accepted ++ [counter]) where
  initialized := by simp [ReplayWindow.set, hw]
  highest_mem _ := mem_append_left _ (h.highest_mem hw)
  le_highest a ha := by
    obtain ha | ha := mem_append.mp ha
    · exact h.le_highest a ha
    · exact mem_singleton.mp ha ▸ hcr
  empty hw' := absurd (hw'.symm.trans hw) Bool.false_ne_true
  isSet_iff _ c hc hc' := by
    have hc : c ≤ w.highest := hc
    have hc' : w.highest < c + windowSize := hc'
    rw [isSet_set, Bitmap.modEq_iff_eq (by omega) (by omega), mem_append,
      mem_singleton, eq_comm (a := c), or_comm]
    exact or_congr_left (h.isSet_iff hw c hc hc')

/-- **A higher counter is accepted.** -/
theorem advance (h : Holds w accepted) (hw : w.initialized = true) (hhg : w.highest < counter)
    (hcr : counter + 1 < counterLimit) (htu : windowSize ≤ turns) :
    ∃ w', w.advance turns counter = some w' ∧ Holds w' (accepted ++ [counter]) := by
  have hab (a : ℕ) (ha : a ∈ accepted) : a < counter := (h.le_highest a ha).trans_lt hhg
  -- Every way to clear the bits in between leaves an initialized window.
  have hrs {w' : ReplayWindow} (hw' : w'.initialized = true)
      (hset : ∀ c < counter, counter < c + windowSize → (w'.isSet c = true ↔ c ∈ accepted)) :
      Holds ({ w' with highest := counter }.set counter) (accepted ++ [counter]) := by
    have hsm : { w' with highest := counter } =
        { w' with initialized := true, highest := counter } := by rw [hw']
    rw [hsm]
    exact raise hab hset
  unfold ReplayWindow.advance
  by_cases hfar : windowSize ≤ counter - w.highest
  · rw [if_pos hfar]
    refine ⟨_, rfl, hrs hw fun c hc hwi => ?_⟩
    have hno : ({ w with bitmap := Bitmap.empty } : ReplayWindow).isSet c = false :=
      Bitmap.test_empty c
    rw [hno]
    refine ⟨fun hfl => (nomatch hfl), fun hmem => ?_⟩
    have := h.le_highest c hmem
    omega
  · rw [if_neg hfar, Nat.mod_eq_of_lt (by omega)]
    obtain ⟨_, hw', -, hin, hset⟩ :=
      exists_clearUpTo w turns (w.highest + 1) hcr (by omega) (by omega)
    rw [hw']
    refine ⟨_, rfl, hrs (hin.trans hw) fun c hc hwi => ?_⟩
    rw [hset]
    by_cases hold : c ≤ w.highest
    · rw [h.isSet_iff hw c hold (by omega)]
      refine ⟨fun hmem => hmem.1, fun hmem => ⟨hmem, fun v hv hv' => ?_⟩⟩
      rw [Bitmap.modEq_iff_eq (by omega) (by omega)]
      omega
    · refine ⟨fun hmem => absurd (Nat.ModEq.refl c) (hmem.2 c (by omega) hc.le), fun hmem => ?_⟩
      exact absurd (h.le_highest c hmem) hold

/-- **A window accepts exactly what is fresh**, and holds it then. -/
theorem accept (h : Holds w accepted) (hcr : counter + 1 < counterLimit)
    (htu : windowSize ≤ turns) :
    ∃ w', w.accept turns counter = some (decide (Fresh accepted counter), w') ∧
      Holds w' (if Fresh accepted counter then accepted ++ [counter] else accepted) := by
  -- The cases of the code, each with what it says about the rule.
  suffices hru : (Fresh accepted counter ∧ ∃ w', w.accept turns counter = some (true, w') ∧
      Holds w' (accepted ++ [counter])) ∨
      ¬Fresh accepted counter ∧ w.accept turns counter = some (false, w) by
    obtain ⟨hfh, hw'⟩ | ⟨hsl, hw'⟩ := hru
    · rwa [decide_eq_true hfh, if_pos hfh]
    · rw [decide_eq_false hsl, if_neg hsl]
      exact ⟨w, hw', h⟩
  cases hw : w.initialized with
  | false =>
    have hem : accepted = [] := by
      by_contra hne
      simp [h.initialized.mpr hne] at hw
    subst hem
    refine .inl ⟨⟨not_mem_nil, by simp⟩, _, by unfold ReplayWindow.accept; rw [if_pos hw], ?_⟩
    refine raise (by simp) fun c _ _ => ?_
    rw [h.empty hw c]
    simp
  | true =>
    by_cases hhg : w.highest < counter
    · obtain ⟨_, hw', hhl⟩ := h.advance hw hhg hcr htu
      refine .inl ⟨⟨fun hmem => ?_, fun a ha => ?_⟩, _, ?_, hhl⟩
      · have := h.le_highest counter hmem
        omega
      · have := h.le_highest a ha
        omega
      · unfold ReplayWindow.accept
        rw [if_neg (by simp [hw]), if_pos hhg, hw']
        rfl
    · have hbl : counter ≤ w.highest := not_lt.mp hhg
      have hco : w.accept turns counter =
          if windowSize ≤ w.highest - counter ∨ w.isSet counter = true then some (false, w)
          else some (true, w.set counter) := by
        unfold ReplayWindow.accept
        rw [if_neg (by simp [hw]), if_neg hhg]
      by_cases hfar : windowSize ≤ w.highest - counter
      · refine .inr ⟨fun hfh => ?_, by rw [hco, if_pos (.inl hfar)]⟩
        have := hfh.2 _ (h.highest_mem hw)
        unfold windowSize at hfar
        omega
      · have hbit := h.isSet_iff hw counter hbl (by omega)
        by_cases hset : w.isSet counter = true
        · exact .inr ⟨fun hfh => hfh.1 (hbit.mp hset), by rw [hco, if_pos (.inr hset)]⟩
        · refine .inl ⟨⟨fun hmem => hset (hbit.mpr hmem), fun a ha => ?_⟩, _,
            by rw [hco, if_neg (not_or.mpr ⟨hfar, hset⟩)], h.fill hw hbl (by omega)⟩
          have := h.le_highest a ha
          unfold windowSize at hfar
          omega

end Holds

/-! ## The highest counter -/

/-- A counter overruns a window if it is the highest number of 64 bits, and
the highest counter that has been accepted is another one close below it. -/
def Overruns (w : ReplayWindow) (counter : ℕ) : Prop :=
  counter = 2 ^ 64 - 1 ∧ w.initialized = true ∧ w.highest < counter ∧
    counter - w.highest < windowSize

instance (w : ReplayWindow) (counter : ℕ) : Decidable (w.Overruns counter) :=
  inferInstanceAs (Decidable (_ ∧ _))

/-- **A counter that overruns the window is never accepted nor refused**: the
loop does not end. -/
theorem Overruns.accept_eq_none (h : w.Overruns counter) (turns : ℕ) :
    w.accept turns counter = none := by
  obtain ⟨_, hin, hhg, hnr⟩ := h
  have hlp : clearUpTo counter turns ((w.highest + 1) % counterLimit) w = none :=
    clearUpTo_eq_none (by unfold counterLimit; omega) (Nat.mod_lt _ (by unfold counterLimit; omega))
  unfold accept advance
  rw [if_neg (by simp [hin]), if_pos hhg, if_neg (not_le.mpr hnr), hlp]
  rfl

/-- **Every other counter is accepted or refused**, after no more turns of the
loop than there are bits. -/
theorem exists_accept (hcr : counter < 2 ^ 64) (h : ¬w.Overruns counter) :
    ∃ result, w.accept windowSize counter = some result := by
  unfold accept
  split_ifs with hnew hhg hrf
  · exact ⟨_, rfl⟩
  · unfold advance
    split_ifs with hfar
    · exact ⟨_, rfl⟩
    · have hmx : counter ≠ 2 ^ 64 - 1 := fun hmx =>
        h ⟨hmx, Bool.not_eq_false _ ▸ hnew, hhg, not_le.mp hfar⟩
      have hlm : counter + 1 < counterLimit := by
        unfold counterLimit
        omega
      obtain ⟨_, hw', -⟩ :=
        exists_clearUpTo w windowSize (w.highest + 1) hlm (by omega) (by omega)
      rw [Nat.mod_eq_of_lt (by omega), hw']
      exact ⟨_, rfl⟩
  · exact ⟨_, rfl⟩
  · exact ⟨_, rfl⟩

/-! ## Sequences of counters -/

def offer (turns : ℕ) (s : ReplayWindow × List ℕ) (counter : ℕ) :
    Option (ReplayWindow × List ℕ) := do
  let (accepted, w) ← s.1.accept turns counter
  some (w, if accepted then s.2 ++ [counter] else s.2)

def offerAll (turns : ℕ) (counters : List ℕ) : Option (ReplayWindow × List ℕ) :=
  counters.foldlM (offer turns) ({}, [])

theorem nodup_concat {accepted : List ℕ} (h : accepted.Nodup) (hfh : Fresh accepted counter) :
    (accepted ++ [counter]).Nodup := by
  rw [nodup_append]
  exact ⟨h, nodup_singleton counter, fun a ha b hb => by
    rw [mem_singleton.mp hb]
    exact fun heq => hfh.1 (heq ▸ ha)⟩

theorem Holds.offer {accepted : List ℕ} (h : Holds w accepted) (hnd : accepted.Nodup)
    (hcr : counter + 1 < counterLimit) (htu : windowSize ≤ turns) :
    ∃ w' accepted', ReplayWindow.offer turns (w, accepted) counter = some (w', accepted') ∧
      Holds w' accepted' ∧ accepted'.Nodup := by
  obtain ⟨w', hw', hhl⟩ := h.accept hcr htu
  unfold ReplayWindow.offer
  rw [hw']
  by_cases hfh : Fresh accepted counter
  · rw [if_pos hfh] at hhl
    rw [decide_eq_true hfh]
    exact ⟨w', _, rfl, hhl, nodup_concat hnd hfh⟩
  · rw [if_neg hfh] at hhl
    rw [decide_eq_false hfh]
    exact ⟨w', _, rfl, hhl, hnd⟩

theorem exists_offerAll {counters : List ℕ} (htu : windowSize ≤ turns)
    (hcn : ∀ c ∈ counters, c + 1 < counterLimit) :
    ∃ w accepted, offerAll turns counters = some (w, accepted) ∧ Holds w accepted ∧
      accepted.Nodup := by
  unfold offerAll
  induction counters using reverseRecOn with
  | nil => exact ⟨{}, [], rfl, holds_nil, nodup_nil⟩
  | append_singleton _ counter ih =>
    obtain ⟨w, accepted, hrun, hhl, hnd⟩ :=
      ih fun c hc => hcn c (mem_append_left _ hc)
    obtain ⟨w', accepted', hof, hhl', hnd'⟩ :=
      hhl.offer hnd (hcn counter (by simp)) htu
    refine ⟨w', accepted', ?_, hhl', hnd'⟩
    rw [foldlM_append, hrun]
    show ReplayWindow.offer turns (w, accepted) counter >>= pure = _
    rw [hof]
    rfl

/-- **The window is the rule against replays.** After any counters but the
highest number of 64 bits, the next one is accepted exactly if it is fresh;
and no counter has been accepted twice. -/
theorem accept_iff_fresh {turns : ℕ} (hturns : windowSize ≤ turns) {counters : List ℕ}
    (hcounters : ∀ c ∈ counters, c < 2 ^ 64 - 1) :
    ∃ w accepted, offerAll turns counters = some (w, accepted) ∧ accepted.Nodup ∧
      ∀ counter < 2 ^ 64 - 1, ∃ w', w.accept turns counter =
        some (decide (Fresh accepted counter), w') := by
  have hlm (c : ℕ) (hc : c < 2 ^ 64 - 1) : c + 1 < counterLimit := by
    unfold counterLimit
    omega
  obtain ⟨w, accepted, hrun, hhl, hnd⟩ :=
    exists_offerAll hturns fun c hc => hlm c (hcounters c hc)
  refine ⟨w, accepted, hrun, hnd, fun counter hcr => ?_⟩
  obtain ⟨w', hw', -⟩ := hhl.accept (hlm counter hcr) hturns
  exact ⟨w', hw'⟩

theorem accept_iff_fresh_wrapped :
    ∃ w accepted, offerAll 8192 [8191, 8193, 8192, 8191] = some (w, accepted) ∧
      accepted.Nodup ∧ ∀ counter < 2 ^ 64 - 1, ∃ w', w.accept 8192 counter =
        some (decide (Fresh accepted counter), w') :=
  accept_iff_fresh le_rfl (by decide)

end ReplayWindow

end Tailgate
