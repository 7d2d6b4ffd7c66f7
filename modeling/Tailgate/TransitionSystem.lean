import Mathlib.Tactic

/-!
# Labelled transition systems and their invariants

A component is a set of states, a set of initial ones, and a labelled step
relation. Something true initially and kept by every step is true of every
reachable state. A property of runs whose steps satisfy a side condition is an
invariant of the *restricted* system, and one about what a run leaves behind is
the same induction started later.
-/

/-- A labelled transition system: which states it may start in, and which
states an event may take it to. -/
structure TransitionSystem (σ ε : Type*) where
  init : σ → Prop
  /-- Whether an event may lead from one state to another. -/
  step : σ → ε → σ → Prop

namespace TransitionSystem

variable {σ ε : Type*}

/-- **The states that runs lead to.** -/
inductive Reachable (S : TransitionSystem σ ε) : σ → Prop
  | init {s : σ} : S.init s → Reachable S s
  | step {s s' : σ} {e : ε} : Reachable S s → S.step s e s' → Reachable S s'

/-- A run of the system from one state to another, with the events it took. -/
inductive Run (S : TransitionSystem σ ε) : σ → List ε → σ → Prop
  | nil (s : σ) : Run S s [] s
  | cons {s s' s'' : σ} {e : ε} {es : List ε} :
      S.step s e s' → Run S s' es s'' → Run S s (e :: es) s''

/-- The system with only the steps a side condition allows: the condition is
on the event and on the state *before* the step. -/
def restrict (S : TransitionSystem σ ε) (ok : σ → ε → Prop) :
    TransitionSystem σ ε where
  init := S.init
  step s e s' := ok s e ∧ S.step s e s'

/-- The system that also keeps the events it has taken, the last one at the
end. -/
def recorded (S : TransitionSystem σ ε) : TransitionSystem (σ × List ε) ε where
  init s := S.init s.1 ∧ s.2 = []
  step s e s' := S.step s.1 e s'.1 ∧ s'.2 = s.2 ++ [e]

variable {S : TransitionSystem σ ε} {P : σ → Prop}

/-- **The invariant rule.** What holds initially and is kept by every step
from a reachable state holds of every reachable state. -/
theorem invariant (hin : ∀ s, S.init s → P s) (hsp : ∀ s e s', P s → S.step s e s' → P s')
    {s : σ} (h : S.Reachable s) : P s := by
  induction h with
  | init hs => exact hin _ hs
  | step _ hs ih => exact hsp _ _ _ ih hs

variable {ok : σ → ε → Prop}

theorem Reachable.of_restrict {s : σ} (h : (S.restrict ok).Reachable s) : S.Reachable s := by
  induction h with
  | init hs => exact .init hs
  | step _ hs ih => exact ih.step hs.2

variable {s s' : σ} {es : List ε}

theorem Run.invariant (hsp : ∀ s e s', P s → S.step s e s' → P s') (h : S.Run s es s')
    (hs : P s) : P s' := by
  induction h with
  | nil => exact hs
  | cons h₁ _ ih => exact ih (hsp _ _ _ hs h₁)

/-- If, given an invariant, exactly the steps that meet a condition keep a
property, exactly the runs of such steps do. -/
theorem Run.iff_restrict_of_invariant {I P : σ → Prop} (hkp : ∀ s e s', I s → S.step s e s' → I s')
    (hsp : ∀ s e s', I s → S.step s e s' → (P s' ↔ P s ∧ ok s e)) (h : S.Run s es s') (hs : I s) :
    P s' ↔ P s ∧ (S.restrict ok).Run s es s' := by
  constructor
  · induction h with
    | nil s => exact fun hP => ⟨hP, .nil s⟩
    | cons h₁ _ ih =>
      intro hP
      obtain ⟨hP', hrun⟩ := ih (hkp _ _ _ hs h₁) hP
      obtain ⟨hP, hok⟩ := (hsp _ _ _ hs h₁).mp hP'
      exact ⟨hP, .cons ⟨hok, h₁⟩ hrun⟩
  · rintro ⟨hP, hrun⟩
    refine (hrun.invariant (P := fun s => I s ∧ P s) ?_ ⟨hs, hP⟩).2
    rintro s e s' ⟨hs, hP⟩ ⟨hok, h⟩
    exact ⟨hkp s e s' hs h, (hsp s e s' hs h).mpr ⟨hP, hok⟩⟩

/-- Events that a step function carries out lead from a reachable state to a
reachable one. -/
theorem Reachable.of_foldl {f : σ → ε → σ}
    (hf : ∀ s e, S.step s e (f s e)) {s : σ} (hs : S.Reachable s) (es : List ε) :
    S.Reachable (es.foldl f s) :=
  es.foldlRecOn f hs fun s hs e _ => hs.step (hf s e)

/-- Events that a partial step function carries through lead from a reachable
state to a reachable one. -/
theorem Reachable.of_foldlM {f : σ → ε → Option σ} (hf : ∀ s e s', f s e = some s' → S.step s e s')
    (hs : S.Reachable s) (h : es.foldlM f s = some s') : S.Reachable s' := by
  induction es generalizing s with
  | nil => cases h; exact hs
  | cons _ _ ih =>
    obtain ⟨_, h₁, h₂⟩ := Option.bind_eq_some_iff.mp h
    exact ih (hs.step (hf _ _ _ h₁)) h₂

end TransitionSystem
