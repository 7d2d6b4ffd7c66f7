import Mathlib.Tactic

/-!
# Queues of effects

A component that decides appends actions to a queue, and a component that acts
carries them out one by one. What the first may assume is what the world will be
once everything is carried out; what must be safe is the world after *every*
prefix of the queue. `List.foldl` gives the former and `Through` is the latter.

What an action does may depend on something not settled when it is queued:
`Ends` is what the world will be in every such case.
-/

namespace QueuedEffects

variable {σ α : Type*}

def Through (P : σ → Prop) (f : σ → α → σ) : σ → List α → Prop
  | s, [] => P s
  | s, a :: as => P s ∧ Through P f (f s a) as

variable {P : σ → Prop} {f : σ → α → σ} {s t : σ} {as bs : List α}

@[simp]
theorem through_nil : Through P f s [] ↔ P s := Iff.rfl

@[simp]
theorem through_cons {a : α} : Through P f s (a :: as) ↔ P s ∧ Through P f (f s a) as := Iff.rfl

theorem Through.head (h : Through P f s as) : P s := by
  cases as with
  | nil => exact h
  | cons => exact h.1

/-- A queue is safe when its first part is, and the rest is from where that
ends. -/
theorem through_append :
    Through P f s (as ++ bs) ↔ Through P f s as ∧ Through P f (as.foldl f s) bs := by
  induction as generalizing s with
  | nil => exact ⟨fun h => ⟨h.head, h⟩, And.right⟩
  | cons _ _ ih =>
    rw [List.cons_append, through_cons, ih, through_cons, List.foldl_cons, and_assoc]

theorem Through.last (h : Through P f s as) : P (as.foldl f s) := by
  rw [← List.append_nil as, through_append] at h
  exact h.2

section Simulation

variable {R : σ → σ → Prop}

theorem foldl_related (hf : ∀ s t a, R s t → R (f s a) (f t a)) (h : R s t) :
    R (as.foldl f s) (as.foldl f t) := by
  induction as generalizing s t with
  | nil => exact h
  | cons a _ ih => exact ih (hf s t a h)

theorem Through.related (hf : ∀ s t a, R s t → R (f s a) (f t a))
    (hP : ∀ s t, R s t → P s → P t) (hR : R s t) (h : Through P f s as) : Through P f t as := by
  induction as generalizing s t with
  | nil => exact hP s t hR h
  | cons a _ ih => exact ⟨hP s t hR h.1, ih (hf s t a hR) h.2⟩

end Simulation

section Uncertain

variable {r r' : σ → α → σ → Prop}

def Ends (P : σ → Prop) (r : σ → α → σ → Prop) : σ → List α → Prop
  | s, [] => P s
  | s, a :: as => ∀ t, r s a t → Ends P r t as

theorem ends_append : Ends P r s (as ++ bs) ↔ Ends (fun t => Ends P r t bs) r s as := by
  induction as generalizing s with
  | nil => exact Iff.rfl
  | cons _ _ ih => exact forall_congr' fun t => imp_congr_right fun _ => ih

theorem ends_of_forall (h : ∀ t, P t) : Ends P r s as := by
  induction as generalizing s with
  | nil => exact h s
  | cons _ _ ih => exact fun _ _ => ih

/-- A queue that ends well however it is carried out ends well carried out in
one way. -/
theorem Ends.foldl (hf : ∀ s a, r s a (f s a)) (h : Ends P r s as) : P (as.foldl f s) := by
  induction as generalizing s with
  | nil => exact h
  | cons a _ ih => exact ih (h _ (hf s a))

end Uncertain

end QueuedEffects
