import Mathlib.Tactic
import Mathlib.Data.List.Forall2

/-!
# Computations that may throw

A computation in `Except` returns only where each of its parts does. The lemmas
here take apart a computation that has returned: a sequence, a traversal, and a
fold, along which an invariant may depend on what is left to go through.
-/

namespace Throwing

open List

variable {ε α β : Type} {y : Except ε α}

theorem of_bind_ok {f : α → Except ε β} {b : β}
    (h : (y >>= f) = .ok b) : ∃ a, y = .ok a ∧ f a = .ok b := by
  cases y with
  | ok a => exact ⟨a, rfl, h⟩
  | error => cases h

def Returns (Q : α → Prop) (y : Except ε α) : Prop := ∀ a, y = .ok a → Q a

theorem Returns.pure {Q : α → Prop} {a : α} (h : Q a) : Returns Q (pure a : Except ε α) := by
  intro _ hb
  cases hb
  exact h

/-- A sequence returns what its second part does, whatever the first part
returns. -/
theorem Returns.skip {Q : β → Prop} {f : α → Except ε β}
    (h : ∀ a, Returns Q (f a)) : Returns Q (y >>= f) := by
  intro b hb
  obtain ⟨a, -, hf⟩ := of_bind_ok hb
  exact h a b hf

/-- A sequence returns what its second part does with what the first part
returns. -/
theorem Returns.bind {R : α → Prop} {Q : β → Prop} {f : α → Except ε β}
    (hy : Returns R y) (h : ∀ a, R a → Returns Q (f a)) : Returns Q (y >>= f) := by
  intro b hb
  obtain ⟨a, ha, hf⟩ := of_bind_ok hb
  exact h a (hy a ha) b hf

variable {f : α → Except ε β} {as : List α} {bs : List β}

theorem forall₂_of_mapM_ok
    (h : as.mapM f = .ok bs) : List.Forall₂ (fun a b => f a = .ok b) as bs := by
  induction as generalizing bs with
  | nil =>
    cases h
    exact .nil
  | cons _ _ ih =>
    rw [mapM_cons] at h
    obtain ⟨_, hb, h⟩ := of_bind_ok h
    obtain ⟨_, hbs, h⟩ := of_bind_ok h
    cases h
    exact .cons hb (ih hbs)

theorem exists_of_mem_forall₂ {R : α → β → Prop} {b : β}
    (h : List.Forall₂ R as bs) (hb : b ∈ bs) : ∃ a ∈ as, R a b := by
  induction h with
  | nil => cases hb
  | @cons a b' as bs' hab _ ih =>
    rcases mem_cons.mp hb with rfl | hb
    · exact ⟨a, mem_cons_self, hab⟩
    · obtain ⟨a', ha', hr⟩ := ih hb
      exact ⟨a', mem_cons_of_mem a ha', hr⟩

theorem exists_of_mem_mapM {b : β}
    (h : as.mapM f = .ok bs) (hb : b ∈ bs) : ∃ a ∈ as, f a = .ok b := by
  have hmem := exists_of_mem_forall₂ (forall₂_of_mapM_ok h) hb
  exact hmem

theorem exists_mapM_of_mem {a : α}
    (h : as.mapM f = .ok bs) (ha : a ∈ as) : ∃ b ∈ bs, f a = .ok b := by
  have hmem := exists_of_mem_forall₂ (forall₂_of_mapM_ok h).flip ha
  exact hmem

/-- A traversal whose steps return what they are given returns what it is
given. -/
theorem mapM_eq_self {f : α → Except ε α} (h : ∀ a ∈ as, f a = .ok a) : as.mapM f = .ok as := by
  induction as with
  | nil => rfl
  | cons a _ ih =>
    rw [mapM_cons, h a mem_cons_self, ih fun b hb => h b (mem_cons_of_mem a hb)]
    rfl

/-- **A fold**: what holds before the elements that are left holds, at the
end, before none. -/
theorem foldlM_induction {f : β → α → Except ε β} {L : List α → β → Prop}
    {b b' : β} (hsp : ∀ a as b b', L (a :: as) b → f b a = .ok b' → L as b') (hb : L as b)
    (h : as.foldlM f b = .ok b') : L [] b' := by
  induction as generalizing b with
  | nil =>
    cases h
    exact hb
  | cons a as ih =>
    obtain ⟨b₁, hb₁, h⟩ := of_bind_ok h
    exact ih (hsp a as b b₁ hb hb₁) h

end Throwing
