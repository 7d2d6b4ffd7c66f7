import Mathlib.Tactic

/-!
# Looking for something that is not in use

Identifiers that go round in a circle are given out from a random one on: the
first that is not in use is taken. If there are more identifiers than there
are in use, the search ends, and it takes one turn more than the number in use
at most.
-/

namespace FreeSearch

variable {α : Type} [DecidableEq α] (next : α → α) (used : Finset α)

/-- **The first element that is not in use**, from a given one on, if it is
found within some turns. -/
def search : ℕ → α → Option α
  | 0, _ => none
  | turns + 1, a => if a ∈ used then search turns (next a) else some a

variable {next used} {turns : ℕ} {a b : α}

theorem notMem_of_search (h : search next used turns a = some b) : b ∉ used := by
  induction turns generalizing a with
  | zero => cases h
  | succ _ ih =>
    unfold search at h
    split at h
    · exact ih h
    · rwa [← Option.some.inj h]

theorem mem_of_search (h : search next used turns a = none) {i : ℕ} (hi : i < turns) :
    next^[i] a ∈ used := by
  induction turns generalizing a i with
  | zero => omega
  | succ _ ih =>
    unfold search at h
    split at h
    · rename_i ha
      cases i with
      | zero => exact ha
      | succ =>
        exact ih h (by omega)
    · cases h

/-- **Something is found** if more is looked at than is in use. -/
theorem exists_search (hinj : Set.InjOn (fun i => next^[i] a) (Set.Iio turns))
    (hcr : used.card < turns) : ∃ b, search next used turns a = some b := by
  by_contra hno
  have hsr : search next used turns a = none :=
    Option.eq_none_iff_forall_ne_some.mpr fun b hb => hno ⟨b, hb⟩
  have hsub : (Finset.range turns).image (fun i => next^[i] a) ⊆ used := by
    intro _ hb
    obtain ⟨_, hi, rfl⟩ := Finset.mem_image.mp hb
    exact mem_of_search hsr (Finset.mem_range.mp hi)
  have hcr' : ((Finset.range turns).image fun i => next^[i] a).card = turns := by
    rw [Finset.card_image_of_injOn, Finset.card_range]
    simpa using hinj
  have hle := Finset.card_le_card hsub
  omega

end FreeSearch
