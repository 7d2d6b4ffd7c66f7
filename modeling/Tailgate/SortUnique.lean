import Mathlib.Tactic
import Mathlib.Data.List.Sort

/-!
# Sorting and removing adjacent repeats

The idiom `sort` then `unique` turns a list of keys into the strictly
increasing list of the same keys. `unique` alone only merges *adjacent*
repeats, so it is the sorting before it that makes the result duplicate-free.
-/

namespace List

variable {α : Type*} [LinearOrder α]

def unique : List α → List α
  | [] => []
  | [a] => [a]
  | a :: b :: l => if a = b then unique (b :: l) else a :: unique (b :: l)

variable {a : α} {l : List α}

theorem mem_unique : a ∈ l.unique ↔ a ∈ l := by
  induction l using unique.induct with
  | case1 | case2 => rfl
  | case3 b l ih =>
    rw [unique, if_pos rfl, ih, mem_cons (l := b :: l)]
    exact ⟨.inr, fun h => h.elim (fun h => mem_cons.mpr (.inl h)) id⟩
  | case4 _ c l h ih =>
    rw [unique, if_neg h, mem_cons, ih, mem_cons (l := c :: l)]

theorem pairwise_lt_unique (h : l.Pairwise (· ≤ ·)) : l.unique.Pairwise (· < ·) := by
  induction l using unique.induct with
  | case1 => exact Pairwise.nil
  | case2 => exact pairwise_singleton _ _
  | case3 _ _ ih =>
    rw [unique, if_pos rfl]
    exact ih (pairwise_cons.mp h).2
  | case4 b c _ hbc ih =>
    rw [unique, if_neg hbc]
    obtain ⟨hb, hl⟩ := pairwise_cons.mp h
    refine pairwise_cons.mpr ⟨fun x hx => ?_, ih hl⟩
    -- everything after `b` is at least `c`, which is strictly above `b`
    have hlt : b < c := lt_of_le_of_ne (hb c mem_cons_self) hbc
    rcases mem_cons.mp (mem_unique.mp hx) with rfl | hx'
    · exact hlt
    · exact hlt.trans_le ((pairwise_cons.mp hl).1 x hx')

/-- Sorting then merging adjacent repeats: the strictly increasing list of
the elements. -/
def sortUnique (l : List α) : List α := (l.insertionSort (· ≤ ·)).unique

theorem mem_sortUnique : a ∈ l.sortUnique ↔ a ∈ l := by
  rw [sortUnique, mem_unique, mem_insertionSort]

theorem pairwise_lt_sortUnique (l : List α) : l.sortUnique.Pairwise (· < ·) :=
  pairwise_lt_unique (pairwise_insertionSort (· ≤ ·) l)

end List
