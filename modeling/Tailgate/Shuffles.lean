import Mathlib.Tactic

/-!
# Lists of which some elements have been seen to

A list is brought up to date in place, one element after another, each time the
first that fits, and is a shuffle of those that have been seen to and those that
are left. The first that fits is the first of what is left (`Shuffle.find?_eq`),
and to replace it is to move it from one kind to the other (`Shuffle.replaceF`).
-/

/-- **A list is a shuffle of two**: it has the elements of both, each in their
order. -/
inductive Shuffle {α : Type} : List α → List α → List α → Prop
  | nil : Shuffle [] [] []
  | seen {a : α} {seen left list : List α} :
      Shuffle seen left list → Shuffle (a :: seen) left (a :: list)
  | left {a : α} {seen left list : List α} :
      Shuffle seen left list → Shuffle seen (a :: left) (a :: list)

namespace Shuffle

open List

variable {α : Type} {seen left list : List α} {p : α → Bool}

theorem all_left (list : List α) : Shuffle [] list list := by
  induction list with
  | nil => exact .nil
  | cons _ _ ih => exact ih.left

variable (h : Shuffle seen left list)

include h

theorem perm : list.Perm (seen ++ left) := by
  induction h with
  | nil => exact .refl _
  | seen _ ih => exact ih.cons _
  | left _ ih => exact (ih.cons _).trans perm_middle.symm

theorem symm : Shuffle left seen list := by
  induction h with
  | nil => exact .nil
  | seen _ ih => exact ih.left
  | left _ ih => exact ih.seen

theorem sublist : seen.Sublist list := by
  induction h with
  | nil => exact .refl _
  | seen _ ih => exact ih.cons_cons _
  | left _ ih => exact ih.cons _

variable {a : α}

theorem mem_iff : a ∈ list ↔ a ∈ seen ∨ a ∈ left :=
  h.perm.mem_iff.trans mem_append

theorem concat (a : α) : Shuffle (seen ++ [a]) left (list ++ [a]) := by
  induction h with
  | nil => exact Shuffle.nil.seen
  | seen _ ih => exact ih.seen
  | left _ ih => exact ih.left

/-- **The first that fits is the first of what is left.** -/
theorem find?_eq (hsn : ∀ a ∈ seen, p a = false) : list.find? p = left.find? p := by
  induction h with
  | nil => rfl
  | seen _ ih =>
    obtain ⟨ha, hsn⟩ := forall_mem_cons.mp hsn
    rw [List.find?_cons_of_neg (by simp [ha]), ih hsn]
  | @left a _ _ _ _ ih =>
    cases ha : p a with
    | true => rw [List.find?_cons_of_pos ha, List.find?_cons_of_pos ha]
    | false =>
      rw [List.find?_cons_of_neg (by simp [ha]), List.find?_cons_of_neg (by simp [ha]), ih hsn]

/-- **To replace the first that fits** is to see to the first of what is
left. -/
theorem replaceF (hsn : ∀ a ∈ seen, p a = false) (ha : left.find? p = some a) (b : α) :
    ∃ seen', Shuffle seen' (left.eraseP p) (list.replaceF fun a => if p a then some b else none) ∧
      seen'.Perm (b :: seen) := by
  induction h with
  | nil => cases ha
  | @seen c seen _ _ _ ih =>
    obtain ⟨hc, hsn⟩ := forall_mem_cons.mp hsn
    obtain ⟨seen', hsf, hpm⟩ := ih hsn ha
    refine ⟨c :: seen', ?_, (hpm.cons c).trans (List.Perm.swap b c seen)⟩
    simp only [List.replaceF, hc, Bool.false_eq_true, if_false]
    exact hsf.seen
  | @left c seen left list hrs ih =>
    cases hc : p c with
    | true =>
      refine ⟨b :: seen, ?_, .refl _⟩
      simp only [List.replaceF, hc, if_true, List.eraseP_cons_of_pos hc]
      exact hrs.seen
    | false =>
      rw [List.find?_cons_of_neg (by simp [hc])] at ha
      obtain ⟨seen', hsf, hpm⟩ := ih hsn ha
      refine ⟨seen', ?_, hpm⟩
      simp only [List.replaceF, hc, Bool.false_eq_true, if_false]
      rw [eraseP_cons_of_neg (by simp [hc])]
      exact hsf.left

omit h

theorem perm_cons_eraseP (h : list.find? p = some a) : list.Perm (a :: list.eraseP p) := by
  obtain ⟨ha, front, rest, rfl, hfr⟩ := find?_eq_some_iff_append.mp h
  rw [eraseP_append_right _ (by simpa using hfr), eraseP_cons_of_pos ha]
  exact perm_middle

theorem replaceF_perm (h : list.find? p = some a) (b : α) :
    (list.replaceF fun a => if p a then some b else none).Perm (b :: list.eraseP p) := by
  obtain ⟨_, hsf, hpm⟩ :=
    (all_left list).replaceF nofun h b
  exact hsf.perm.trans (hpm.append_right _)

end Shuffle
