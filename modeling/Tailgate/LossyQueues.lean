import Tailgate.Shuffles

/-!
# Queues that lose from their front

A queue that may not grow without bound drops what has waited longest. What has
entered it is then what has left it, in some order of taken and lost, followed by
what is in it (`Accounted`). What is taken is in the order in which it entered,
and nothing is taken twice or forgotten.
-/

namespace LossyQueue

variable {α : Type} {entered taken lost waiting : List α} {a : α}

/-- **What has entered a queue** has been taken from it, was lost, or waits. -/
def Accounted (entered taken lost waiting : List α) : Prop :=
  ∃ left, entered = left ++ waiting ∧ Shuffle taken lost left

theorem accounted_nil : Accounted (α := α) [] [] [] [] := ⟨[], rfl, .nil⟩

namespace Accounted

theorem enter (h : Accounted entered taken lost waiting) (a : α) :
    Accounted (entered ++ [a]) taken lost (waiting ++ [a]) := by
  obtain ⟨left, rfl, hlf⟩ := h
  exact ⟨left, List.append_assoc .., hlf⟩

theorem take (h : Accounted entered taken lost (a :: waiting)) :
    Accounted entered (taken ++ [a]) lost waiting := by
  obtain ⟨left, rfl, hlf⟩ := h
  exact ⟨left ++ [a], by simp, hlf.concat a⟩

theorem lose (h : Accounted entered taken lost (a :: waiting)) :
    Accounted entered taken (lost ++ [a]) waiting := by
  obtain ⟨left, rfl, hlf⟩ := h
  exact ⟨left ++ [a], by simp, (hlf.symm.concat a).symm⟩

theorem loseAll {dropped : List α} (h : Accounted entered taken lost (dropped ++ waiting)) :
    Accounted entered taken (lost ++ dropped) waiting := by
  induction dropped generalizing lost with
  | nil => simpa using h
  | cons _ _ ih => simpa using ih h.lose

theorem sublist (h : Accounted entered taken lost waiting) : taken.Sublist entered := by
  obtain ⟨_, rfl, hlf⟩ := h
  exact hlf.sublist.trans (List.sublist_append_left ..)

theorem perm (h : Accounted entered taken lost waiting) :
    entered.Perm (taken ++ lost ++ waiting) := by
  obtain ⟨_, rfl, hlf⟩ := h
  exact hlf.perm.append_right waiting

end Accounted

end LossyQueue
