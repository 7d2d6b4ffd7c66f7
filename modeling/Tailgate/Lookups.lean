import Mathlib.Tactic

/-!
# Lookups in association lists

An association list says of a key what its first entry for the key says. The
lemmas here are about what becomes of that when entries are added at the end or
left out, and about what it has to do with membership.
-/

namespace Lookup

open List

variable {κ α : Type*} [BEq κ] [LawfulBEq κ]

theorem lookup_cons_eq [DecidableEq κ] (entry : κ × α) (l : List (κ × α)) (key : κ) :
    (entry :: l).lookup key = if key = entry.1 then some entry.2 else l.lookup key := by
  rw [lookup_cons]
  by_cases h : key = entry.1
  · rw [beq_iff_eq.mpr h, if_pos h]
  · rw [beq_eq_false_iff_ne.mpr h, if_neg h]

theorem lookup_append_singleton [DecidableEq κ] (l : List (κ × α)) (entry : κ × α) (key : κ) :
    (l ++ [entry]).lookup key =
      (l.lookup key).or (if key = entry.1 then some entry.2 else none) := by
  rw [lookup_append, lookup_cons_eq]
  rfl

variable {l : List (κ × α)} {key : κ} {value : α}

theorem mem_of_lookup (h : l.lookup key = some value) : (key, value) ∈ l := by
  obtain ⟨l₁, _, rfl, -⟩ := lookup_eq_some_iff.mp h
  exact mem_append_right l₁ mem_cons_self

theorem exists_lookup_of_mem (h : (key, value) ∈ l) : ∃ first, l.lookup key = some first := by
  refine Option.ne_none_iff_exists'.mp fun hlk => ?_
  have hne := lookup_eq_none_iff.mp hlk (key, value) h
  exact bne_iff_ne.mp hne rfl

theorem lookup_filter (keep : κ → Prop) [DecidablePred keep] (l : List (κ × α)) (key : κ) :
    (l.filter fun entry => keep entry.1).lookup key = if keep key then l.lookup key else none := by
  classical
  induction l with
  | nil => rw [filter_nil, lookup_nil, ite_self]
  | cons entry _ ih =>
    rw [lookup_cons_eq]
    by_cases hke : keep entry.1
    · rw [filter_cons_of_pos (by simpa using hke), lookup_cons_eq, ih]
      by_cases hkey : key = entry.1
      · rw [if_pos hkey, if_pos hkey, if_pos (hkey ▸ hke)]
      · rw [if_neg hkey, if_neg hkey]
    · rw [filter_cons_of_neg (by simpa using hke), ih]
      by_cases hkey : key = entry.1
      · rw [if_neg (hkey ▸ hke), if_neg (hkey ▸ hke)]
      · rw [if_neg hkey]

end Lookup
