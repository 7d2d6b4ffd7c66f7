import Mathlib.Data.List.Sort
import Tailgate.Lookups

/-!
# Tables in the order of their keys

A table is the list of its entries in the order of their keys, which are
distinct. Putting a value in its place and taking one out keep the order. What
a table says under a key is what it is all about: `lookup_set` and
`lookup_erase` say what becomes of it, and in a table in order it is the same as
membership.
-/

namespace SortedTable

open List

variable {κ α : Type*} [LinearOrder κ]

def set (key : κ) (value : α) (table : List (κ × α)) : List (κ × α) :=
  table.filter (fun entry => entry.1 < key) ++
    (key, value) :: table.filter (fun entry => key < entry.1)

def erase (key : κ) (table : List (κ × α)) : List (κ × α) :=
  table.filter fun entry => entry.1 ≠ key

/-- **A table in order.** -/
def Sorted (table : List (κ × α)) : Prop := table.Pairwise fun a b => a.1 < b.1

theorem Sorted.nil : Sorted ([] : List (κ × α)) := List.Pairwise.nil

variable {table : List (κ × α)}

theorem Sorted.erase (h : Sorted table) (key : κ) :
    Sorted (erase key table) := List.Pairwise.sublist filter_sublist h

theorem Sorted.set (h : Sorted table) (key : κ) (value : α) : Sorted (set key value table) := by
  have hbl (entry : κ × α) (hey : entry ∈ table.filter fun entry => entry.1 < key) :
      entry.1 < key := of_decide_eq_true (mem_filter.mp hey).2
  have hab (entry : κ × α) (hey : entry ∈ table.filter fun entry => key < entry.1) :
      key < entry.1 := of_decide_eq_true (mem_filter.mp hey).2
  refine pairwise_append.mpr ⟨List.Pairwise.sublist filter_sublist h, pairwise_cons.mpr
      ⟨hab, List.Pairwise.sublist filter_sublist h⟩, ?_⟩
  intro entry hey other hot
  obtain rfl | hot := mem_cons.mp hot
  · exact hbl entry hey
  · exact (hbl entry hey).trans (hab other hot)

variable [BEq κ] [LawfulBEq κ]

/-- **What is under a key once another value is in its place.** -/
theorem lookup_set (key : κ) (value : α) (table : List (κ × α)) (other : κ) :
    (set key value table).lookup other =
      if other = key then some value else table.lookup other := by
  unfold set
  rw [lookup_append, Lookup.lookup_filter fun k => k < key, Lookup.lookup_cons_eq,
    Lookup.lookup_filter fun k => key < k]
  obtain hlt | rfl | hlt := lt_trichotomy other key
  · rw [if_pos hlt, if_neg hlt.ne, if_neg hlt.ne, if_neg hlt.not_gt]
    exact Option.or_none
  · rw [if_neg (lt_irrefl other), if_pos rfl, if_pos rfl]
    rfl
  · rw [if_neg hlt.not_gt, if_neg hlt.ne', if_neg hlt.ne', if_pos hlt]
    rfl

/-- **What is under a key once a value has been taken out.** -/
theorem lookup_erase (key : κ) (table : List (κ × α)) (other : κ) :
    (erase key table).lookup other = if other = key then none else table.lookup other := by
  unfold erase
  rw [Lookup.lookup_filter fun k => k ≠ key, ite_not]

theorem Sorted.lookup_of_mem (h : Sorted table) {key : κ} {value : α}
    (hmem : (key, value) ∈ table) : table.lookup key = some value := by
  induction table with
  | nil => cases hmem
  | cons _ _ ih =>
    obtain ⟨hey, htb⟩ := pairwise_cons.mp h
    rw [lookup_cons]
    obtain rfl | hmem := mem_cons.mp hmem
    · rw [beq_self_eq_true]
    · rw [beq_eq_false_iff_ne.mpr (hey _ hmem).ne']
      exact ih htb hmem

end SortedTable
