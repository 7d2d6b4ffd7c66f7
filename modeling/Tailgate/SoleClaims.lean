import Tailgate.Lookups

/-!
# What is claimed by one alone

A name is to belong to a party if no other party claims it. The first claim to a
name is entered in a table, a claim by somebody else is noted, and the names with
a note are struck out. `lookup_owners` is what is left: a name exactly if all
claims to it agree. So the order of the claims does not matter.
-/

open Lookup

namespace SoleClaims

open Option

open List

variable {α β : Type} [DecidableEq α] [DecidableEq β]

/-- Take one claim: enter it if it is the first to its name, and note the name
if it is by another than the first. -/
def claim (state : List (α × β) × List α) (c : α × β) : List (α × β) × List α :=
  match state.1.lookup c.1 with
  | none => (state.1 ++ [c], state.2)
  | some owner => if owner ≠ c.2 then (state.1, state.2.insert c.1) else state

variable (claims : List (α × β))

/-- **The names that are claimed by one alone**, with their owners. -/
def owners : List (α × β) :=
  let (table, disputed) := claims.foldl claim ([], [])
  table.filter fun entry => entry.1 ∉ disputed

/-- **What the pass knows** of the claims it has seen: the table has the first
claim to every name, and the notes have the names with a claim that is not by
the first. -/
structure Knows (claims : List (α × β)) (state : List (α × β) × List α) : Prop where
  /-- The first claims are in the table. -/
  table : ∀ a, state.1.lookup a = claims.lookup a
  notes : ∀ a, a ∈ state.2 ↔ ∃ b, (a, b) ∈ claims ∧ claims.lookup a ≠ some b

section Claim

variable {claims : List (α × β)} {state : List (α × β) × List α} {name : α} {key owner : β}

omit [DecidableEq β] in
theorem lookup_concat {a : α} (h : claims.lookup a = some owner) :
    (claims ++ [(name, key)]).lookup a = some owner := by
  rw [lookup_append_singleton, h, some_or]

omit [DecidableEq β] in
theorem Knows.first (h : Knows claims state) (hno : claims.lookup name = none) :
    Knows (claims ++ [(name, key)]) (state.1 ++ [(name, key)], state.2) := by
  refine ⟨fun a => ?_, fun a => (h.notes a).trans ⟨?_, ?_⟩⟩
  · rw [lookup_append_singleton, lookup_append_singleton, h.table]
  · rintro ⟨b, hmem, hne⟩
    obtain ⟨_, hfi⟩ := exists_lookup_of_mem hmem
    rw [hfi] at hne
    exact ⟨b, mem_append_left _ hmem, by rwa [lookup_concat hfi]⟩
  · rintro ⟨b, hmem, hne⟩
    obtain hmem | hmem := mem_append.mp hmem
    · obtain ⟨_, hfi⟩ := exists_lookup_of_mem hmem
      rw [lookup_concat hfi] at hne
      exact ⟨b, hmem, by rwa [hfi]⟩
    · -- The new claim is the first to its name, so it is not a dispute.
      cases mem_singleton.mp hmem
      rw [lookup_append_singleton, hno] at hne
      simp at hne

omit [DecidableEq β] in
/-- A claim to a name that has an owner changes nothing but, if it is by another,
the notes. -/
theorem Knows.again (h : Knows claims state) (how : claims.lookup name = some owner)
    {notes : List α} (hnt : ∀ a, a ∈ notes ↔ a ∈ state.2 ∨ a = name ∧ owner ≠ key) :
    Knows (claims ++ [(name, key)]) (state.1, notes) := by
  have hsm (a : α) : (claims ++ [(name, key)]).lookup a = claims.lookup a := by
    by_cases ha : a = name
    · rw [ha, how, lookup_concat how]
    · simp [lookup_append_singleton, ha]
  refine ⟨fun a => (h.table a).trans (hsm a).symm, fun a => (hnt a).trans ?_⟩
  simp only [hsm, h.notes, mem_append, mem_singleton, Prod.mk.injEq, or_and_right, exists_or]
  refine or_congr_right ⟨?_, ?_⟩
  · rintro ⟨rfl, hne⟩
    exact ⟨key, ⟨rfl, rfl⟩, by rw [how]; exact fun heq => hne (some.inj heq)⟩
  · rintro ⟨_, ⟨rfl, rfl⟩, hne⟩
    exact ⟨rfl, fun heq => hne (how.trans (congrArg some heq))⟩

theorem Knows.claim (h : Knows claims state) (c : α × β) :
    Knows (claims ++ [c]) (claim state c) := by
  obtain ⟨name, key⟩ := c
  unfold SoleClaims.claim
  rw [h.table name]
  cases how : claims.lookup name with
  | none => exact h.first how
  | some owner =>
    dsimp only
    by_cases hkey : owner ≠ key
    · rw [if_pos hkey]
      refine h.again how fun a => ?_
      rw [mem_insert_iff, or_comm]
      exact or_congr_right (and_iff_left hkey).symm
    · rw [if_neg hkey]
      refine h.again how fun a => ?_
      exact (or_iff_left fun hds => hkey hds.2).symm

end Claim

theorem foldl_claim : Knows claims (claims.foldl claim ([], [])) := by
  induction claims using reverseRecOn with
  | nil => exact ⟨fun _ => rfl, fun a => by simp⟩
  | append_singleton _ c ih =>
    rw [foldl_append, foldl_cons, foldl_nil]
    exact ih.claim c

/-- **A name is in the table exactly if all claims to it are by one.** -/
theorem lookup_owners (a : α) (b : β) : (owners claims).lookup a = some b ↔
      (a, b) ∈ claims ∧ ∀ b', (a, b') ∈ claims → b' = b := by
  obtain ⟨htb, hno⟩ := foldl_claim claims
  have how : (owners claims).lookup a
      = if a ∉ (claims.foldl claim ([], [])).2 then claims.lookup a else none := by
    rw [← htb a]
    exact lookup_filter (· ∉ (claims.foldl claim ([], [])).2) _ a
  rw [how]
  constructor
  · intro h
    rw [ite_none_right_eq_some] at h
    obtain ⟨hnt, hlk⟩ := h
    refine ⟨mem_of_lookup hlk, fun b' hb' => ?_⟩
    by_contra hne
    refine hnt ((hno a).mpr ⟨b', hb', ?_⟩)
    rw [hlk]
    exact fun h => hne (some.inj h).symm
  · rintro ⟨hmem, hsl⟩
    obtain ⟨owner, ho⟩ := exists_lookup_of_mem hmem
    have hor := hsl owner (mem_of_lookup ho)
    rw [hor] at ho
    rw [ite_none_right_eq_some]
    refine ⟨fun hnt => ?_, ho⟩
    obtain ⟨b', hb', hne⟩ := (hno a).mp hnt
    rw [ho, hsl b' hb'] at hne
    exact hne rfl

/-- **The order of the claims does not matter**, nor do repeats. -/
theorem lookup_owners_congr {claims claims' : List (α × β)}
    (h : ∀ c, c ∈ claims ↔ c ∈ claims') (a : α) :
    (owners claims).lookup a = (owners claims').lookup a := by
  refine ext fun b => ?_
  rw [lookup_owners, lookup_owners]
  simp only [h]

end SoleClaims
