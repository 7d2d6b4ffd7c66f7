import Mathlib.Logic.Function.Basic
import Tailgate.MapUpdates
import Tailgate.SortedTables

/-!
# The filters of capabilities

A message may replace the unnamed filter, replace or remove a filter by its
name, and clear all filters before it does. `FilterSets.taking` says this of
functions from names to grants, which the table of the program represents, also
when a call throws (`Represents.applyCapabilityFilterUpdate`).
-/

namespace Tailgate

open Procedure Throwing
open List hiding after

namespace NetworkMapParser

/-! ## What messages make of the filters -/

abbrev FilterSets := String → Option (List CapabilityPresenceGrant)

section Messages

variable (aton : Aton)

def grantsOf (rules : Json) : List CapabilityPresenceGrant :=
  match filterGrants aton rules with
  | .ok grants => grants
  | .error _ => []

def filterOf : Json → Option (List CapabilityPresenceGrant)
  | .null => none
  | rules => some (grantsOf aton rules)

def lastUnder (updates : List (String × Json)) (name : String) : Option Json :=
  if name = "*" then none else updates.reverse.lookup name

namespace FilterSets

def none : FilterSets := fun _ => Option.none

def withBase (map : Json) (F : FilterSets) : FilterSets :=
  match findPresent map "PacketFilter" with
  | .none => F
  | some rules => Function.update F "base" (some (grantsOf aton rules))

def cleared (updates : List (String × Json)) (F : FilterSets) : FilterSets :=
  match updates.lookup "*" with
  | some .null => none
  | _ => F

def put (F : FilterSets) (update : String × Json) : FilterSets :=
  if update.1 = "*" then F else Function.update F update.1 (filterOf aton update.2)

def withNamed (map : Json) (F : FilterSets) : FilterSets :=
  match findPresent map "PacketFilters" with
  | some (.object updates) => fun name =>
    match lastUnder updates name with
    | some rules => filterOf aton rules
    | .none => cleared updates F name
  | _ => F

end FilterSets

/-- **The filters of a message can be read**, as far as there are any. -/
structure Readable (map : Json) : Prop where
  base : ∀ rules, findPresent map "PacketFilter" = some rules →
    ∃ grants, filterGrants aton rules = .ok grants
  /-- The named ones are the fields of an object, and each can that is not
  null. -/
  named : ∀ value, findPresent map "PacketFilters" = some value →
    ∃ updates, value = .object updates ∧ ∀ update ∈ updates, update.1 ≠ "*" → update.2 ≠ .null →
        ∃ grants, filterGrants aton update.2 = .ok grants

open Classical in
/-- **What a message makes of the filters**: those that cannot be read leave
all as it was. -/
noncomputable def FilterSets.taking (map : Json) (F : FilterSets) : FilterSets :=
  if Readable aton map then (F.withBase aton map).withNamed aton map else F

end Messages

/-! ## The table of filters represents them -/

structure Represents (F : FilterSets) (filters : NamedCapabilityFilters) : Prop where
  sorted : SortedTable.Sorted filters
  lookup : ∀ name, filters.lookup name = F name

variable {aton : Aton} {F : FilterSets}
  {filters filters' : NamedCapabilityFilters}

theorem represents_nil : Represents FilterSets.none [] := ⟨SortedTable.Sorted.nil, fun _ => rfl⟩

theorem Represents.setFilter (h : Represents F filters) (name : String)
    (grants : List CapabilityPresenceGrant) :
    Represents (Function.update F name (some grants)) (setFilter name grants filters) := by
  refine ⟨h.sorted.set name grants, fun other => ?_⟩
  refine (SortedTable.lookup_set name grants filters other).trans ?_
  rw [Function.update_apply, h.lookup other]

theorem Represents.eraseFilter (h : Represents F filters) (name : String) :
    Represents (Function.update F name none) (eraseFilter name filters) := by
  refine ⟨h.sorted.erase name, fun other => ?_⟩
  refine (SortedTable.lookup_erase name filters other).trans ?_
  rw [Function.update_apply, h.lookup other]

variable {name : String} {grants : List CapabilityPresenceGrant} {map rules : Json}
  {updates : List (String × Json)}

theorem Represents.mem_iff (h : Represents F filters)
    : (name, grants) ∈ filters ↔ F name = some grants := by
  rw [← h.lookup name]
  exact ⟨h.sorted.lookup_of_mem, Lookup.mem_of_lookup⟩

/-! ### One name of a message -/

theorem updateFilter_null (hnm : name ≠ "*") :
    updateFilter aton filters (name, .null) = .ok (eraseFilter name filters) :=
  if_neg hnm

theorem updateFilter_rules (hnm : name ≠ "*") (hrl : rules ≠ .null) :
    updateFilter aton filters (name, rules) =
      filterGrants aton rules >>= fun grants => pure (setFilter name grants filters) := by
  refine (if_neg hnm).trans ?_
  cases rules with
  | null => exact absurd rfl hrl
  | bool _ | number _ | string _ | array _ | object _ => rfl

theorem grantsOf_eq
    (hgr : filterGrants aton rules = .ok grants) : grantsOf aton rules = grants := by
  unfold grantsOf
  rw [hgr]

theorem filterOf_eq
    (hgr : filterGrants aton rules = .ok grants) : filterOf aton rules = some grants := by
  cases rules with
  | array => exact congrArg some (grantsOf_eq hgr)
  | null | bool _ | number _ | string _ | object _ => cases hgr

variable {update : String × Json}

theorem Represents.updateFilter (h : Represents F filters)
    (hup : updateFilter aton filters update = .ok filters') :
    Represents (F.put aton update) filters' := by
  obtain ⟨name, rules⟩ := update
  unfold FilterSets.put
  by_cases hnm : name = "*"
  · rw [if_pos hnm]
    cases (if_pos hnm).symm.trans hup
    exact h
  · rw [if_neg hnm]
    by_cases hrl : rules = .null
    · subst hrl
      rw [updateFilter_null hnm] at hup
      cases hup
      exact h.eraseFilter name
    · rw [updateFilter_rules hnm hrl] at hup
      obtain ⟨grants, hgr, hup⟩ := of_bind_ok hup
      cases hup
      rw [filterOf_eq hgr]
      exact h.setFilter name grants

theorem updateFilter_ok_iff : (∃ filters', updateFilter aton filters update = .ok filters') ↔
      (update.1 ≠ "*" → update.2 ≠ .null → ∃ grants, filterGrants aton update.2 = .ok grants) := by
  obtain ⟨name, rules⟩ := update
  by_cases hnm : name = "*"
  · exact ⟨fun _ hne => absurd hnm hne, fun _ => ⟨filters, if_pos hnm⟩⟩
  · by_cases hrl : rules = .null
    · subst hrl
      exact ⟨fun _ _ hne => absurd rfl hne, fun _ => ⟨_, updateFilter_null hnm⟩⟩
    · rw [updateFilter_rules hnm hrl]
      constructor
      · rintro ⟨_, h⟩ - -
        obtain ⟨grants, hgr, -⟩ := of_bind_ok h
        exact ⟨grants, hgr⟩
      · intro h
        obtain ⟨grants, hgr⟩ := h hnm hrl
        refine ⟨setFilter name grants filters, ?_⟩
        rw [hgr]
        rfl

/-! ### All names of a message -/

theorem Represents.foldlM (h : Represents F filters)
    (hup : updates.foldlM (NetworkMapParser.updateFilter aton) filters = .ok filters') :
    Represents (updates.foldl (FilterSets.put aton) F) filters' := by
  induction updates generalizing F filters with
  | nil =>
    cases hup
    exact h
  | cons _ _ ih =>
    obtain ⟨_, hut, hup⟩ := of_bind_ok hup
    exact ih (h.updateFilter hut) hup

theorem foldlM_ok_iff : (∃ filters', updates.foldlM (updateFilter aton) filters = .ok filters') ↔
      ∀ update ∈ updates, update.1 ≠ "*" → update.2 ≠ .null →
        ∃ grants, filterGrants aton update.2 = .ok grants := by
  induction updates generalizing filters with
  | nil => exact ⟨fun _ => nofun, fun _ => ⟨filters, rfl⟩⟩
  | cons _ _ ih =>
    rw [foldlM_cons, forall_mem_cons]
    constructor
    · rintro ⟨filters', h⟩
      obtain ⟨filters₁, hup, hus⟩ := of_bind_ok h
      exact ⟨updateFilter_ok_iff.mp ⟨filters₁, hup⟩, ih.mp ⟨filters', hus⟩⟩
    · rintro ⟨hup, hus⟩
      obtain ⟨_, hfi⟩ := updateFilter_ok_iff.mpr hup
      obtain ⟨filters', hrs⟩ := ih.mpr hus
      rw [hfi]
      exact ⟨filters', hrs⟩

theorem foldl_put (updates : List (String × Json)) (F : FilterSets) (name : String) :
    updates.foldl (FilterSets.put aton) F name = match lastUnder updates name with
      | some rules => filterOf aton rules
      | none => F name := by
  unfold lastUnder
  induction updates generalizing F with
  | nil =>
    by_cases hnm : name = "*"
    · rw [if_pos hnm]
      rfl
    · rw [if_neg hnm]
      rfl
  | cons update updates ih =>
    rw [foldl_cons, ih, reverse_cons, lookup_append]
    by_cases hnm : name = "*"
    · rw [if_pos hnm, if_pos hnm]
      unfold FilterSets.put
      by_cases hsr : update.1 = "*"
      · rw [if_pos hsr]
      · rw [if_neg hsr]
        exact Function.update_of_ne (hnm.trans_ne (Ne.symm hsr)) _ _
    · rw [if_neg hnm, if_neg hnm]
      -- A later value under the name wins; without one, the first update counts.
      cases updates.reverse.lookup name with
      | some => rfl
      | none =>
        rw [Option.none_or, lookup_cons, lookup_nil]
        unfold FilterSets.put
        by_cases hkey : name = update.1
        · rw [if_neg (hkey ▸ hnm), beq_iff_eq.mpr hkey, hkey]
          exact Function.update_self _ _ _
        · rw [beq_eq_false_iff_ne.mpr hkey]
          by_cases hsr : update.1 = "*"
          · rw [if_pos hsr]
          · rw [if_neg hsr]
            exact Function.update_of_ne hkey _ _

/-! ### A message -/

def takenFilters (aton : Aton) (map : Json) (filters : NamedCapabilityFilters) :
    Except MapError NamedCapabilityFilters := do
  let based ← updateBaseFilter aton map filters
  updateNamedFilters aton map based

theorem Represents.updateBaseFilter (h : Represents F filters)
    (hbs : updateBaseFilter aton map filters = .ok filters') :
    Represents (F.withBase aton map) filters' := by
  unfold NetworkMapParser.updateBaseFilter at hbs
  unfold FilterSets.withBase
  cases hfo : findPresent map "PacketFilter" with
  | none =>
    rw [hfo] at hbs
    cases hbs
    exact h
  | some =>
    rw [hfo] at hbs
    obtain ⟨grants, hgr, hbs⟩ := of_bind_ok hbs
    cases hbs
    dsimp only
    rw [grantsOf_eq hgr]
    exact h.setFilter "base" grants

/-- The fields of an object are looked at one by one, with all filters cleared
first if the wildcard says so. -/
theorem updateNamedFilters_object (aton : Aton)
    (hfo : findPresent map "PacketFilters" = some (.object updates)) (h : Represents F filters) :
    ∃ start, Represents (F.cleared updates) start ∧
      updateNamedFilters aton map filters = updates.foldlM (updateFilter aton) start := by
  unfold updateNamedFilters FilterSets.cleared
  rw [hfo]
  dsimp only
  cases updates.lookup "*" with
  | none => exact ⟨filters, h, rfl⟩
  | some value =>
    cases value with
    | null => exact ⟨[], represents_nil, rfl⟩
    | bool _ | number _ | string _ | array _ | object _ => exact ⟨filters, h, rfl⟩

theorem Represents.updateNamedFilters (h : Represents F filters)
    (hnm : updateNamedFilters aton map filters = .ok filters') :
    Represents (F.withNamed aton map) filters' := by
  cases hfo : findPresent map "PacketFilters" with
  | none =>
    unfold NetworkMapParser.updateNamedFilters at hnm
    unfold FilterSets.withNamed
    rw [hfo] at hnm ⊢
    cases hnm
    exact h
  | some value =>
    cases value with
    | object updates =>
      obtain ⟨_, hstart, heq⟩ := updateNamedFilters_object aton hfo h
      have hfn := hstart.foldlM (heq.symm.trans hnm)
      have hsm : F.withNamed aton map =
          updates.foldl (FilterSets.put aton) (F.cleared updates) := by
        unfold FilterSets.withNamed
        rw [hfo]
        exact funext fun name => (foldl_put updates _ name).symm
      rw [hsm]
      exact hfn
    | null | bool _ | number _ | string _ | array _ =>
      unfold NetworkMapParser.updateNamedFilters at hnm
      rw [hfo] at hnm
      cases hnm

/-- **A table can be updated just when the filters of the message can be
read.** -/
theorem takenFilters_ok_iff (h : Represents F filters) :
    (∃ filters', takenFilters aton map filters = .ok filters') ↔ Readable aton map := by
  constructor
  · rintro ⟨filters', htn⟩
    obtain ⟨_, hbs, hnm⟩ := of_bind_ok htn
    refine ⟨fun rules hfo => ?_, fun value hfo => ?_⟩
    · unfold updateBaseFilter at hbs
      rw [hfo] at hbs
      obtain ⟨grants, hgr, -⟩ := of_bind_ok hbs
      exact ⟨grants, hgr⟩
    · cases value with
      | object updates =>
        obtain ⟨_, -, heq⟩ :=
          updateNamedFilters_object aton hfo (h.updateBaseFilter hbs)
        exact ⟨updates, rfl, foldlM_ok_iff.mp ⟨filters', heq.symm.trans hnm⟩⟩
      | null | bool _ | number _ | string _ | array _ =>
        unfold updateNamedFilters at hnm
        rw [hfo] at hnm
        cases hnm
  · intro hrd
    have hbs : ∃ based, updateBaseFilter aton map filters = .ok based := by
      unfold updateBaseFilter
      cases hfo : findPresent map "PacketFilter" with
      | none => exact ⟨filters, rfl⟩
      | some rules =>
        obtain ⟨_, hgr⟩ := hrd.base rules hfo
        dsimp only
        rw [hgr]
        exact ⟨_, rfl⟩
    obtain ⟨based, hbs⟩ := hbs
    have hnm : ∃ filters', updateNamedFilters aton map based = .ok filters' := by
      cases hfo : findPresent map "PacketFilters" with
      | none =>
        unfold updateNamedFilters
        rw [hfo]
        exact ⟨based, rfl⟩
      | some value =>
        obtain ⟨_, rfl, hup⟩ := hrd.named value hfo
        obtain ⟨_, -, heq⟩ :=
          updateNamedFilters_object aton hfo (h.updateBaseFilter hbs)
        rw [heq]
        exact foldlM_ok_iff.mpr hup
    unfold takenFilters
    rw [hbs]
    exact hnm

theorem Represents.takenFilters (h : Represents F filters)
    (htn : takenFilters aton map filters = .ok filters') :
    Represents (F.taking aton map) filters' := by
  obtain ⟨_, hbs, hnm⟩ := of_bind_ok htn
  unfold FilterSets.taking
  rw [if_pos ((takenFilters_ok_iff h).mp ⟨filters', htn⟩)]
  exact (h.updateBaseFilter hbs).updateNamedFilters hnm

def hasFilters (map : Json) : Bool :=
  (findPresent map "PacketFilter").isSome || (findPresent map "PacketFilters").isSome

def writeFilters (map : Json) (filters : NamedCapabilityFilters) : Configuring Bool := do
  whenever (hasFilters map = true) do
    modify fun c => { c with capabilityFilters := filters }
  pure (hasFilters map)

theorem applyCapabilityFilterUpdate_eq (map : Json) (c : NetworkConfig) :
    applyCapabilityFilterUpdate aton map c =
      (liftM (takenFilters aton map c.capabilityFilters) >>= writeFilters map :
        Configuring Bool) c := by
  have hget : applyCapabilityFilterUpdate aton map c =
      (liftM (updateBaseFilter aton map c.capabilityFilters) >>= fun based =>
        liftM (updateNamedFilters aton map based) >>= writeFilters map : Configuring Bool) c := rfl
  rw [hget]
  unfold takenFilters
  cases updateBaseFilter aton map c.capabilityFilters with
  | error | ok => rfl

theorem takenFilters_of_not_hasFilters (h : hasFilters map = false) :
    takenFilters aton map filters = .ok filters := by
  obtain ⟨hbs, hnm⟩ := Bool.or_eq_false_iff.mp h
  rw [Option.isSome_eq_false_iff, Option.isNone_iff_eq_none] at hbs hnm
  unfold takenFilters updateBaseFilter updateNamedFilters
  rw [hbs, hnm]
  rfl

/-- **The table follows the messages**, whether or not their filters can be
read. -/
theorem Represents.applyCapabilityFilterUpdate {c : NetworkConfig}
    (h : Represents F c.capabilityFilters) (aton : Aton) (map : Json) :
    Represents (F.taking aton map)
      (after (applyCapabilityFilterUpdate aton map) c).capabilityFilters := by
  unfold after
  rw [applyCapabilityFilterUpdate_eq]
  cases htn : NetworkMapParser.takenFilters aton map c.capabilityFilters with
  | error =>
    -- Nothing is written before all has been read.
    have hun : ¬Readable aton map := fun hrd => by
      obtain ⟨_, hok⟩ := (takenFilters_ok_iff h).mpr hrd
      exact nomatch htn.symm.trans hok
    unfold FilterSets.taking
    rw [if_neg hun]
    exact h
  | ok =>
    have hfl := h.takenFilters htn
    unfold writeFilters
    -- Without filters nothing is written, and there is nothing to write.
    cases hhas : hasFilters map with
    | true => exact hfl
    | false =>
      rw [takenFilters_of_not_hasFilters hhas] at htn
      cases htn
      exact hfl

end NetworkMapParser

end Tailgate
