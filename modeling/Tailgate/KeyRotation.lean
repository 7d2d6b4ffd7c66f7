import Mathlib.Tactic

/-!
# Rotating keys and a small cache

A key is *next* until it is first used, then *current*, and then *previous*
until another takes that place; or it becomes current at once. A cache holds
something for each key that has been used, and the oldest entry makes room.

With three entries or more no key in a place loses its entry (`Sound.use`),
because the places are never all taken: with the next key there is no previous
one. `Sound` says how far behind entries can have fallen.
-/

/-- Keys in their places, and those with an entry in the cache, the one added
last in front. -/
structure KeyRotation (ι : Type) where
  prev : Option ι := none
  curr : Option ι := none
  next : Option ι := none
  recent : List ι := []

namespace KeyRotation

open List Option

variable {ι : Type} (R : KeyRotation ι)

def Live (x : ι) : Prop :=
  R.prev = some x ∨ R.curr = some x ∨ R.next = some x

def insert [DecidableEq ι] (n : ℕ) (x : ι) (R : KeyRotation ι) : KeyRotation ι :=
  if x ∈ R.recent then R else { R with recent := (x :: R.recent).take n }

def promote : KeyRotation ι :=
  { R with prev := R.curr, curr := R.next, next := none }

def initiate (x : ι) (R : KeyRotation ι) : KeyRotation ι :=
  { R with prev := R.next.or R.curr, curr := some x, next := none }

def respond (x : ι) (R : KeyRotation ι) : KeyRotation ι :=
  { R with prev := none, next := some x }

def giveUp : KeyRotation ι := { R with curr := none }

/-- **How far behind the entries of keys can be.** -/
structure Sound (R : KeyRotation ι) : Prop where
  /-- With the next key there is no previous one, and it has no entry. -/
  next_unused : ∀ {x}, R.next = some x → R.prev = none ∧ x ∉ R.recent
  /-- The next key is another than the current one. -/
  next_ne : ∀ {x}, R.next = some x → R.curr ≠ some x
  /-- At most one entry is behind that of the current key. -/
  curr_recent : ∀ {x}, R.curr = some x → x ∈ R.recent → x ∈ R.recent.take 2
  /-- None is if the previous key can still get one. -/
  curr_latest : ∀ {x y}, R.curr = some x → x ∈ R.recent → R.prev = some y → y ∉ R.recent →
    x ∈ R.recent.take 1
  /-- At most one is behind that of the previous key if the current one can
  still get one. -/
  prev_recent : ∀ {x y}, R.prev = some x → x ∈ R.recent → R.curr = some y → y ∉ R.recent →
    x ∈ R.recent.take 2

inductive Place
  | prev
  | curr
  | next

def key : Place → Option ι
  | .prev => R.prev
  | .curr => R.curr
  | .next => R.next

/-- A key is used: it gets an entry, and the next key becomes the current
one. -/
def use [DecidableEq ι] (n : ℕ) (p : Place) (x : ι) (R : KeyRotation ι) : KeyRotation ι :=
  match p with
  | .next => (R.insert n x).promote
  | _ => R.insert n x

variable {R} {x y : ι} {p : Place}

theorem Live.of_key (h : R.key p = some x) : R.Live x := by
  cases p with
  | prev => exact .inl h
  | curr => exact .inr (.inl h)
  | next => exact .inr (.inr h)

theorem Live.of_initiate (h : (R.initiate x).Live y) : y = x ∨ R.Live y := by
  obtain hpr | hcr | hnx := h
  · obtain hnx | ⟨-, hcr⟩ := or_eq_some_iff.mp hpr
    · exact .inr (.inr (.inr hnx))
    · exact .inr (.inr (.inl hcr))
  · exact .inl (some.inj hcr).symm
  · cases hnx

theorem Live.of_respond (h : (R.respond x).Live y) : y = x ∨ R.Live y := by
  obtain hpr | hcr | hnx := h
  · cases hpr
  · exact .inr (.inr (.inl hcr))
  · exact .inl (some.inj hnx).symm

theorem Live.of_giveUp (h : R.giveUp.Live y) : R.Live y := by
  obtain hpr | hcr | hnx := h
  · exact .inl hpr
  · cases hcr
  · exact .inr (.inr hnx)

namespace Sound

theorem initiate (h : R.Sound) (hx : x ∉ R.recent) : (R.initiate x).Sound where
  next_unused := nofun
  next_ne := nofun
  curr_recent hcr hmem := by
    cases hcr
    exact absurd hmem hx
  curr_latest hcr hmem := by
    cases hcr
    exact absurd hmem hx
  prev_recent := by
    intro y _ hpr hmem _ _
    cases hnx : R.next with
    | none =>
      have hold : R.curr = some y := by simpa [KeyRotation.initiate, hnx] using hpr
      exact h.curr_recent hold hmem
    | some next =>
      obtain rfl : next = y := by simpa [KeyRotation.initiate, hnx] using hpr
      exact absurd hmem (h.next_unused hnx).2

theorem respond (h : R.Sound) (hx : x ∉ R.recent) (hcr : R.curr ≠ some x) :
    (R.respond x).Sound where
  next_unused hnx := by
    cases hnx
    exact ⟨rfl, hx⟩
  next_ne hnx := by
    cases hnx
    exact hcr
  curr_recent := h.curr_recent
  curr_latest := nofun
  prev_recent := nofun

theorem giveUp (h : R.Sound) : R.giveUp.Sound where
  next_unused := h.next_unused
  next_ne := nofun
  curr_recent := nofun
  curr_latest := nofun
  prev_recent := nofun

/-- While a key in a place can still get an entry, the entries of the others
are among the last two. -/
theorem mem_take_two (h : R.Sound) {p : Place} (hp : R.key p = some x) (hx : x ∉ R.recent)
    (hy : R.Live y) (hmem : y ∈ R.recent) : y ∈ R.recent.take 2 := by
  obtain hpr | hcr | hnx := hy
  · cases p with
    | prev =>
      cases hpr.symm.trans hp
      exact absurd hmem hx
    | curr => exact h.prev_recent hpr hmem hp hx
    | next => exact absurd ((h.next_unused hp).1.symm.trans hpr) (by simp)
  · exact h.curr_recent hcr hmem
  · exact absurd hmem (h.next_unused hnx).2

end Sound

/-! ## Using a key -/

variable [DecidableEq ι] {n : ℕ}

theorem mem_take_one (hn : 1 ≤ n) (hx : x ∉ R.recent) : x ∈ (R.insert n x).recent.take 1 := by
  unfold insert
  rw [if_neg hx, take_take, min_eq_left hn]
  exact mem_cons_self

theorem mem_insert (hn : 1 ≤ n) : x ∈ (R.insert n x).recent := by
  by_cases hx : x ∈ R.recent
  · unfold insert
    rw [if_pos hx]
    exact hx
  · exact mem_of_mem_take (mem_take_one hn hx)

theorem mem_take_insert {k : ℕ} (hk : k + 1 ≤ n) (h : y ∈ R.recent.take k) :
    y ∈ (R.insert n x).recent.take (k + 1) := by
  unfold insert
  split
  · exact (take_sublist_take_left (Nat.le_succ k)).subset h
  · rw [take_take, min_eq_left hk, take_succ_cons]
    exact mem_cons_of_mem x h

theorem eq_or_mem_of_mem_insert (h : y ∈ (R.insert n x).recent) : y = x ∨ y ∈ R.recent := by
  unfold insert at h
  split at h
  · exact .inr h
  · exact mem_cons.mp (mem_of_mem_take h)

@[simp] theorem prev_insert : (R.insert n x).prev = R.prev := by
  unfold insert
  split <;> rfl

@[simp] theorem curr_insert : (R.insert n x).curr = R.curr := by
  unfold insert
  split <;> rfl

@[simp] theorem next_insert : (R.insert n x).next = R.next := by
  unfold insert
  split <;> rfl

theorem recent_use (p : Place) : (R.use n p x).recent = (R.insert n x).recent := by
  cases p <;> rfl

theorem Live.of_use (h : (R.use n p x).Live y) : R.Live y := by
  cases p with
  | prev | curr => simpa only [use, Live, prev_insert, curr_insert, next_insert] using h
  | next =>
    obtain hpr | hcr | hnx := h
    · exact .inr (.inl (curr_insert.symm.trans hpr))
    · exact .inr (.inr (next_insert.symm.trans hcr))
    · cases hnx

namespace Sound

variable {p : Place}

/-- **No key in a place loses its entry** when one is used. -/
theorem mem_use (h : R.Sound) (hn : 3 ≤ n) (hp : R.key p = some x) (hy : R.Live y)
    (hmem : y ∈ R.recent) : y ∈ (R.use n p x).recent := by
  rw [recent_use]
  by_cases hx : x ∈ R.recent
  · unfold insert
    rw [if_pos hx]
    exact hmem
  · exact mem_of_mem_take (mem_take_insert hn (h.mem_take_two hp hx hy hmem))

/-- **Using a key keeps the entries close.** -/
theorem use (h : R.Sound) (hn : 3 ≤ n) (hp : R.key p = some x) : (R.use n p x).Sound := by
  by_cases hx : x ∈ R.recent
  · have hsm : R.insert n x = R := by
      unfold insert
      rw [if_pos hx]
    cases p with
    | prev | curr =>
      show (R.insert n x).Sound
      rw [hsm]
      exact h
    | next => exact absurd hx (h.next_unused hp).2
  · have hus : x ∈ (R.insert n x).recent := mem_insert (by omega)
    have hlt : x ∈ (R.insert n x).recent.take 1 := mem_take_one (by omega) hx
    have htwo : x ∈ (R.insert n x).recent.take 2 :=
      (take_sublist_take_left (by omega)).subset hlt
    cases p with
    | prev =>
      have hpr : R.prev = some x := hp
      have hno {y : ι} (hnx : (R.insert n x).next = some y) : False := by
        rw [next_insert] at hnx
        exact absurd ((h.next_unused hnx).1.symm.trans hpr) (by simp)
      refine ⟨fun hnx => (hno hnx).elim, fun hnx => (hno hnx).elim,
        fun {y} hcr hmem => ?_, fun {y z} _ _ hz hun => ?_, fun {y z} hy _ _ _ => ?_⟩
      · obtain rfl | hold := eq_or_mem_of_mem_insert hmem
        · exact htwo
        · exact mem_take_insert (by omega) (h.curr_latest (curr_insert.symm.trans hcr) hold hpr hx)
      · have hsm : R.prev = some z := prev_insert.symm.trans hz
        cases hpr.symm.trans hsm
        exact absurd hus hun
      · have hsm : R.prev = some y := prev_insert.symm.trans hy
        cases hpr.symm.trans hsm
        exact htwo
    | curr =>
      have hcr : R.curr = some x := hp
      have hsm {y : ι} (hy : (R.insert n x).curr = some y) : y = x :=
        some.inj ((curr_insert.symm.trans hy).symm.trans hcr)
      refine ⟨fun {y} hnx => ?_, fun {y} hnx hy => ?_, fun {y} hy _ => hsm hy ▸ htwo,
        fun {y z} hy _ _ _ => hsm hy ▸ hlt, fun {y z} _ _ hz hun => ?_⟩
      · have hold : R.next = some y := next_insert.symm.trans hnx
        refine ⟨prev_insert.trans (h.next_unused hold).1, fun hmem => ?_⟩
        obtain rfl | hmem := eq_or_mem_of_mem_insert hmem
        · exact h.next_ne hold hcr
        · exact (h.next_unused hold).2 hmem
      · exact h.next_ne (next_insert.symm.trans hnx) (curr_insert.symm.trans hy)
      · exact absurd (hsm hz ▸ hus) hun
    | next =>
      have hsm {y : ι} (hy : (R.insert n x).next = some y) : y = x :=
        some.inj ((next_insert.symm.trans hy).symm.trans hp)
      exact ⟨fun hnx => (nomatch hnx), fun hnx => (nomatch hnx),
        fun hy _ => hsm hy ▸ htwo, fun hy _ _ _ => hsm hy ▸ hlt,
        fun _ _ hz hun => absurd (hsm hz ▸ hus) hun⟩

end Sound

end KeyRotation
