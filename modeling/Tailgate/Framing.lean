import Mathlib.Tactic

/-!
# Taking frames off a buffer

What arrives on a stream is put behind what is left of it, and frames are
taken off the front for as long as one is complete. A `Framing` is a function
that takes one frame, if there is one: it takes at least something, and what
comes behind a complete frame does not change it. Taking all frames is then a
fold, and it does not matter when it is done: `takeAll_append`.
-/

structure Framing (α β : Type) where
  /-- The first frame and what is behind it, if it is complete. -/
  take : List α → Option (β × List α)
  shrinks : ∀ {b x rest}, take b = some (x, rest) → rest.length < b.length
  /-- A complete frame does not depend on what is behind it. -/
  stable : ∀ {b x rest}, take b = some (x, rest) → ∀ c, take (b ++ c) = some (x, rest ++ c)

namespace Framing

open List

variable {α β : Type} (F : Framing α β)

def takeUpTo : ℕ → List α → List β × List α
  | 0, b => ([], b)
  | n + 1, b =>
    match F.take b with
    | none => ([], b)
    | some (x, rest) => (x :: (takeUpTo n rest).1, (takeUpTo n rest).2)

/-- **Take all frames that are complete**, and leave what is behind them. -/
def takeAll (b : List α) : List β × List α := F.takeUpTo b.length b

variable {F} {b c : List α} {x : β} {rest : List α}

theorem take_nil : F.take [] = none := by
  cases htk : F.take [] with
  | none => rfl
  | some => exact absurd (F.shrinks htk) (by simp)

theorem takeUpTo_of_none (h : F.take b = none) (n : ℕ) : F.takeUpTo n b = ([], b) := by
  cases n with
  | zero => rfl
  | succ => simp only [takeUpTo, h]

/-- As many turns as there are elements are enough, and more do not
matter. -/
theorem takeUpTo_eq {m n : ℕ} (hm : b.length ≤ m) (hn : b.length ≤ n) :
    F.takeUpTo m b = F.takeUpTo n b := by
  induction m generalizing n b with
  | zero =>
    have hem : b = [] := eq_nil_of_length_eq_zero (by omega)
    subst hem
    rw [takeUpTo_of_none take_nil, takeUpTo_of_none take_nil]
  | succ _ ih =>
    cases htk : F.take b with
    | none => rw [takeUpTo_of_none htk, takeUpTo_of_none htk]
    | some result =>
      have hlt := F.shrinks htk
      obtain ⟨n, rfl⟩ : ∃ k, n = k + 1 := ⟨n - 1, by omega⟩
      simp only [takeUpTo, htk]
      rw [ih (by omega) (by omega : result.2.length ≤ n)]

theorem takeAll_of_none (h : F.take b = none) : F.takeAll b = ([], b) :=
  takeUpTo_of_none h b.length

theorem takeAll_of_some (h : F.take b = some (x, rest)) :
    F.takeAll b = (x :: (F.takeAll rest).1, (F.takeAll rest).2) := by
  have hlt := F.shrinks h
  obtain ⟨n, hn⟩ : ∃ n, b.length = n + 1 := ⟨b.length - 1, by omega⟩
  unfold takeAll
  rw [hn]
  simp only [takeUpTo, h]
  rw [takeUpTo_eq (by omega : rest.length ≤ n) le_rfl]

/-- Along the frames of a buffer: what holds where none is complete, and of a
buffer if it holds of what is behind its first frame, holds of any. -/
theorem induction {P : List α → Prop} (hno : ∀ b, F.take b = none → P b)
    (hso : ∀ b x rest, F.take b = some (x, rest) → P rest → P b) (b : List α) : P b := by
  cases htk : F.take b with
  | none => exact hno b htk
  | some result =>
    have hlt := F.shrinks htk
    exact hso b result.1 result.2 htk (induction hno hso result.2)
  termination_by b.length

variable (F) in
def Rest : List α → List α → Prop :=
  Relation.ReflTransGen fun b rest => ∃ x, F.take b = some (x, rest)

theorem Rest.append {b rest : List α} (h : F.Rest b rest) (c : List α) :
    F.Rest (b ++ c) (rest ++ c) := by
  induction h with
  | refl => exact .refl
  | tail _ hsp ih =>
    obtain ⟨x, hx⟩ := hsp
    exact ih.tail ⟨x, F.stable hx c⟩

theorem take_takeAll (b : List α) : F.take (F.takeAll b).2 = none := by
  refine F.induction (P := fun b => F.take (F.takeAll b).2 = none) ?_ ?_ b
  · intro _ hb
    rw [takeAll_of_none hb]
    exact hb
  · intro _ _ _ hb ih
    rw [takeAll_of_some hb]
    exact ih

/-- **It does not matter when frames are taken**: those of a buffer are those
of its first part, and then those of what is left of it with the rest. -/
theorem takeAll_append (b c : List α) :
    F.takeAll (b ++ c) = ((F.takeAll b).1 ++ (F.takeAll ((F.takeAll b).2 ++ c)).1,
      (F.takeAll ((F.takeAll b).2 ++ c)).2) := by
  refine F.induction (P := fun b => F.takeAll (b ++ c) =
    ((F.takeAll b).1 ++ (F.takeAll ((F.takeAll b).2 ++ c)).1,
      (F.takeAll ((F.takeAll b).2 ++ c)).2)) ?_ ?_ b
  · intro _ hb
    rw [takeAll_of_none hb]
    rfl
  · intro _ _ _ hb ih
    rw [takeAll_of_some hb, takeAll_of_some (F.stable hb c), ih]
    rfl

/-! ## Pieces -/

variable (F) in
def takePieces : List (List α) → List α → List (List β) × List α
  | [], b => ([], b)
  | piece :: pieces, b =>
    ((F.takeAll (b ++ piece)).1 :: (takePieces pieces (F.takeAll (b ++ piece)).2).1,
      (takePieces pieces (F.takeAll (b ++ piece)).2).2)

/-- **It does not matter how a text is cut.** -/
theorem takePieces_eq (pieces : List (List α)) (hb : F.take b = none) :
    (F.takePieces pieces b).1.flatten = (F.takeAll (b ++ pieces.flatten)).1
      ∧ (F.takePieces pieces b).2 = (F.takeAll (b ++ pieces.flatten)).2 := by
  induction pieces generalizing b with
  | nil =>
    rw [flatten_nil, append_nil, takeAll_of_none hb]
    exact ⟨rfl, rfl⟩
  | cons piece _ ih =>
    obtain ⟨htn, hlf⟩ := ih (take_takeAll (F := F) (b ++ piece))
    rw [flatten_cons, ← append_assoc, takeAll_append, ← htn, ← hlf]
    exact ⟨rfl, rfl⟩

/-- **A text of whole frames** leaves nothing. -/
theorem takeAll_flatMap {γ : Type} {write : γ → List α} {read : γ → β} {ws : List γ}
    (h : ∀ w ∈ ws, ∀ rest, F.take (write w ++ rest) = some (read w, rest)) :
    F.takeAll (ws.flatMap write) = (ws.map read, []) := by
  induction ws with
  | nil => exact takeAll_of_none take_nil
  | cons w _ ih =>
    rw [flatMap_cons, takeAll_of_some (h w mem_cons_self _),
      ih fun w' hw' => h w' (mem_cons_of_mem w hw')]
    rfl

end Framing
