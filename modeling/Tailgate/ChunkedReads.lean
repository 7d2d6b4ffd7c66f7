import Mathlib.Tactic

/-!
# Reading a stream in pieces

A reader asks a connection for at most some number of symbols and is given a
piece of what the other side sends, or nothing for now. It is given an empty
piece once the other side has closed, and if it asks for no symbols.

`Incoming` is all that a reader will meet, and `symbols` those yet to be read.
-/

/-- **What a connection gives to read**: the pieces, with `none` where it has
nothing for now. -/
structure Incoming (β : Type) where
  pieces : List (Option (List β)) := []
  ended : Bool := false
  nonempty : ∀ piece ∈ pieces, piece ≠ some [] := by simp

namespace Incoming

open List

variable {β : Type} (s : Incoming β)

def symbols : List β := (s.pieces.filterMap id).flatten

def ready : Bool := s.pieces.head?.any Option.isSome

def skip {piece : Option (List β)} {rest : List (Option (List β))}
    (h : s.pieces = piece :: rest) : Incoming β where
  pieces := rest
  ended := s.ended
  nonempty p hp := s.nonempty p (h ▸ mem_cons_of_mem piece hp)

def cut {piece : List β} {rest : List (Option (List β))}
    (h : s.pieces = some piece :: rest) {n : ℕ} (hn : n < piece.length) : Incoming β where
  pieces := some (piece.drop n) :: rest
  ended := s.ended
  nonempty p hp := by
    rcases mem_cons.mp hp with rfl | hp
    · rw [Ne, Option.some.injEq, drop_eq_nil_iff]
      omega
    · exact s.nonempty p (h ▸ mem_cons_of_mem _ hp)

/-- **Read at most some number of symbols.** -/
def tryReadSome (maximum : ℕ) (s : Incoming β) : Option (List β) × Incoming β :=
  match h : s.pieces with
  | [] => (if s.ended then some [] else none, s)
  | none :: _ => (none, s.skip h)
  | some piece :: _ =>
    if hn : maximum < piece.length then (some (piece.take maximum), s.cut h hn)
    else (some piece, s.skip h)

variable (chunks : List (List β))

def closing (h : ∀ chunk ∈ chunks, chunk ≠ []) : Incoming β where
  pieces := chunks.map some
  ended := true
  nonempty piece hp := by
    obtain ⟨chunk, hchunk, rfl⟩ := mem_map.mp hp
    exact fun heq => h chunk hchunk (Option.some.inj heq)

@[simp]
theorem symbols_closing (h : ∀ chunk ∈ chunks, chunk ≠ []) :
    (closing chunks h).symbols = chunks.flatten := by
  simp [symbols, closing]

/-! ## What a read does -/

section Reads

variable {s} {rest : List (Option (List β))}

theorem symbols_nil (h : s.pieces = []) : s.symbols = [] := by
  unfold symbols
  rw [h]
  rfl

theorem symbols_none (h : s.pieces = none :: rest) : s.symbols = (s.skip h).symbols := by
  unfold symbols skip
  rw [h]
  rfl

variable {piece : List β}

theorem symbols_some (h : s.pieces = some piece :: rest) :
    s.symbols = piece ++ (s.skip h).symbols := by
  unfold symbols skip
  rw [h]
  rfl

theorem symbols_cut (h : s.pieces = some piece :: rest) {n : ℕ}
    (hn : n < piece.length) : s.symbols = piece.take n ++ (s.cut h hn).symbols := by
  have hcut : (s.cut h hn).symbols = piece.drop n ++ (s.skip h).symbols := rfl
  rw [hcut, ← append_assoc, take_append_drop, symbols_some h]

end Reads

/-- **What one read may do.** -/
inductive Reads (maximum : ℕ) (s : Incoming β) : Option (List β) → Incoming β → Prop
  | blocked {s' : Incoming β} : s'.symbols = s.symbols → s'.ended = s.ended →
      (s'.pieces.length < s.pieces.length ∨ s' = s ∧ s.pieces = []) → Reads maximum s none s'
  | closed : s.ended = true → s.pieces = [] → Reads maximum s (some []) s
  | data {data : List β} {s' : Incoming β} : data ≠ [] → data.length ≤ maximum →
      s.symbols = data ++ s'.symbols → s'.ended = s.ended →
      s'.pieces.length ≤ s.pieces.length → Reads maximum s (some data) s'

variable {maximum : ℕ}

/-- **A read that asks for something.** -/
theorem reads_tryReadSome (hpos : 0 < maximum) (s : Incoming β) :
    Reads maximum s (s.tryReadSome maximum).1 (s.tryReadSome maximum).2 := by
  unfold tryReadSome
  split
  · next h =>
    cases hed : s.ended with
    | true => exact .closed hed h
    | false => exact .blocked rfl rfl (.inr ⟨rfl, h⟩)
  · next rest h => exact .blocked (symbols_none h).symm rfl (.inl (by simp [skip, h]))
  · next piece rest h =>
    have hne : piece ≠ [] := fun hnil => s.nonempty (some piece) (by simp [h]) (hnil ▸ rfl)
    split
    · next hn =>
      refine .data ?_ (length_take_le _ _) (symbols_cut h hn) rfl (by simp [cut, h])
      rw [Ne, take_eq_nil_iff]
      exact not_or.mpr ⟨hpos.ne', hne⟩
    · next hn => exact .data hne (not_lt.mp hn) (symbols_some h) rfl (by simp [skip, h])

theorem tryReadSome_of_le {s : Incoming β} {piece : List β} {rest : List (Option (List β))}
    (h : s.pieces = some piece :: rest) (hle : piece.length ≤ maximum) :
    s.tryReadSome maximum = (some piece, s.skip h) := by
  cases s
  cases h
  exact dif_neg (not_lt.mpr hle)

/-- A read that asks for nothing is given nothing, as if the other side had
closed, if there is something to read. -/
theorem tryReadSome_zero {s : Incoming β} (h : s.ready = true) :
    s.tryReadSome 0 = (some [], s) := by
  unfold ready at h
  unfold tryReadSome
  split
  · next hnil => simp [hnil] at h
  · next rest hno => simp [hno] at h
  · next piece rest hso =>
    have hne : piece ≠ [] := fun hnil => s.nonempty (some piece) (by simp [hso]) (hnil ▸ rfl)
    have hcut : s.cut hso (length_pos_iff.mpr hne) = s := by
      cases s
      cases hso
      rfl
    rw [dif_pos (length_pos_iff.mpr hne), hcut]
    rfl

/-! ## Readers that wait -/

/-- A connection that is only read when there is something to read, or after it
has been closed. -/
structure Closing (s : Incoming β) : Prop where
  /-- The other side closes in the end. -/
  ended : s.ended = true
  /-- There always is something to read. -/
  waits : none ∉ s.pieces

theorem closing_closing (h : ∀ chunk ∈ chunks, chunk ≠ []) : (closing chunks h).Closing where
  ended := rfl
  waits := by simp [closing]

/-- **A read that waits** is given the front of what is left, and nothing only
after the end. -/
theorem Closing.tryReadSome {s : Incoming β} (h : s.Closing) (hpos : 0 < maximum) :
    ∃ data s', s.tryReadSome maximum = (some data, s') ∧ s'.Closing
      ∧ s.symbols = data ++ s'.symbols ∧ data.length ≤ maximum ∧ (data = [] → s.symbols = []) := by
  unfold Incoming.tryReadSome
  split
  · next hnil =>
    exact ⟨[], s, by rw [h.ended]; rfl, h, rfl, Nat.zero_le _, fun _ => symbols_nil hnil⟩
  · next rest hno => exact absurd (by simp [hno]) h.waits
  · next piece rest hso =>
    have hne : piece ≠ [] := fun hnil => s.nonempty (some piece) (by simp [hso]) (hnil ▸ rfl)
    have hrs : none ∉ rest := fun hmem => h.waits (by simp [hso, hmem])
    split
    · next hn =>
      refine ⟨_, _, rfl, ⟨h.ended, by simpa [cut] using hrs⟩, symbols_cut hso hn,
        length_take_le _ _, fun hnil => ?_⟩
      rcases take_eq_nil_iff.mp hnil with h0 | h0
      · omega
      · exact absurd h0 hne
    · next hn =>
      exact ⟨_, _, rfl, ⟨h.ended, hrs⟩, symbols_some hso, not_lt.mp hn, fun hnil => absurd hnil hne⟩

end Incoming
