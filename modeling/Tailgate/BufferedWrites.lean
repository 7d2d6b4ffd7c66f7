import Mathlib.Tactic

/-!
# Writing a buffer in pieces

What is to be sent is put behind what has not been sent yet, and the buffer is
written to a connection that takes as much as it has room for: a list of numbers,
zero if it has been closed. Whatever it answers, what has been taken and what
remains are what was in the buffer (`flush_written`).
-/

theorem zero_le_nil {β : Type} : 0 ≤ ([] : List β).length := Nat.zero_le _

/-- **A buffer that is partly written.** -/
structure SendBuffer (β : Type) where
  bytes : List β := []
  offset : ℕ := 0
  /-- No more has been written than there is. -/
  offset_le : offset ≤ bytes.length := by exact zero_le_nil

namespace SendBuffer

open List

variable {β : Type} (b : SendBuffer β)

def remaining : List β := b.bytes.drop b.offset

def pending : Bool := decide (b.offset < b.bytes.length)

def append (data : List β) : SendBuffer β where
  bytes := b.bytes ++ data
  offset := b.offset
  offset_le := by
    have h := b.offset_le
    rw [length_append]
    omega

def advance (n : ℕ) (h : n ≤ b.bytes.length - b.offset) : SendBuffer β where
  bytes := b.bytes
  offset := b.offset + n
  offset_le := by
    have hle := b.offset_le
    omega

structure Flushed (β : Type) where
  written : List β := []
  left : SendBuffer β := {}
  closed : Bool := false

/-- **Write the buffer**, to a connection that answers like this. -/
def flush : List ℕ → SendBuffer β → Flushed β
  | [], b => { left := if b.pending then b else {} }
  | n :: answers, b =>
    if b.pending then
      if n = 0 then { left := b, closed := true }
      else
        let count := min n (b.bytes.length - b.offset)
        let rest := flush answers (b.advance count (min_le_right _ _))
        { rest with written := b.remaining.take count ++ rest.written }
    else {}

@[simp]
theorem remaining_append (data : List β) : (b.append data).remaining = b.remaining ++ data :=
  drop_append_of_le_length b.offset_le

theorem remaining_advance {n : ℕ} (h : n ≤ b.bytes.length - b.offset) :
    (b.advance n h).remaining = b.remaining.drop n := by
  unfold remaining advance
  rw [drop_drop]

theorem pending_eq_false_iff : b.pending = false ↔ b.remaining = [] := by
  unfold pending remaining
  rw [decide_eq_false_iff_not, drop_eq_nil_iff, not_lt]

/-- **Nothing is lost and nothing is written twice.** -/
theorem flush_written (answers : List ℕ) (b : SendBuffer β) :
    (b.flush answers).written ++ (b.flush answers).left.remaining = b.remaining := by
  induction answers generalizing b with
  | nil =>
    cases hpd : b.pending with
    | true => simp [flush, hpd]
    | false =>
      rw [(pending_eq_false_iff b).mp hpd]
      simp [flush, hpd, remaining]
  | cons n _ ih =>
    unfold flush
    cases hpd : b.pending with
    | false =>
      rw [(pending_eq_false_iff b).mp hpd]
      simp [remaining]
    | true =>
      by_cases hn : n = 0
      · simp [hn]
      · simp only [hn, if_true, if_false]
        rw [append_assoc, ih, remaining_advance, take_append_drop]

theorem flush_closed {answers : List ℕ} (h : 0 ∉ answers) (b : SendBuffer β) :
    (b.flush answers).closed = false := by
  induction answers generalizing b with
  | nil => rfl
  | cons _ _ ih =>
    obtain ⟨hn, han⟩ := not_or.mp (fun hmem => h (mem_cons.mpr hmem))
    unfold flush
    cases b.pending with
    | false => rfl
    | true =>
      simp only [Ne.symm hn, if_true, if_false]
      exact ih han _

end SendBuffer
