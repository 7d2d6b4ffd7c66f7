import Mathlib.Tactic

/-!
# Circular bitmaps

A set of numbers that are never far apart can be kept in a fixed number of
words, one bit for each remainder (`test_insert`, `test_erase`). Numbers closer
to each other than there are bits have different remainders (`modEq_iff_eq`), so
among such numbers a bitmap is a set.
-/

abbrev Bitmap (n w : ℕ) := Vector (BitVec w) n

namespace Bitmap

variable {n w : ℕ} [NeZero n] [NeZero w] (b : Bitmap n w) (i : ℕ)

theorem div_lt : i % (n * w) / w < n := by
  refine Nat.div_lt_of_lt_mul ?_
  rw [Nat.mul_comm w n]
  exact Nat.mod_lt i (Nat.mul_pos (NeZero.pos n) (NeZero.pos w))

def word (n w : ℕ) [NeZero n] [NeZero w] (i : ℕ) : Fin n := ⟨i % (n * w) / w, div_lt i⟩

def bit (n w : ℕ) (i : ℕ) : ℕ := i % (n * w) % w

def mask (n w : ℕ) (i : ℕ) : BitVec w := 1#w <<< bit n w i

def empty : Bitmap n w := Vector.replicate n 0#w

def test : Bool := (b[word n w i] &&& mask n w i) != 0#w

def insert : Bitmap n w :=
  b.set (word n w i) (b[word n w i] ||| mask n w i)

def erase : Bitmap n w :=
  b.set (word n w i) (b[word n w i] &&& ~~~mask n w i)

/-! ## Words and bits -/

omit [NeZero n] in
theorem bit_lt : bit n w i < w := Nat.mod_lt _ (NeZero.pos w)

theorem word_bit_eq_iff {i j : ℕ} :
    word n w i = word n w j ∧ bit n w i = bit n w j ↔ i ≡ j [MOD n * w] := by
  unfold word bit Nat.ModEq
  rw [Fin.mk.injEq]
  refine ⟨fun ⟨hwr, hbit⟩ => ?_, fun h => by rw [h]; exact ⟨rfl, rfl⟩⟩
  rw [← Nat.div_add_mod (i % (n * w)) w, hwr, hbit, Nat.div_add_mod]

omit [NeZero n] in
theorem getLsbD_mask (j : ℕ) : (mask n w i).getLsbD j = decide (bit n w i = j) := by
  unfold mask
  rw [← BitVec.twoPow_eq, BitVec.getLsbD_twoPow, decide_eq_true (bit_lt i), Bool.true_and]

theorem test_eq : b.test i = b[word n w i].getLsbD (bit n w i) := by
  have hms : mask n w i ≠ 0#w := fun h => by
    have hset := getLsbD_mask (n := n) (w := w) i (bit n w i)
    simp [h] at hset
  unfold test
  rw [show mask n w i = BitVec.twoPow w (bit n w i) from (BitVec.twoPow_eq _ _).symm] at hms ⊢
  rw [BitVec.and_twoPow]
  cases b[word n w i].getLsbD (bit n w i) with
  | false => simp
  | true => simp [hms]

omit [NeZero n] [NeZero w] in
theorem getElem_set (i j : Fin n) (x : BitVec w) : (b.set i x)[j] = if i = j then x else b[j] := by
  rw [Fin.getElem_fin, Vector.getElem_set]
  simp only [Fin.ext_iff, Fin.getElem_fin]

/-- **Nothing is in the empty bitmap.** -/
@[simp] theorem test_empty : (empty : Bitmap n w).test i = false := by
  rw [test_eq]
  simp [empty]

/-- **Setting a bit** sets it for the numbers that share it, and nothing
else. -/
theorem test_insert (j : ℕ) : (b.insert i).test j = true ↔ i ≡ j [MOD n * w] ∨ b.test j = true := by
  rw [← word_bit_eq_iff, test_eq, test_eq]
  unfold insert
  rw [getElem_set]
  by_cases hwr : word n w i = word n w j
  · rw [if_pos hwr, BitVec.getLsbD_or, getLsbD_mask]
    simp [hwr, or_comm]
  · simp [hwr]

/-- **Clearing a bit** clears it for the numbers that share it, and nothing
else. -/
theorem test_erase (j : ℕ) : (b.erase i).test j = true ↔ ¬i ≡ j [MOD n * w] ∧ b.test j = true := by
  rw [← word_bit_eq_iff, test_eq, test_eq]
  unfold erase
  rw [getElem_set]
  by_cases hwr : word n w i = word n w j
  · rw [if_pos hwr, BitVec.getLsbD_and, BitVec.getLsbD_not, getLsbD_mask]
    simp [hwr, bit_lt, and_comm]
  · simp [hwr]

theorem modEq_iff_eq {size i j : ℕ} (hij : i < j + size) (hji : j < i + size) :
    i ≡ j [MOD size] ↔ i = j := by
  refine ⟨fun h => h.eq_of_abs_lt ?_, fun h => h ▸ .refl i⟩
  rw [abs_lt]
  omega

end Bitmap
