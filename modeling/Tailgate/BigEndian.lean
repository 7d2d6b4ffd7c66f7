import Mathlib.Tactic

/-!
# Numbers as bytes, most significant first

Wire formats write a number in a fixed count of bytes, the most significant
one first, and read it back by shifting what is read so far and adding the
next byte. A number that fits its width is read back as it was written.
-/

/-- A text of bytes, as it goes over a wire. -/
abbrev Bytes := List UInt8

namespace BigEndian

open List

/-- The `k` bytes of a number, from the most significant on: each is the
number shifted right and cut to eight bits. -/
def bytes : ℕ → ℕ → Bytes
  | 0, _ => []
  | k + 1, n => .ofNat (n / 256 ^ k) :: bytes k n

def valueFrom (v : ℕ) (bs : Bytes) : ℕ :=
  bs.foldl (fun v b => v * 256 + b.toNat) v

def value (bs : Bytes) : ℕ :=
  valueFrom 0 bs

@[simp]
theorem length_bytes (k n : ℕ) : (bytes k n).length = k := by
  induction k with
  | zero => rfl
  | succ _ ih =>
    unfold bytes
    rw [length_cons, ih]

theorem valueFrom_bytes (k n v : ℕ) : valueFrom v (bytes k n) = v * 256 ^ k + n % 256 ^ k := by
  induction k generalizing v with
  | zero => simp [bytes, valueFrom, Nat.mod_one]
  | succ k ih =>
    have hby : (UInt8.ofNat (n / 256 ^ k)).toNat = n / 256 ^ k % 256 := by simp
    show valueFrom (v * 256 + (UInt8.ofNat (n / 256 ^ k)).toNat) (bytes k n) = _
    rw [ih, hby, pow_succ, Nat.mod_mul]
    ring

theorem value_lt (bs : Bytes) : value bs < 256 ^ bs.length := by
  have hfr : ∀ v, valueFrom v bs < (v + 1) * 256 ^ bs.length := by
    induction bs with
    | nil => simp [valueFrom]
    | cons b bs ih =>
      intro v
      have hb := b.toNat_lt
      calc valueFrom (v * 256 + b.toNat) bs
          < (v * 256 + b.toNat + 1) * 256 ^ bs.length := ih _
        _ ≤ ((v + 1) * 256) * 256 ^ bs.length := Nat.mul_le_mul_right _ (by omega)
        _ = (v + 1) * 256 ^ (bs.length + 1) := by ring
  simpa [value] using hfr 0

variable {k n : ℕ} {bs : Bytes}

/-- **A number that fits is read back.** -/
theorem value_bytes (h : n < 256 ^ k) : value (bytes k n) = n := by
  unfold value
  rw [valueFrom_bytes, Nat.mod_eq_of_lt h]
  ring

/-- What bytes spell after some number is that number, moved, and what they
spell alone. -/
theorem valueFrom_eq (v : ℕ) (bs : Bytes) :
    valueFrom v bs = v * 256 ^ bs.length + value bs := by
  induction bs generalizing v with
  | nil => simp [value, valueFrom]
  | cons b bs ih =>
    have hfi : ∀ w, valueFrom w (b :: bs) = valueFrom (w * 256 + b.toNat) bs := fun _ => rfl
    unfold value
    rw [hfi, hfi, ih, ih (0 * 256 + b.toNat), length_cons]
    ring

/-- **Bytes are written back** from the number they spell. -/
theorem bytes_value (bs : Bytes) : bytes bs.length (value bs) = bs := by
  have hfr : ∀ v, bytes bs.length (valueFrom v bs) = bs := by
    induction bs with
    | nil => exact fun _ => rfl
    | cons b bs ih =>
      intro v
      have hdiv : valueFrom (v * 256 + b.toNat) bs / 256 ^ bs.length = v * 256 + b.toNat := by
        rw [valueFrom_eq, Nat.mul_comm, Nat.mul_add_div (by positivity),
          Nat.div_eq_of_lt (value_lt bs), Nat.add_zero]
      have hby : .ofNat (v * 256 + b.toNat) = b := by
        apply UInt8.toNat_inj.mp
        have hlt := b.toNat_lt
        rw [UInt8.toNat_ofNat']
        omega
      show .ofNat (valueFrom (v * 256 + b.toNat) bs / 256 ^ bs.length)
        :: bytes bs.length (valueFrom (v * 256 + b.toNat) bs) = b :: bs
      rw [hdiv, hby, ih]
  exact hfr 0

theorem bytes_value_of_length (h : bs.length = k) : bytes k (value bs) = bs := by
  rw [← h]
  exact bytes_value bs

/-- **Bytes that spell a number are those that are written for it.** -/
theorem eq_bytes_iff : bs = bytes k n ∧ n < 256 ^ k ↔ bs.length = k ∧ value bs = n := by
  constructor
  · rintro ⟨rfl, h⟩
    exact ⟨length_bytes k n, value_bytes h⟩
  · rintro ⟨rfl, rfl⟩
    exact ⟨(bytes_value bs).symm, value_lt bs⟩

/-! ## Numbers of a width -/

theorem bytes_uint16 (h : bs.length = 2) : bytes 2 (UInt16.ofNat (value bs)).toNat = bs := by
  obtain ⟨hby, hlt⟩ := eq_bytes_iff.mpr ⟨h, rfl⟩
  rw [UInt16.toNat_ofNat_of_lt' hlt]
  exact hby.symm

theorem bytes_uint32 (h : bs.length = 4) : bytes 4 (UInt32.ofNat (value bs)).toNat = bs := by
  obtain ⟨hby, hlt⟩ := eq_bytes_iff.mpr ⟨h, rfl⟩
  rw [UInt32.toNat_ofNat_of_lt' hlt]
  exact hby.symm

theorem bytes_uint64 (h : bs.length = 8) : bytes 8 (UInt64.ofNat (value bs)).toNat = bs := by
  obtain ⟨hby, hlt⟩ := eq_bytes_iff.mpr ⟨h, rfl⟩
  rw [UInt64.toNat_ofNat_of_lt' hlt]
  exact hby.symm

theorem value_uint16 (n : UInt16) : UInt16.ofNat (value (bytes 2 n.toNat)) = n := by
  rw [value_bytes n.toNat_lt, UInt16.ofNat_toNat]

theorem value_uint32 (n : UInt32) : UInt32.ofNat (value (bytes 4 n.toNat)) = n := by
  rw [value_bytes n.toNat_lt, UInt32.ofNat_toNat]

theorem value_uint64 (n : UInt64) : UInt64.ofNat (value (bytes 8 n.toNat)) = n := by
  rw [value_bytes n.toNat_lt, UInt64.ofNat_toNat]

/-! ## Reads that are checked -/

def bytesAt (k offset : ℕ) (bs : Bytes) : Option Bytes :=
  if offset + k ≤ bs.length then some ((bs.drop offset).take k) else none

def readAt (k offset : ℕ) (bs : Bytes) : Option ℕ := (bytesAt k offset bs).map value

variable {last offset : ℕ}

theorem exists_readAt (bs : Bytes) (k offset : ℕ) (h : offset + k ≤ bs.length) :
    ∃ n, readAt k offset bs = some n :=
  ⟨_, by rw [readAt, bytesAt, if_pos h]; rfl⟩

theorem bytesAt_take (h : offset + k ≤ last) (hlast : last ≤ bs.length) :
    bytesAt k offset (bs.take last) = bytesAt k offset bs := by
  unfold bytesAt
  rw [if_pos (by rw [length_take]; omega), if_pos (by omega), drop_take, take_take,
    Nat.min_eq_left (by omega)]

theorem readAt_take (h : offset + k ≤ last) (hlast : last ≤ bs.length) :
    readAt k offset (bs.take last) = readAt k offset bs := by
  rw [readAt, bytesAt_take h hlast, readAt]

end BigEndian
