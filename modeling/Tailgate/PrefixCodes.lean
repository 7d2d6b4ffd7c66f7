import Mathlib.Tactic

/-!
# Prefix codes

If no word is the beginning of another one, a text written as words of bits can
be read back, also when something follows that does not begin with a word
(`coded_inj`).

In a *canonical* code each symbol, in the order of lengths, gets the number that
follows the one before it. Every word then comes before all later ones, and such
words are a prefix code (`eq_of_begins`).
-/

namespace PrefixCode

open List

/-! ## Numbers as bits -/

def value (bits : List Bool) : ℕ := bits.foldl (fun n b => 2 * n + b.toNat) 0

def word : ℕ → ℕ → List Bool
  | 0, _ => []
  | length + 1, n => word length (n / 2) ++ [decide (n % 2 = 1)]

section Numbers

variable {bits : List Bool} {b : Bool} {length n : ℕ}

@[simp]
theorem value_nil : value [] = 0 := rfl

@[simp]
theorem value_concat : value (bits ++ [b]) = 2 * value bits + b.toNat := by
  unfold value
  rw [foldl_append]
  rfl

@[simp]
theorem length_word (length n : ℕ) : (word length n).length = length := by
  induction length generalizing n with
  | zero => rfl
  | succ _ ih => rw [word, length_append, ih, length_singleton]

theorem word_value (bits : List Bool) : word bits.length (value bits) = bits := by
  induction bits using reverseRecOn with
  | nil => rfl
  | append_singleton bits b ih =>
    have hhl : (2 * value bits + b.toNat) / 2 = value bits := by
      have hb := b.toNat_lt
      omega
    have hla : decide ((2 * value bits + b.toNat) % 2 = 1) = b := by
      cases b <;> simp [Nat.add_mod]
    rw [length_append, length_singleton, value_concat, word, hhl, ih, hla]

theorem word_add (first rest n : ℕ) :
    word (first + rest) n = word first (n / 2 ^ rest) ++ word rest n := by
  induction rest generalizing n with
  | zero => simp [word]
  | succ _ ih =>
    rw [← Nat.add_assoc, word, ih, word, Nat.div_div_eq_div_mul, ← Nat.pow_succ', append_assoc]

variable {m : ℕ}

theorem word_inj (hm : m < 2 ^ length) (hn : n < 2 ^ length)
    (h : word length m = word length n) : m = n := by
  induction length generalizing m n with
  | zero =>
    rw [pow_zero, Nat.lt_one_iff] at hm hn
    rw [hm, hn]
  | succ _ ih =>
    obtain ⟨hft, hla⟩ := append_inj' h rfl
    have hhl := ih (by omega) (by omega) hft
    have hmod : m % 2 = 1 ↔ n % 2 = 1 := by simpa using hla
    omega

theorem div_eq_of_begins {longer : ℕ} (hle : length ≤ longer) (hm : m < 2 ^ length)
    (hn : n < 2 ^ longer) (h : word length m <+: word longer n) :
    n / 2 ^ (longer - length) = m := by
  obtain ⟨_, hrs⟩ := h
  have hsp := word_add length (longer - length) n
  rw [Nat.add_sub_cancel' hle, ← hrs] at hsp
  obtain ⟨hft, -⟩ := append_inj hsp (by simp)
  refine word_inj ?_ hm hft.symm
  rw [Nat.div_lt_iff_lt_mul (Nat.two_pow_pos _), ← Nat.pow_add, Nat.add_sub_cancel' hle]
  exact hn

end Numbers

/-! ## Canonical codes -/

structure CodeWord (σ : Type) where
  symbol : σ
  length : ℕ
  code : ℕ

variable {σ : Type}

def CodeWord.bits (w : CodeWord σ) : List Bool := word w.length w.code

/-- **Words for symbols in the order of their lengths**, from a number of some
length on. -/
def assign (next length : ℕ) : List (σ × ℕ) → List (CodeWord σ)
  | [] => []
  | (symbol, longer) :: rest =>
    ⟨symbol, longer, next * 2 ^ (longer - length)⟩
      :: assign (next * 2 ^ (longer - length) + 1) longer rest

def Before (a b : CodeWord σ) : Prop :=
  a.length ≤ b.length ∧ (a.code + 1) * 2 ^ (b.length - a.length) ≤ b.code

section Canonical

variable {next length : ℕ} {symbols : List (σ × ℕ)}

theorem map_symbol_assign (next length : ℕ) (symbols : List (σ × ℕ)) :
    (assign next length symbols).map CodeWord.symbol = symbols.map Prod.fst := by
  induction symbols generalizing next length with
  | nil => rfl
  | cons _ _ ih =>
    rw [assign, map_cons, ih, map_cons]

theorem le_of_mem_assign (hsr : (length :: symbols.map Prod.snd).IsChain (· ≤ ·))
    {w : CodeWord σ} (hw : w ∈ assign next length symbols) :
    length ≤ w.length ∧ next * 2 ^ (w.length - length) ≤ w.code := by
  induction symbols generalizing next length with
  | nil => cases hw
  | cons first _ ih =>
    obtain ⟨_, longer⟩ := first
    obtain ⟨hle, hrs⟩ := isChain_cons_cons.mp hsr
    rcases mem_cons.mp hw with rfl | hw
    · exact ⟨hle, le_refl _⟩
    · obtain ⟨hln, hco⟩ := ih hrs hw
      refine ⟨hle.trans hln, le_trans ?_ hco⟩
      have hpow : 2 ^ (w.length - length) = 2 ^ (longer - length) * 2 ^ (w.length - longer) := by
        rw [← Nat.pow_add]
        congr 1
        omega
      rw [hpow, ← Nat.mul_assoc]
      exact Nat.mul_le_mul_right _ (Nat.le_succ _)

/-- **Every word comes before all later ones.** -/
theorem pairwise_assign (hsr : (length :: symbols.map Prod.snd).IsChain (· ≤ ·)) :
    (assign next length symbols).Pairwise Before := by
  induction symbols generalizing next length with
  | nil => exact List.Pairwise.nil
  | cons _ _ ih =>
    obtain ⟨-, hrs⟩ := isChain_cons_cons.mp hsr
    exact List.Pairwise.cons (fun w hw => le_of_mem_assign hrs hw) (ih hrs)

variable {a b : CodeWord σ}

theorem Before.not_begins (h : Before a b) (ha : a.code < 2 ^ a.length)
    (hb : b.code < 2 ^ b.length) : ¬a.bits <+: b.bits := by
  intro hft
  have hdiv := div_eq_of_begins h.1 ha hb hft
  have hle : a.code + 1 ≤ b.code / 2 ^ (b.length - a.length) :=
    (Nat.le_div_iff_mul_le (Nat.two_pow_pos _)).mpr h.2
  omega

theorem Before.not_begins' (h : Before a b) (ha : a.code < 2 ^ a.length)
    (hb : b.code < 2 ^ b.length) : ¬b.bits <+: a.bits := by
  intro hft
  -- it is no shorter, so the two would be the same
  have hle : b.length ≤ a.length := by
    simpa [CodeWord.bits] using hft.length_le
  have hsm : b.length = a.length := le_antisymm hle h.1
  refine h.not_begins ha hb ?_
  rw [hft.eq_of_length (by simp [CodeWord.bits, hsm])]

/-- **Words that come one before the other are a prefix code.** -/
theorem eq_of_begins {words : List (CodeWord σ)} (h : words.Pairwise Before)
    (hfi : ∀ w ∈ words, w.code < 2 ^ w.length) (ha : a ∈ words)
    (hb : b ∈ words) (hft : a.bits <+: b.bits) : a = b := by
  by_contra hne
  have hbe : Before a b ∨ Before b a := by
    have : Std.Symm fun a b : CodeWord σ => Before a b ∨ Before b a := ⟨fun _ _ => Or.symm⟩
    exact (h.imp (S := fun a b => Before a b ∨ Before b a) .inl).forall ha hb hne
  rcases hbe with hbe | hbe
  · exact hbe.not_begins (hfi a ha) (hfi b hb) hft
  · exact hbe.not_begins' (hfi b hb) (hfi a ha) hft

end Canonical

/-! ## Reading texts -/

/-- **A text is read back in one way only**, if it is followed by something that
begins with no word. -/
theorem coded_inj {β : Type} {code : σ → List β} (hfr : ∀ a b, code a <+: code b → a = b)
    {text text' : List σ} {rest rest' : List β} (hrs : ∀ a, ¬code a <+: rest)
    (hrs' : ∀ a, ¬code a <+: rest')
    (h : text.flatMap code ++ rest = text'.flatMap code ++ rest') :
    text = text' ∧ rest = rest' := by
  induction text generalizing text' with
  | nil =>
    cases text' with
    | nil => exact ⟨rfl, h⟩
    | cons b =>
      refine absurd ?_ (hrs b)
      rw [flatMap_nil, nil_append, flatMap_cons, append_assoc] at h
      rw [h]
      exact prefix_append _ _
  | cons a text ih =>
    cases text' with
    | nil =>
      refine absurd ?_ (hrs' a)
      rw [flatMap_nil, nil_append, flatMap_cons, append_assoc] at h
      rw [← h]
      exact prefix_append _ _
    | cons b =>
      rw [flatMap_cons, flatMap_cons, append_assoc, append_assoc] at h
      have ha : code a <+: code a ++ (text.flatMap code ++ rest) := prefix_append _ _
      have hb : code b <+: code a ++ (text.flatMap code ++ rest) := by
        rw [h]
        exact prefix_append _ _
      have hab : a = b := by
        rcases prefix_or_prefix_of_prefix ha hb with hab | hba
        · exact hfr a b hab
        · exact (hfr b a hba).symm
      rw [← hab] at h
      obtain ⟨htx, hrs⟩ := ih (append_cancel_left h)
      exact ⟨by rw [hab, htx], hrs⟩

end PrefixCode
