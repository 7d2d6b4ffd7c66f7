import Tailgate.Procedures

/-!
# Decoding a stream that arrives in pieces

A byte stream carries items back to back, cut anywhere. A reader takes an item
off the front as soon as all of it is there, and waits otherwise.

What has been decoded when `n` symbols are in is a matter of the items and of
`n` alone (`whole`), and so is how much of the next item is there (`begun`).
`Decodes` is what is asked of one call of the reader, and `Decodes.collect` what
calling it until it has nothing to return achieves.
-/

namespace StreamDecoding

open List

variable {α β ε σ : Type}

section Whole

variable (encode : α → List β)

def whole : List α → ℕ → List α
  | [], _ => []
  | a :: as, n =>
    if (encode a).length ≤ n then a :: whole as (n - (encode a).length) else []

/-- How many of the first `n` symbols belong to the item that is only begun. -/
def begun (as : List α) (n : ℕ) : ℕ :=
  n - ((whole encode as n).flatMap encode).length

variable {encode}

theorem whole_append (done rest : List α) (n : ℕ) :
    whole encode (done ++ rest) ((done.flatMap encode).length + n)
      = done ++ whole encode rest n := by
  induction done with
  | nil => simp
  | cons a done ih =>
    rw [cons_append, whole, flatMap_cons, length_append, if_pos (by omega),
      show (encode a).length + (done.flatMap encode).length + n - (encode a).length
        = (done.flatMap encode).length + n by omega, ih, cons_append]

variable {as : List α} {n : ℕ}

theorem whole_eq_nil (h : ∀ a ∈ as.head?, n < (encode a).length) : whole encode as n = [] := by
  cases as with
  | nil => rfl
  | cons a =>
    have hlt := h a rfl
    rw [whole, if_neg (by omega)]

theorem begun_append (done rest : List α) (n : ℕ) :
    begun encode (done ++ rest) ((done.flatMap encode).length + n) = begun encode rest n := by
  unfold begun
  rw [whole_append, flatMap_append, length_append]
  omega

theorem begun_eq (h : ∀ a ∈ as.head?, n < (encode a).length) : begun encode as n = n := by
  unfold begun
  rw [whole_eq_nil h]
  simp

theorem whole_self (as : List α) : whole encode as (as.flatMap encode).length = as := by
  have h : whole encode (as ++ []) ((as.flatMap encode).length + 0) = as ++ whole encode [] 0 :=
    whole_append as [] 0
  simpa [whole] using h

end Whole

/-! ## Reads of one size -/

def reads (k n : ℕ) (symbols : List β) : List (List β) :=
  (range n).map fun i => (symbols.drop (k * i)).take k

theorem reads_succ (k n : ℕ) (symbols : List β) :
    reads k (n + 1) symbols = reads k n symbols ++ [(symbols.drop (k * n)).take k] := by
  unfold reads
  rw [range_succ, map_append, map_singleton]

theorem flatten_reads (k n : ℕ) (symbols : List β) :
    (reads k n symbols).flatten = symbols.take (k * n) := by
  induction n with
  | zero => rfl
  | succ _ ih =>
    rw [reads_succ, flatten_append, flatten_singleton, ih, Nat.mul_succ, take_add]

theorem length_of_mem_reads {k n : ℕ} {symbols : List β} (hk : 0 < k)
    (hn : ∀ i < n, k * i < symbols.length) {read : List β} (h : read ∈ reads k n symbols) :
    read ≠ [] ∧ read.length ≤ k := by
  obtain ⟨i, hi, rfl⟩ := mem_map.mp h
  have hlt := hn i (mem_range.mp hi)
  refine ⟨length_pos_iff.mp ?_, ?_⟩
  · rw [length_take, length_drop]
    omega
  · rw [length_take]
    omega

/-! ## Readers -/

variable (encode : α → List β) (Valid : α → Prop)

def Unfinished (b : List β) : Prop :=
  b = [] ∨ ∃ a, Valid a ∧ b <+: encode a ∧ b.length < (encode a).length

/-- **What is asked of one call of a reader.** With a whole item at the front
it returns the item and the symbols behind it are left; with less than one it
returns nothing and everything is left. `I` is the reader's own invariant and
`D` holds whenever it has returned nothing. -/
structure Decodes (I D : σ → Prop) (pending : σ → List β) (x : EStateM ε σ (Option α)) :
    Prop where
  /-- A whole item at the front is returned. -/
  complete : ∀ {s : σ} {a : α} {rest : List β}, I s → Valid a → pending s = encode a ++ rest →
    ∃ s', x s = .ok (some a) s' ∧ I s' ∧ pending s' = rest
  unfinished : ∀ {s : σ}, I s → Unfinished encode Valid (pending s) →
    ∃ s', x s = .ok none s' ∧ I s' ∧ D s' ∧ pending s' = pending s

/-- **A reader that has caught up**: `rest` are the items it has not returned,
of which the symbols `pending` are in and `future` are not, and `pending`
does not reach the end of the first of them. -/
structure CaughtUp (rest : List α) (pending future : List β) : Prop where
  /-- The symbols of the items that are left. -/
  split : pending ++ future = rest.flatMap encode
  /-- The next item is not all there. -/
  short : ∀ a ∈ rest.head?, pending.length < (encode a).length

variable {encode Valid} {rest : List α} {future pending : List β}

theorem CaughtUp.begun_eq (h : CaughtUp encode rest pending future) :
    begun encode rest pending.length = pending.length :=
  StreamDecoding.begun_eq h.short

/-- Once every symbol is in, a reader that has caught up has returned every
item. -/
theorem CaughtUp.eq_nil (h : CaughtUp encode rest pending []) : rest = [] := by
  cases rest with
  | nil => rfl
  | cons a =>
    have hlt := h.short a rfl
    have hsp := congrArg length h.split
    rw [append_nil, flatMap_cons, length_append] at hsp
    omega

variable {b : List β} {as : List α}

/-- Of a word and more, cut somewhere, the front has either all of the word or
less than it. -/
theorem append_cases {c word rest : List β} (h : b ++ c = word ++ rest) :
    (∃ q, b = word ++ q ∧ q ++ c = rest) ∨ b <+: word ∧ b.length < word.length := by
  by_cases hle : word.length ≤ b.length
  · left
    obtain ⟨q, rfl⟩ : word <+: b := prefix_of_prefix_length_le ⟨_, h.symm⟩ ⟨_, rfl⟩ hle
    refine ⟨q, rfl, ?_⟩
    rw [append_assoc] at h
    exact append_cancel_left h
  · right
    exact ⟨prefix_of_prefix_length_le ⟨_, h⟩ ⟨_, rfl⟩ (by omega), by omega⟩

theorem CaughtUp.unfinished (h : CaughtUp encode rest pending future) (hvd : ∀ a ∈ rest, Valid a) :
    Unfinished encode Valid pending := by
  have hsp := h.split
  cases rest with
  | nil => exact .inl (append_eq_nil_iff.mp hsp).1
  | cons a =>
    have hlt := h.short a rfl
    rcases append_cases hsp with ⟨_, rfl, -⟩ | hft
    · rw [length_append] at hlt
      omega
    · exact .inr ⟨a, hvd a mem_cons_self, hft⟩

/-- **The front of what is encoded** is either an item and more, or less than
one. -/
theorem front_cases (h : b ++ future = as.flatMap encode) :
    (∃ a as' rest, as = a :: as' ∧ b = encode a ++ rest ∧ rest ++ future = as'.flatMap encode)
      ∨ CaughtUp encode as b future := by
  cases as with
  | nil => exact .inr ⟨h, fun a ha => nomatch ha⟩
  | cons a as =>
    have hcn := h
    rcases append_cases hcn with ⟨rest, hft, hrs⟩ | ⟨-, hlt⟩
    · exact .inl ⟨a, as, rest, rfl, hft, hrs⟩
    · refine .inr ⟨h, fun a' ha' => ?_⟩
      cases ha'
      exact hlt

/-- **Calling a reader until it returns nothing** returns the items that are
all there, in order, and leaves the reader caught up. -/
theorem Decodes.collect {I D : σ → Prop} {pending : σ → List β} {x : EStateM ε σ (Option α)}
    (h : Decodes encode Valid I D pending x) (hpos : ∀ a, Valid a → encode a ≠ [])
    {s : σ} {turns : ℕ} (hs : I s)
    (hvd : ∀ a ∈ as, Valid a) (hsp : pending s ++ future = as.flatMap encode)
    (htu : (pending s).length < turns) :
    ∃ done rest s', as = done ++ rest ∧ Procedure.collect x turns s = .ok done s'
      ∧ I s' ∧ D s' ∧ pending s = done.flatMap encode ++ pending s'
      ∧ CaughtUp encode rest (pending s') future := by
  induction turns generalizing s as with
  | zero => omega
  | succ turns ih =>
    rcases front_cases hsp with ⟨a, as, _, rfl, hft, hrs⟩ | hca
    · have ha := hvd a mem_cons_self
      obtain ⟨s', hx, hI, hke⟩ := h.complete hs ha hft
      have hlen : (pending s').length < turns := by
        have hne := length_pos_iff.mpr (hpos a ha)
        rw [hke]
        rw [hft, length_append] at htu
        omega
      obtain ⟨done, left, s'', has, hcl, hI', hD', hpd, hca⟩ :=
        ih hI (fun b hb => hvd b (mem_cons_of_mem _ hb)) (by rw [hke, hrs]) hlen
      refine ⟨a :: done, left, s'', by rw [has, cons_append],
        Procedure.collect_some hx hcl, hI', hD', ?_, hca⟩
      rw [hft, ← hke, hpd, flatMap_cons, append_assoc]
    · obtain ⟨s', hx, hI, hD, hke⟩ := h.unfinished hs (hca.unfinished hvd)
      refine ⟨[], as, s', rfl, Procedure.collect_none hx, hI, hD, ?_, ?_⟩
      · simp [hke]
      · rw [hke]
        exact hca

end StreamDecoding
