import Mathlib.Tactic

/-!
# Readers that stop

A reader goes through a sequence up to an element it stops with and picks some of
the elements on its way: `through` is how far it gets. It has picked everything
exactly if nothing that matters stands behind that element and it picks
everything that matters (`filter_through_eq_iff`). Of several readers in turn
none makes up for what another has left out (`flatMap_eq_flatMap_iff`).
-/

namespace PartialReads

open List

variable {α β : Type}

def through (p : α → Bool) : List α → List α
  | [] => []
  | a :: as => if p a then [a] else a :: through p as

theorem through_sublist (p : α → Bool) (as : List α) : (through p as).Sublist as := by
  induction as with
  | nil => exact .slnil
  | cons a as ih =>
    unfold through
    split
    · exact (nil_sublist as).cons_cons a
    · exact ih.cons_cons a

variable {p q r : α → Bool} {as bs : List α}

theorem filter_through_sublist (hpc : ∀ a, q a = true → r a = true)
    (as : List α) : ((through p as).filter q).Sublist (as.filter r) :=
  (monotone_filter_right _ hpc).trans ((through_sublist p as).filter r)

/-- A reader has picked everything if it has picked the first element, should
it matter, and everything that matters behind it. -/
theorem filter_cons_eq_iff {a : α} (hpc : q a = true → r a = true)
    : (a :: bs).filter q = (a :: as).filter r ↔
      bs.filter q = as.filter r ∧ (r a = true → q a = true) := by
  cases hr : r a with
  | false =>
    have hq : q a = false := Bool.eq_false_iff.mpr fun hq => by simp [hpc hq] at hr
    simp [hq, hr]
  | true =>
    cases hq : q a with
    | false =>
      have hne : bs.filter q ≠ a :: as.filter r := fun heq => by
        have hmem : a ∈ bs.filter q := heq ▸ mem_cons_self
        simp [hq] at hmem
      simp [hq, hr, hne]
    | true => simp [hq, hr]

/-- **Whether a reader has picked everything.** -/
theorem filter_through_eq_iff (hpc : ∀ a, q a = true → r a = true) (as : List α) :
    (through p as).filter q = as.filter r ↔
      as.Pairwise (fun a b => p a = true → r b = false) ∧ ∀ a ∈ as, r a = true → q a = true := by
  induction as with
  | nil => simp [through]
  | cons a as ih =>
    rw [pairwise_cons, forall_mem_cons]
    unfold through
    by_cases hss : p a = true
    · have hno : [] = as.filter r ↔ ∀ b ∈ as, r b = false := by
        rw [eq_comm, filter_eq_nil_iff]
        simp only [Bool.not_eq_true]
      rw [if_pos hss, filter_cons_eq_iff (hpc a), filter_nil, hno]
      constructor
      · rintro ⟨hbh, ha⟩
        exact ⟨⟨fun b hb _ => hbh b hb, pairwise_of_forall_mem_list fun _ _ b hb _ => hbh b hb⟩, ha,
          fun b hb hr => by simp [hbh b hb] at hr⟩
      · rintro ⟨⟨hbh, -⟩, ha, -⟩
        exact ⟨fun b hb => hbh b hb hss, ha⟩
    · rw [if_neg hss, filter_cons_eq_iff (hpc a), ih]
      constructor
      · rintro ⟨⟨hpr, hall⟩, ha⟩
        exact ⟨⟨fun b _ hp => absurd hp hss, hpr⟩, ha, hall⟩
      · rintro ⟨⟨-, hpr⟩, ha, hall⟩
        exact ⟨⟨hpr, hall⟩, ha⟩

/-- Whatever is looked at of each element, a sublist comes to the same only if
nothing has been left out. -/
theorem map_eq_map_iff {f : α → β} (h : as.Sublist bs) : as.map f = bs.map f ↔ as = bs := by
  refine ⟨fun heq => h.eq_of_length ?_, fun heq => heq ▸ rfl⟩
  rw [← length_map f, heq, length_map]

/-- The same of what is looked at one behind the other, if there is something
of each element. -/
theorem flatMap_eq_iff {f : α → List β} (h : as.Sublist bs)
    (hso : ∀ b ∈ bs, f b ≠ []) : as.flatMap f = bs.flatMap f ↔ as = bs := by
  induction h with
  | slnil => simp
  | @cons as bs b hsub ih =>
    have hb : 0 < (f b).length := length_pos_of_ne_nil (hso b mem_cons_self)
    have hfl := (hsub.flatMap f).length_le
    have hlen := hsub.length_le
    constructor
    · intro heq
      have := congrArg length heq
      rw [flatMap_cons, length_append] at this
      omega
    · intro heq
      have := congrArg length heq
      rw [length_cons] at this
      omega
  | @cons_cons as bs a hsub ih =>
    rw [flatMap_cons, flatMap_cons, append_cancel_left_eq,
      ih fun b hb => hso b (mem_cons_of_mem a hb), cons.injEq, eq_self, true_and]

theorem flatMap_filter {f : α → List β} (as : List α) :
    (as.filter fun a => !(f a).isEmpty).flatMap f = as.flatMap f := by
  induction as with
  | nil => rfl
  | cons a _ ih =>
    cases hf : f a <;> simp [hf, ih]

/-- **Sublists come to the same only where each does.** -/
theorem flatMap_eq_flatMap_iff {f g : α → List β} (h : ∀ a ∈ as, (f a).Sublist (g a)) :
    as.flatMap f = as.flatMap g ↔ ∀ a ∈ as, f a = g a := by
  induction as with
  | nil => simp
  | cons a as ih =>
    obtain ⟨ha, has⟩ := forall_mem_cons.mp h
    rw [flatMap_cons, flatMap_cons, forall_mem_cons, ← ih has]
    constructor
    · intro heq
      have hfi := ha.length_le
      have hrs := (List.Sublist.flatMap_right as has).length_le
      have hlen := congrArg length heq
      rw [length_append, length_append] at hlen
      have hsm : f a = g a := ha.eq_of_length (by omega)
      rw [hsm] at heq
      exact ⟨hsm, append_cancel_left heq⟩
    · rintro ⟨hsm, hot⟩
      rw [hsm, hot]

end PartialReads
