import Mathlib.Tactic

/-!
# Exact codes

An encoder that refuses some values and a decoder that refuses some texts fit
together *exactly* when the encoder refuses what is not valid and nothing else,
what is encoded is decoded to what it was, and what is decoded is encoded to what
it was. Valid values and accepted texts then correspond one to one.
-/

namespace ExactCode

variable {α β ε : Type} {encode : α → Except ε β} {decode : β → Option α} {Valid : α → Prop}

/-- **An encoder and a decoder fit together exactly.** -/
structure Exact (encode : α → Except ε β) (decode : β → Option α) (Valid : α → Prop) : Prop where
  throws_iff : ∀ a, (∃ e, encode a = .error e) ↔ ¬Valid a
  decode_encode : ∀ a b, encode a = .ok b → decode b = some a
  encode_decode : ∀ b a, decode b = some a → encode a = .ok b
  one_to_one : ∀ a, Valid a ↔ ∃! b, decode b = some a

theorem Exact.of_iff (write : α → β) (hed : ∀ a, Valid a → encode a = .ok (write a))
    (hth : ∀ a, ¬Valid a → ∃ e, encode a = .error e)
    (hdc : ∀ a b, decode b = some a ↔ Valid a ∧ b = write a) : Exact encode decode Valid where
  throws_iff a := by
    refine ⟨fun ⟨e, he⟩ hvd => ?_, hth a⟩
    rw [hed a hvd] at he
    cases he
  decode_encode a b h := by
    by_cases hvd : Valid a
    · rw [hed a hvd] at h
      exact (hdc a b).mpr ⟨hvd, (Except.ok.inj h).symm⟩
    · obtain ⟨_, he⟩ := hth a hvd
      rw [he] at h
      cases h
  encode_decode b a h := by
    obtain ⟨hvd, rfl⟩ := (hdc a b).mp h
    exact hed a hvd
  one_to_one a := by
    refine ⟨fun hvd => ⟨write a, (hdc a _).mpr ⟨hvd, rfl⟩, fun b h => ?_⟩, ?_⟩
    · exact ((hdc a b).mp h).2
    · rintro ⟨b, h, -⟩
      exact ((hdc a b).mp h).1

end ExactCode
