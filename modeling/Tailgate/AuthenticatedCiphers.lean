import Tailgate.BigEndian

/-!
# Authenticated ciphers with a counter

A message is encrypted with a key and its number, and is decrypted with the same
two. With any other key or number it is refused, which is what `Ideal` asks for.

The keys are an arbitrary type: real keys are too many for the tags to tell them
apart. For keys of eight bytes `Tagged.cipher` is ideal.
-/

structure AuthenticatedCipher (Key : Type) where
  encrypt : Key → UInt64 → Bytes → Bytes
  decrypt : Key → UInt64 → Bytes → Option Bytes

namespace AuthenticatedCipher

open BigEndian List

def tagSize : ℕ := 16

/-- **An ideal cipher.** -/
structure Ideal {Key : Type} (C : AuthenticatedCipher Key) : Prop where
  /-- A message is decrypted with its key and its number. -/
  decrypt_encrypt : ∀ key nonce message,
    C.decrypt key nonce (C.encrypt key nonce message) = some message
  /-- It is decrypted with no others. -/
  eq_of_decrypt_encrypt : ∀ key key' nonce nonce' message message',
    C.decrypt key' nonce' (C.encrypt key nonce message) = some message' →
      key' = key ∧ nonce' = nonce
  /-- What is encrypted is longer by the tag. -/
  length_encrypt : ∀ key nonce message,
    (C.encrypt key nonce message).length = message.length + tagSize

namespace Tagged

def tag (key nonce : UInt64) : Bytes :=
  bytes 8 key.toNat ++ bytes 8 nonce.toNat

def cipher : AuthenticatedCipher UInt64 where
  encrypt key nonce message := tag key nonce ++ message
  decrypt key nonce ciphertext :=
    if ciphertext.take tagSize = tag key nonce then some (ciphertext.drop tagSize) else none

theorem length_tag (key nonce : UInt64) : (tag key nonce).length = tagSize := by
  simp [tag, tagSize]

theorem bytes_injective {a b : UInt64} (h : bytes 8 a.toNat = bytes 8 b.toNat) : a = b := by
  have hvl := congrArg value h
  rw [value_bytes (by exact a.toNat_lt), value_bytes (by exact b.toNat_lt)] at hvl
  exact UInt64.toNat_inj.mp hvl

theorem tag_injective {key key' nonce nonce' : UInt64} (h : tag key nonce = tag key' nonce') :
    key = key' ∧ nonce = nonce' := by
  obtain ⟨hkey, hnc⟩ := append_inj h (by simp)
  exact ⟨bytes_injective hkey, bytes_injective hnc⟩

theorem decrypt_encrypt_eq (key key' nonce nonce' : UInt64) (message : Bytes) :
    cipher.decrypt key' nonce' (cipher.encrypt key nonce message)
      = if tag key nonce = tag key' nonce' then some message else none := by
  show (if (tag key nonce ++ message).take tagSize = tag key' nonce'
    then some ((tag key nonce ++ message).drop tagSize) else none) = _
  rw [← length_tag key nonce, take_left, drop_left]

/-- **The cipher is ideal.** -/
theorem ideal_cipher : cipher.Ideal where
  decrypt_encrypt key nonce message := by rw [decrypt_encrypt_eq, if_pos rfl]
  eq_of_decrypt_encrypt key key' nonce nonce' message message' h := by
    rw [decrypt_encrypt_eq] at h
    split at h
    · next htag =>
      obtain ⟨rfl, rfl⟩ := tag_injective htag
      exact ⟨rfl, rfl⟩
    · cases h
  length_encrypt key nonce message := by
    show (tag key nonce ++ message).length = _
    rw [length_append, length_tag, Nat.add_comm]

end Tagged

end AuthenticatedCipher
