import Tailgate.BigEndian

/-!
# Sealed boxes

Two parties agree on a secret, each with its own private key and the other's
public key, and seal messages with it; with some public keys none can be agreed
on. `SealedBoxes` is what a library of that kind computes, and `Ideal` what it
is for. `Computes known` are the secrets that someone who knows some private
keys can compute, and who has made a box is `MadeBy`.

The secrets are an arbitrary type: as bits they would be too many for boxes of a
given size to tell apart.
-/

/-- What a library for sealed boxes computes. Keys, nonces, messages and boxes
are strings of bytes. -/
structure SealedBoxes (Secret : Type) where
  publicKey : Bytes → Bytes
  /-- The secret of a private key and another's public key, if there is one. -/
  agree : Bytes → Bytes → Option Secret
  zero : Secret
  sealBox : Secret → Bytes → Bytes → Bytes
  openBox : Secret → Bytes → Bytes → Option Bytes

namespace SealedBoxes

open List

variable {Secret : Type}

def Knows (B : SealedBoxes Secret) (known : Set Bytes) (key : Bytes) : Prop :=
  ∃ privateKey ∈ known, B.publicKey privateKey = key

/-- **An ideal library**: public keys of low order are those with which no
secret is agreed on, and `Computes known` are the secrets that can be computed
with the private keys `known`. -/
structure Ideal (B : SealedBoxes Secret) (lowOrder : Bytes → Prop)
    (Computes : Set Bytes → Secret → Prop) : Prop where
  /-- With a public key of low order there is no secret, and with every other
  there is one. -/
  agree_eq_none : ∀ privateKey key, key.length = 32 → (B.agree privateKey key = none ↔ lowOrder key)
  /-- Everyone can compute a secret that does not depend on anything. -/
  computes_zero : ∀ known, Computes known B.zero
  /-- A secret that was agreed on takes one of the two private keys. -/
  of_computes : ∀ known privateKey key secret, B.agree privateKey key = some secret →
    Computes known secret → B.Knows known (B.publicKey privateKey) ∨ B.Knows known key
  openBox_sealBox : ∀ secret nonce message,
    B.openBox secret nonce (B.sealBox secret nonce message) = some message
  eq_of_openBox_sealBox : ∀ secret secret' nonce message message',
    B.openBox secret' nonce (B.sealBox secret nonce message) = some message' → secret' = secret
  /-- A box is sixteen bytes longer than the message. -/
  length_sealBox : ∀ secret nonce message,
    (B.sealBox secret nonce message).length = message.length + 16

def MadeBy (B : SealedBoxes Secret) (Computes : Set Bytes → Secret → Prop)
    (known : Set Bytes) (nonce box : Bytes) : Prop :=
  ∀ secret message, B.openBox secret nonce box = some message → Computes known secret

section

variable {B : SealedBoxes Secret} {lowOrder : Bytes → Prop}
  {Computes : Set Bytes → Secret → Prop} {known : Set Bytes} {secret : Secret}

theorem Ideal.madeBy_sealBox (h : B.Ideal lowOrder Computes)
    (hcm : Computes known secret) (nonce message : Bytes) :
    B.MadeBy Computes known nonce (B.sealBox secret nonce message) := by
  intro secret' message' hop
  rw [h.eq_of_openBox_sealBox secret secret' nonce message message' hop]
  exact hcm

/-- **Who made a box that opens with an agreed secret knows one of the two
private keys.** -/
theorem Ideal.knows_of_openBox (h : B.Ideal lowOrder Computes)
    {privateKey key nonce box message : Bytes}
    (hmd : B.MadeBy Computes known nonce box) (hag : B.agree privateKey key = some secret)
    (hop : B.openBox secret nonce box = some message) :
    B.Knows known (B.publicKey privateKey) ∨ B.Knows known key :=
  h.of_computes known privateKey key secret hag (hmd secret message hop)

end

/-! ## A small library

There is an ideal library. A public key is the first byte of the private one,
followed by ones, and every other key is of low order; a secret is the two
first bytes, and a box names it in its first bytes. -/

namespace Small

def rest : Bytes := replicate 31 1

def tag : Option (UInt8 × UInt8) → Bytes
  | none => replicate 16 0
  | some (u, v) => 1 :: u :: v :: replicate 13 0

def inOrder (u v : UInt8) : UInt8 × UInt8 := if u ≤ v then (u, v) else (v, u)

def boxes : SealedBoxes (Option (UInt8 × UInt8)) where
  publicKey privateKey := privateKey.headD 0 :: rest
  agree privateKey key :=
    if key.tail = rest then
      some (some (inOrder (privateKey.headD 0) (key.headD 0)))
    else
      none
  zero := none
  sealBox secret _ message := tag secret ++ message
  openBox secret _ box := if box.take 16 = tag secret then some (box.drop 16) else none

def LowOrder (key : Bytes) : Prop := key.tail ≠ rest

def Computes (known : Set Bytes) : Option (UInt8 × UInt8) → Prop
  | none => True
  | some secret => ∃ privateKey ∈ known,
    privateKey.headD 0 = secret.1 ∨ privateKey.headD 0 = secret.2

theorem length_tag (secret : Option (UInt8 × UInt8)) : (tag secret).length = 16 := by
  cases secret <;> simp [tag]

theorem tag_injective : Function.Injective tag := by
  intro secret secret' h
  match secret, secret' with
  | none, none => rfl
  | none, some (u, v) => simp [tag, replicate] at h
  | some (u, v), none => simp [tag, replicate] at h
  | some (u, v), some (u', v') =>
    obtain ⟨rfl, rfl⟩ : u = u' ∧ v = v' := by simpa [tag] using h
    rfl

/-- **The small library is ideal.** -/
theorem ideal : boxes.Ideal LowOrder Computes where
  agree_eq_none privateKey key _ := by
    simp [boxes, LowOrder]
  computes_zero _ := trivial
  of_computes known privateKey key secret hag hcm := by
    simp only [boxes, Option.ite_none_right_eq_some, Option.some.injEq] at hag
    obtain ⟨hrs, rfl⟩ := hag
    obtain ⟨other, hkn, hot⟩ := hcm
    have hkey : key.headD 0 :: rest = key := by
      rw [← hrs]
      cases key with
      | nil => simp [rest, replicate] at hrs
      | cons => rfl
    have hfi : other.headD 0 = privateKey.headD 0 ∨ other.headD 0 = key.headD 0 := by
      unfold inOrder at hot
      split at hot
      · exact hot
      · exact hot.symm
    refine hfi.imp (fun h => ⟨other, hkn, ?_⟩) fun h => ⟨other, hkn, ?_⟩
    · show other.headD 0 :: rest = privateKey.headD 0 :: rest
      rw [h]
    · show other.headD 0 :: rest = key
      rw [h, hkey]
  openBox_sealBox secret nonce message := by
    simp [boxes, ← length_tag secret]
  eq_of_openBox_sealBox secret secret' nonce message message' hop := by
    simp only [boxes, Option.ite_none_right_eq_some] at hop
    rw [← length_tag secret, take_left] at hop
    exact tag_injective hop.1.symm
  length_sealBox secret nonce message := by
    simp [boxes, length_tag, Nat.add_comm]

end Small

end SealedBoxes
