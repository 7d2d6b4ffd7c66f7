import Tailgate.BigEndian
import Tailgate.Throwing

/-!
# Base64 texts

Bytes are written three at a time as four letters, and the last group is padded.
A `=` is read as padding in the last two places of any group, and the bits of a
letter that no byte has are dropped (`decode_dropped_bits`). The texts that are
written are those with padding at the end and zeros in those bits (`Canonical`).
-/

namespace Tailgate

namespace Base64

open List Option Throwing

inductive Error
  | invalidCharacter
  | invalidLength
  deriving DecidableEq

def alphabet : Bytes :=
  "ABCDEFGHIJKLMNOPQRSTUVWXYZabcdefghijklmnopqrstuvwxyz0123456789+/".toList.map fun ch =>
    .ofNat ch.toNat

def letter (n : ℕ) : UInt8 := alphabet.getD n 0

/-- The `=` in the place of a letter. -/
def pad : UInt8 := 0x3d

def decodeChar (ch : UInt8) : Except Error ℕ :=
  if 65 ≤ ch ∧ ch ≤ 90 then .ok (ch.toNat - 65)
  else if 97 ≤ ch ∧ ch ≤ 122 then .ok (26 + ch.toNat - 97)
  else if 48 ≤ ch ∧ ch ≤ 57 then .ok (52 + ch.toNat - 48)
  else if ch = 43 then .ok 62
  else if ch = 47 then .ok 63
  else .error .invalidCharacter

/-- A byte of a group; one that is missing counts as 0. -/
def octet : Option UInt8 → ℕ
  | none => 0
  | some byte => byte.toNat

def encodeGroup (first : UInt8) (second third : Option UInt8) : Bytes :=
  let value := first.toNat * 2 ^ 16 + octet second * 2 ^ 8 + octet third
  [letter (value / 2 ^ 18 % 64), letter (value / 2 ^ 12 % 64),
    if second.isSome then letter (value / 2 ^ 6 % 64) else pad,
    if third.isSome then letter (value % 64) else pad]

def encode : Bytes → Bytes
  | [] => []
  | [first] => encodeGroup first none none
  | [first, second] => encodeGroup first second none
  | first :: second :: third :: rest => encodeGroup first second third ++ encode rest

/-- One of the last two places of a group, which may be padding. -/
def decodePlace (ch : UInt8) : Except Error ℕ := if ch ≠ pad then decodeChar ch else .ok 0

def decodeGroup (a b c d : UInt8) : Except Error Bytes := do
  let value := (← decodeChar a) * 2 ^ 18 + (← decodeChar b) * 2 ^ 12 + (← decodePlace c) * 2 ^ 6 +
    (← decodePlace d)
  return .ofNat (value / 2 ^ 16) :: ((if c ≠ pad then [.ofNat (value / 2 ^ 8)] else []) ++
    if d ≠ pad then [.ofNat value] else [])

def decodeGroups : Bytes → Except Error Bytes
  | a :: b :: c :: d :: rest => return (← decodeGroup a b c d) ++ (← decodeGroups rest)
  | _ => return []

def decode (text : Bytes) : Except Error Bytes :=
  if text.length % 4 ≠ 0 then .error .invalidLength else decodeGroups text

/-- **A text as it is written**: there is padding only at the end, and the bits of
the letter before it that no byte has are zero. -/
def Canonical : Bytes → Prop
  | _ :: b :: c :: d :: rest =>
    (c = pad → d = pad ∧ ∀ n, decodeChar b = .ok n → n % 16 = 0) ∧
    (d = pad → rest = [] ∧ (c ≠ pad → ∀ n, decodeChar c = .ok n → n % 4 = 0)) ∧ Canonical rest
  | _ => True

section Letters

variable {ch : UInt8} {n m : ℕ}

theorem decodeChar_letter : ∀ n < 64, decodeChar (letter n) = .ok n ∧ letter n ≠ pad := by
  decide +kernel

theorem letter_of_decodeChar (h : decodeChar ch = .ok n) : n < 64 ∧ letter n = ch := by
  have hall : ∀ k < 256, (decodeChar (.ofNat k)).toOption.all fun n =>
      n < 64 ∧ letter n = .ofNat k := by
    decide +kernel
  simpa [h, Except.toOption] using hall ch.toNat ch.toNat_lt

theorem letter_eq (h : decodeChar ch = .ok n) (hm : m = n) : letter m = ch :=
  hm ▸ (letter_of_decodeChar h).2

theorem ofNat_eq (h : n % 256 = ch.toNat) : UInt8.ofNat n = ch :=
  UInt8.toNat_inj.mp (UInt8.toNat_ofNat'.trans h)

theorem decodePlace_letter (h : n < 64) : decodePlace (letter n) = .ok n :=
  (if_pos (decodeChar_letter n h).2).trans (decodeChar_letter n h).1

theorem lt_of_decodePlace (h : decodePlace ch = .ok n) : n < 64 := by
  unfold decodePlace at h
  split at h
  · exact (letter_of_decodeChar h).1
  · cases h
    decide

end Letters

section Groups

variable {a b c d : UInt8} {i j k l : ℕ}

theorem encodeGroup_eq (first : UInt8) (second third : Option UInt8) :
    encodeGroup first second third =
      [letter (first.toNat / 4), letter (first.toNat % 4 * 16 + octet second / 16),
        if second.isSome then letter (octet second % 16 * 4 + octet third / 64) else pad,
        if third.isSome then letter (octet third % 64) else pad] := by
  have hlt (o : Option UInt8) : octet o < 256 := by
    cases o with
    | none => decide
    | some byte => exact byte.toNat_lt
  have hx := first.toNat_lt
  have hy := hlt second
  have hz := hlt third
  unfold encodeGroup
  generalize first.toNat = x, octet second = y, octet third = z at *
  have h18 : (x * 2 ^ 16 + y * 2 ^ 8 + z) / 2 ^ 18 % 64 = x / 4 := by omega
  have h12 : (x * 2 ^ 16 + y * 2 ^ 8 + z) / 2 ^ 12 % 64 = x % 4 * 16 + y / 16 := by omega
  have h6 : (x * 2 ^ 16 + y * 2 ^ 8 + z) / 2 ^ 6 % 64 = y % 16 * 4 + z / 64 := by omega
  have h0 : (x * 2 ^ 16 + y * 2 ^ 8 + z) % 64 = z % 64 := by omega
  simp only [h18, h12, h6, h0]

theorem decodeGroup_ok (ha : decodeChar a = .ok i) (hb : decodeChar b = .ok j)
    (hc : decodePlace c = .ok k) (hd : decodePlace d = .ok l) :
    decodeGroup a b c d = .ok (.ofNat (i * 4 + j / 16) ::
      ((if c ≠ pad then [.ofNat (j % 16 * 16 + k / 4)] else []) ++
        if d ≠ pad then [.ofNat (k % 4 * 64 + l)] else [])) := by
  have hi := (letter_of_decodeChar ha).1
  have hj := (letter_of_decodeChar hb).1
  have hk := lt_of_decodePlace hc
  have hl := lt_of_decodePlace hd
  have hof {m n : ℕ} (h : m % 256 = n % 256) : UInt8.ofNat m = .ofNat n :=
    ofNat_eq (h.trans UInt8.toNat_ofNat'.symm)
  have h16 : UInt8.ofNat ((i * 2 ^ 18 + j * 2 ^ 12 + k * 2 ^ 6 + l) / 2 ^ 16)
      = .ofNat (i * 4 + j / 16) := hof (by omega)
  have h8 : UInt8.ofNat ((i * 2 ^ 18 + j * 2 ^ 12 + k * 2 ^ 6 + l) / 2 ^ 8)
      = .ofNat (j % 16 * 16 + k / 4) := hof (by omega)
  have h0 : UInt8.ofNat (i * 2 ^ 18 + j * 2 ^ 12 + k * 2 ^ 6 + l) = .ofNat (k % 4 * 64 + l) :=
    hof (by omega)
  simp only [decodeGroup, ha, hb, hc, hd, bind, Except.bind, pure, Except.pure, h16, h8, h0]

end Groups

theorem decodeGroups_encode (data : Bytes) : decodeGroups (encode data) = .ok data := by
  have hl {n : ℕ} (h : n < 64) : decodeChar (letter n) = .ok n := (decodeChar_letter n h).1
  have hn {n : ℕ} (h : n < 64) : letter n ≠ pad := (decodeChar_letter n h).2
  have hpad : decodePlace pad = .ok 0 := rfl
  fun_induction encode data with
  | case1 => rfl
  | case2 first =>
    have := first.toNat_lt
    rw [encodeGroup_eq, octet]
    change (decodeGroup _ _ pad pad).bind _ = _
    rw [decodeGroup_ok (hl ?_) (hl ?_) hpad hpad]
    · exact congrArg (fun b => Except.ok [b]) (ofNat_eq (by omega))
    all_goals omega
  | case3 first second =>
    have := first.toNat_lt
    have := second.toNat_lt
    rw [encodeGroup_eq, octet, octet]
    change (decodeGroup _ _ (letter _) pad).bind _ = _
    rw [decodeGroup_ok (hl ?_) (hl ?_) (decodePlace_letter ?_) hpad, if_pos (hn ?_)]
    · exact congrArg₂ (fun b c => Except.ok [b, c]) (ofNat_eq (by omega)) (ofNat_eq (by omega))
    all_goals omega
  | case4 first second third rest ih =>
    have := first.toNat_lt
    have := second.toNat_lt
    have := third.toNat_lt
    rw [encodeGroup_eq, octet, octet]
    change (decodeGroup _ _ (letter _) (letter _)).bind
      (fun _ => (decodeGroups (encode rest)).bind _) = _
    rw [decodeGroup_ok (hl ?_) (hl ?_) (decodePlace_letter ?_) (decodePlace_letter ?_),
      if_pos (hn ?_), if_pos (hn ?_), ih]
    · exact congrArg₂ (fun b l => Except.ok (b :: l)) (ofNat_eq (by omega))
        (congrArg₂ (fun b c => b :: c :: rest) (ofNat_eq (by omega)) (ofNat_eq (by omega)))
    all_goals omega

theorem encode_of_decodeGroups {text data : Bytes} (hlen : text.length % 4 = 0)
    (hcn : Canonical text) (h : decodeGroups text = .ok data) : encode data = text := by
  fun_induction decodeGroups text generalizing data with
  | case1 _ _ c d _ ih =>
    obtain ⟨hc, hd, hcn⟩ := hcn
    obtain ⟨_, hgr, h⟩ := of_bind_ok h
    obtain ⟨_, hmr, h⟩ := of_bind_ok h
    cases h
    obtain ⟨_, hi, h⟩ := of_bind_ok hgr
    obtain ⟨j, hj, h⟩ := of_bind_ok h
    obtain ⟨k, hk, h⟩ := of_bind_ok h
    obtain ⟨_, hl, -⟩ := of_bind_ok h
    rw [decodeGroup_ok hi hj hk hl] at hgr
    cases hgr
    have hi64 := (letter_of_decodeChar hi).1
    have hj64 := (letter_of_decodeChar hj).1
    unfold decodePlace at hk hl
    by_cases hdp : d = pad
    · obtain ⟨rfl, hkz⟩ := hd hdp
      cases hmr
      rw [if_neg (not_not.mpr hdp)] at hl ⊢
      cases hl
      by_cases hcp : c = pad
      · have hjz := (hc hcp).2 j hj
        rw [if_neg (not_not.mpr hcp)] at hk ⊢
        cases hk
        simp only [append_nil, encode, encodeGroup_eq, octet, UInt8.toNat_ofNat']
        rw [letter_eq hi, letter_eq hj, hcp, hdp]
        · rfl
        all_goals omega
      · rw [if_pos hcp] at hk ⊢
        have hkz := hkz hcp k hk
        have hk64 := (letter_of_decodeChar hk).1
        simp only [append_nil, encode, encodeGroup_eq, octet, UInt8.toNat_ofNat',
          isSome_some, if_true]
        rw [letter_eq hi, letter_eq hj, letter_eq hk, hdp]
        · rfl
        all_goals omega
    · have hcp : c ≠ pad := fun hcp => hdp (hc hcp).1
      rw [if_pos hcp] at hk ⊢
      rw [if_pos hdp] at hl ⊢
      have hk64 := (letter_of_decodeChar hk).1
      have hl64 := (letter_of_decodeChar hl).1
      have hrs := ih (by simp at hlen; omega) hcn hmr
      simp only [encode, encodeGroup_eq, octet, UInt8.toNat_ofNat', cons_append, nil_append,
        isSome_some, if_true, hrs]
      rw [letter_eq hi, letter_eq hj, letter_eq hk, letter_eq hl]
      all_goals omega
  | case2 text hno =>
    cases h
    match text with
    | [] => rfl
    | [_] | [_, _] | [_, _, _] => simp at hlen
    | a :: b :: c :: d :: rest => exact (hno a b c d rest rfl).elim

theorem length_encode (data : Bytes) : (encode data).length % 4 = 0 := by
  have hgr (a : UInt8) (b c : Option UInt8) : (encodeGroup a b c).length = 4 := rfl
  fun_induction encode data with
  | case1 => rfl
  | case2 _ | case3 _ _ => rw [hgr]
  | case4 _ _ _ _ ih => rw [length_append, hgr, Nat.add_mod_left, ih]

theorem canonical_encode (data : Bytes) : Canonical (encode data) := by
  have hl {n m : ℕ} (h : n < 64) (hm : decodeChar (letter n) = .ok m) : n = m :=
    Except.ok.inj ((decodeChar_letter n h).1.symm.trans hm)
  have hn {n : ℕ} (h : n < 64) : letter n ≠ pad := (decodeChar_letter n h).2
  fun_induction encode data with
  | case1 => trivial
  | case2 first =>
    rw [encodeGroup_eq]
    refine ⟨fun _ => ⟨rfl, fun n hb => ?_⟩, fun _ => ⟨rfl, (absurd rfl ·)⟩, trivial⟩
    have := hl (by rw [octet]; omega) hb
    rw [octet] at this
    omega
  | case3 first second =>
    have := second.toNat_lt
    rw [encodeGroup_eq]
    refine ⟨fun hc => absurd hc (hn ?_), fun _ => ⟨rfl, fun _ n hc => ?_⟩, trivial⟩
    · simp only [octet]
      omega
    · have := hl (by simp only [octet]; omega) hc
      simp only [octet] at this
      omega
  | case4 first second third rest ih =>
    have := second.toNat_lt
    have := third.toNat_lt
    rw [encodeGroup_eq]
    refine ⟨fun hc => absurd hc (hn ?_), fun hd => absurd hd (hn ?_), ih⟩
    all_goals
      simp only [octet]
      omega

/-- **Reading is the inverse of writing**, and writing that of reading exactly if the text
that is read is canonical. -/
theorem decode_inverse (data text : Bytes) : decode (encode data) = .ok data ∧
    ∀ read, decode text = .ok read → (encode read = text ↔ Canonical text) := by
  constructor
  · rw [decode, if_neg (not_not.mpr (length_encode data))]
    exact decodeGroups_encode data
  · intro read h
    refine ⟨fun hrd => hrd ▸ canonical_encode read, fun hcn => ?_⟩
    unfold decode at h
    by_cases hlen : text.length % 4 ≠ 0
    · rw [if_pos hlen] at h
      cases h
    · rw [if_neg hlen] at h
      exact encode_of_decodeGroups (not_not.mp hlen) hcn h

/-- **Bits that no byte has** are dropped: `AB==` is read as `AA==` is. -/
theorem decode_dropped_bits :
    decode [65, 66, pad, pad] = .ok [0] ∧ encode [0] ≠ [65, 66, pad, pad] := by
  decide +kernel

end Base64

end Tailgate
