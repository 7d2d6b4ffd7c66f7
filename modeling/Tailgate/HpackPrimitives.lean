import Tailgate.HpackDecoding

/-!
# Numbers and strings of header blocks, both ways

A number is read at an offset of the block, into 32 bits. An access behind the end of the
block and a sum that does not fit are faults here, and neither occurs
(`readHpackIntegerAt_eq`). A string in the prefix code is decoded just when it is what is
written for the result, filled up with ones (`decodeHpackString_iff`).
-/

namespace Tailgate

open Hpack PrefixCode List

/-! ## Numbers -/

inductive HpackReadFault
  | outOfRange
  | overflow

def byteAt (data : Bytes) (offset : ℕ) : Except HpackReadFault ℕ :=
  match data[offset]? with
  | none => .error .outOfRange
  | some byte => .ok byte.toNat

/-- The loop over the bytes that continue a number, for as many turns as there are bytes. -/
def continuationAt (data : Bytes) : ℕ → ℕ → ℕ → ℕ → Except HpackReadFault (Option (ℕ × ℕ))
  | 0, _, _, _ => .ok none
  | turns + 1, offset, value, shift =>
    if offset < data.length then
      match byteAt data offset with
      | .error fault => .error fault
      | .ok byte =>
        let remainder := byte &&& 0x7f
        if shift ≥ 32 ∨ remainder > (2 ^ 32 - 1 - value) >>> shift then
          .ok none
        else if value + remainder <<< shift ≥ 2 ^ 32 then
          .error .overflow
        else if byte &&& 0x80 = 0 then
          .ok (some (value + remainder <<< shift, offset + 1))
        else
          continuationAt data turns (offset + 1) (value + remainder <<< shift) (shift + 7)
    else
      .ok none

/-- **Read a number** at an offset, and the offset behind it. -/
def readHpackIntegerAt (data : Bytes) (offset prefixMask : ℕ) :
    Except HpackReadFault (Option (ℕ × ℕ)) :=
  if offset ≥ data.length then
    .ok none
  else
    match byteAt data offset with
    | .error fault => .error fault
    | .ok byte =>
      let value := byte &&& prefixMask
      if value < prefixMask then .ok (some (value, offset + 1))
      else continuationAt data data.length (offset + 1) value 0

/-- The bytes that continue a number, as few as possible. -/
def encodeContinuation (n : ℕ) : Bytes :=
  if n < 128 then [.ofNat n] else .ofNat (n % 128 + 128) :: encodeContinuation (n / 128)

/-- **The shortest form of a number** behind other bits of its first byte. -/
def encodeInteger (flags width n : ℕ) : Bytes :=
  if n < 2 ^ width - 1 then [.ofNat (flags + n)]
  else .ofNat (flags + (2 ^ width - 1)) :: encodeContinuation (n - (2 ^ width - 1))

section Numbers

variable {data rest : Bytes} {offset value shift : ℕ}

/-- The offset behind what is read, for a number that is followed by the bytes `rest`. -/
def located (data : Bytes) : Option (ℕ × Bytes) → Option (ℕ × ℕ) :=
  .map fun found => (found.1, data.length - found.2.length)

theorem byteAt_of_drop {byte : UInt8} (h : data.drop offset = byte :: rest) :
    byteAt data offset = .ok byte.toNat ∧ data.drop (offset + 1) = rest
      ∧ data.length - rest.length = offset + 1 := by
  have hlen := congrArg length h
  rw [length_drop, length_cons] at hlen
  have hby : data[offset]? = some byte := by
    have hhd := congrArg head? h
    rwa [head?_drop, head?_cons] at hhd
  refine ⟨by rw [byteAt, hby], ?_, by omega⟩
  rw [← drop_drop, h]
  rfl

theorem continuationAt_eq {ts : ℕ} (htu : data.length ≤ offset + ts) (hvl : value < 2 ^ 32) :
    continuationAt data ts offset value shift
      = .ok (located data (readContinuation value shift (data.drop offset))) := by
  induction ts generalizing offset value shift with
  | zero => rw [drop_eq_nil_of_le (by omega)]; rfl
  | succ _ ih =>
    rw [continuationAt]
    cases hdr : data.drop offset with
    | nil =>
      rw [if_neg (not_lt.mpr (drop_eq_nil_iff.mp hdr))]
      rfl
    | cons =>
      obtain ⟨hby, hrs, hlen⟩ := byteAt_of_drop hdr
      rw [if_pos (by omega), hby, readContinuation]
      dsimp only
      split
      · rfl
      · next hgr =>
        -- the guard is what keeps the sum within 32 bits
        obtain ⟨-, hle⟩ := not_or.mp hgr
        rw [not_lt, Nat.shiftRight_eq_div_pow, Nat.le_div_iff_mul_le (Nat.two_pow_pos _),
          ← Nat.shiftLeft_eq] at hle
        rw [if_neg (by omega)]
        split
        · simp [located, hlen]
        · rw [ih (by omega) (by omega), hrs]

/-- **A number is read as from the bytes that are left**: nothing behind the end is read,
and nothing overflows. -/
theorem readHpackIntegerAt_eq (data : Bytes) (offset prefixMask : ℕ) :
    readHpackIntegerAt data offset prefixMask
      = .ok (located data (readHpackInteger prefixMask (data.drop offset))) := by
  unfold readHpackIntegerAt
  cases hdr : data.drop offset with
  | nil => rw [if_pos (drop_eq_nil_iff.mp hdr)]; rfl
  | cons byte =>
    obtain ⟨hby, hrs, hlen⟩ := byteAt_of_drop hdr
    have hvl : byte.toNat &&& prefixMask ≤ byte.toNat := Nat.and_le_left
    have hlt := byte.toNat_lt
    rw [if_neg (by omega), hby, readHpackInteger]
    dsimp only
    split
    · simp [located, hlen]
    · rw [continuationAt_eq (by omega) (by omega), hrs]

/-- The guard lets a byte pass if the number that it belongs to fits. -/
theorem not_guard {low n : ℕ} (hlow : low ≤ n) (hsh : shift < 32)
    (h : value + n * 2 ^ shift < 2 ^ 32) :
    ¬(shift ≥ 32 ∨ low > (2 ^ 32 - 1 - value) >>> shift) := by
  have hmul := Nat.mul_le_mul_right (2 ^ shift) hlow
  rw [Nat.shiftRight_eq_div_pow, gt_iff_lt, Nat.div_lt_iff_lt_mul (Nat.two_pow_pos _)]
  omega

theorem readContinuation_encode (n : ℕ) (hsh : shift < 32) (h : value + n * 2 ^ shift < 2 ^ 32) :
    readContinuation value shift (encodeContinuation n ++ rest)
      = some (value + n * 2 ^ shift, rest) := by
  have hlow (b : UInt8) : b.toNat &&& 0x7f = b.toNat % 128 :=
    Nat.and_two_pow_sub_one_eq_mod b.toNat 7
  fun_induction encodeContinuation n generalizing value shift with
  | case1 n hn =>
    have hby : (UInt8.ofNat n).toNat = n := UInt8.toNat_ofNat_of_lt' (by norm_num; omega)
    have hla := (masks (.ofNat n)).1.mpr (by omega)
    rw [singleton_append, readContinuation, hlow, hby, Nat.mod_eq_of_lt hn,
      if_neg (not_guard le_rfl hsh h), if_pos (hby ▸ hla), Nat.shiftLeft_eq]
  | case2 n _ ih =>
    have hby : (UInt8.ofNat (n % 128 + 128)).toNat = n % 128 + 128 :=
      UInt8.toNat_ofNat_of_lt' (by norm_num; omega)
    have hmr := mt (masks (.ofNat (n % 128 + 128))).1.mp (by omega)
    have hsum : value + n % 128 * 2 ^ shift + n / 128 * 2 ^ (shift + 7)
        = value + n * 2 ^ shift := by
      conv_rhs => rw [← Nat.mod_add_div n 128]
      rw [pow_add]
      ring
    have hnx : shift + 7 < 32 := by
      have hpos : 1 * 2 ^ (shift + 7) ≤ n / 128 * 2 ^ (shift + 7) :=
        Nat.mul_le_mul_right _ (by omega)
      exact (Nat.pow_lt_pow_iff_right (by decide)).mp (show 2 ^ (shift + 7) < 2 ^ 32 by omega)
    rw [cons_append, readContinuation, hlow, hby, Nat.add_mod_right, Nat.mod_mod,
      if_neg (not_guard (Nat.mod_le ..) hsh h), if_neg (hby ▸ hmr), Nat.shiftLeft_eq,
      ih hnx (by omega), hsum]

theorem readHpackInteger_encode {flags width n : ℕ} (hfl : flags % 2 ^ width = 0)
    (hby : flags + 2 ^ width ≤ 256) (hn : n < 2 ^ 32) :
    readHpackInteger (2 ^ width - 1) (encodeInteger flags width n ++ rest) = some (n, rest) := by
  have hpos := Nat.two_pow_pos width
  have hfi {low : ℕ} (hlow : low < 2 ^ width) :
      (UInt8.ofNat (flags + low)).toNat &&& (2 ^ width - 1) = low := by
    rw [UInt8.toNat_ofNat_of_lt' (by norm_num; omega), Nat.and_two_pow_sub_one_eq_mod, Nat.add_mod,
      hfl, Nat.zero_add, Nat.mod_mod, Nat.mod_eq_of_lt hlow]
  unfold encodeInteger
  split
  case isTrue hsm =>
    rw [singleton_append, readHpackInteger, hfi (by omega), if_pos hsm]
  case isFalse hlr =>
    rw [cons_append, readHpackInteger, hfi (by omega), if_neg (lt_irrefl _),
      readContinuation_encode _ (by decide) (by omega)]
    congr 2
    omega

/-- **Numbers are read back**, wherever they are, and whatever is read is read without a
fault. -/
theorem readHpackIntegerAt_exact :
    (∀ width, 4 ≤ width → width ≤ 7 → ∀ flags, flags % 2 ^ width = 0 → flags < 256 →
      ∀ n < 2 ^ 32, ∀ front rest : Bytes,
        readHpackIntegerAt (front ++ encodeInteger flags width n ++ rest) front.length
          (2 ^ width - 1) = .ok (some (n, front.length + (encodeInteger flags width n).length)))
      ∧ ∀ data offset prefixMask, ∃ result,
        readHpackIntegerAt data offset prefixMask = .ok result := by
  refine ⟨fun width _ hwd flags hfl hlt n hn front rest => ?_,
    fun data offset prefixMask => ⟨_, readHpackIntegerAt_eq data offset prefixMask⟩⟩
  have hby : flags + 2 ^ width ≤ 256 := by
    obtain ⟨_, rfl⟩ := Nat.dvd_of_mod_eq_zero hfl
    interval_cases width <;> omega
  rw [readHpackIntegerAt_eq, append_assoc, drop_left, readHpackInteger_encode hfl hby hn]
  simp only [located, Option.map_some, length_append]
  congr 3
  omega

end Numbers

/-! ## Strings -/

/-- The words of a text, as the table has them. -/
def huffmanBits (text : Bytes) : List Bool :=
  text.flatMap fun b => match hpackHuffmanCodes[b.toNat]? with
    | none => []
    | some code => word code.length code.bits

def packBits : List Bool → Bytes
  | a :: b :: c :: d :: e :: f :: g :: h :: rest =>
    .ofNat (value [a, b, c, d, e, f, g, h]) :: packBits rest
  | _ => []

/-- **A text in the prefix code**, filled up with ones. -/
def huffmanEncode (text : Bytes) : Bytes :=
  packBits (huffmanBits text ++ replicate ((8 - (huffmanBits text).length % 8) % 8) true)

section Strings

theorem bits_packBits {bs : List Bool} (hlen : bs.length % 8 = 0) : bits (packBits bs) = bs := by
  have hby : ∀ a b c d e f g h : Bool, bits [.ofNat (value [a, b, c, d, e, f, g, h])]
      = [a, b, c, d, e, f, g, h] := by decide +kernel
  fun_induction packBits bs with
  | case1 a b c d e f g h _ ih =>
    simp only [length_cons] at hlen
    refine (congrArg₂ (· ++ ·) (hby a b c d e f g h) (ih (by omega))).trans ?_
    rfl
  | case2 bs hsh =>
    rcases bs with _ | ⟨_, _ | ⟨_, _ | ⟨_, _ | ⟨_, _ | ⟨_, _ | ⟨_, _ | ⟨_, _ | ⟨_, _⟩⟩⟩⟩⟩⟩⟩⟩
    case nil => rfl
    case cons.cons.cons.cons.cons.cons.cons.cons => exact (hsh _ _ _ _ _ _ _ _ _ rfl).elim
    all_goals cases hlen

theorem packBits_bits (data : Bytes) : packBits (bits data) = data := by
  have hby : ∀ n < 256, value ((range 8).map fun i => n.testBit (7 - i)) = n := by
    decide +kernel
  induction data with
  | nil => rfl
  | cons b data ih =>
    show .ofNat (value ((range 8).map fun i => b.toNat.testBit (7 - i))) :: packBits (bits data) = _
    rw [hby _ b.toNat_lt, ih, UInt8.ofNat_toNat]

theorem length_bits (data : Bytes) : (bits data).length % 8 = 0 := by
  unfold bits
  simp [Nat.mul_mod_left]

theorem value_word {len n : ℕ} (h : n < 2 ^ len) : value (word len n) = n := by
  induction len generalizing n with
  | zero =>
    rw [pow_zero, Nat.lt_one_iff] at h
    rw [h]
    rfl
  | succ _ ih =>
    rw [word, value_concat, ih (by omega)]
    by_cases hodd : n % 2 = 1
    · rw [decide_eq_true hodd, Bool.toNat_true]
      omega
    · rw [decide_eq_false hodd, Bool.toNat_false]
      omega

/-- The entry of the table for a byte: its word is not empty, not longer than 30 bits and
found again. -/
theorem huffmanCode_entry (b : UInt8) : ∃ code, hpackHuffmanCodes[b.toNat]? = some code
      ∧ huffmanCode b.toNat = word code.length code.bits
      ∧ 0 < code.length ∧ code.length ≤ 30 ∧ code.bits < 2 ^ code.length := by
  have hfi : ∀ code ∈ hpackHuffmanCodes,
      0 < code.length ∧ code.length ≤ 30 ∧ code.bits < 2 ^ code.length := by decide +kernel
  have hlt : b.toNat < hpackHuffmanCodes.length := by
    rw [length_hpackHuffmanCodes]
    exact b.toNat_lt
  have hey := getElem?_eq_getElem hlt
  exact ⟨_, hey, (huffmanCode_eq hey).2, hfi _ (getElem_mem hlt)⟩

theorem huffmanBits_eq (txt : Bytes) :
    huffmanBits txt = txt.flatMap fun b => huffmanCode b.toNat := by
  unfold huffmanBits
  congr 1
  funext b
  obtain ⟨_, hey, hco, -⟩ := huffmanCode_entry b
  rw [hey, hco]

theorem wordAt?_huffmanCode (b : UInt8) : wordAt? (huffmanCode b.toNat) = some b.toNat := by
  obtain ⟨code, hey, hco, -, -, hfi⟩ := huffmanCode_entry b
  cases hfd : wordAt? (huffmanCode b.toNat) with
  | none =>
    have hno := findIdx?_eq_none_iff.mp hfd code (mem_of_getElem? hey)
    rw [decide_eq_false_iff_not, hco, length_word, value_word hfi] at hno
    exact absurd ⟨rfl, rfl⟩ hno
  | some =>
    obtain ⟨hlt, hwr⟩ := huffmanCode_of_wordAt? hfd
    rw [eq_of_huffmanCode_begins hlt.le b.toNat_lt.le (hwr ▸ prefix_refl _)]

variable {passed rest : List Bool} {result : Bytes}

/-- **Bits that no word begins** are passed on. -/
theorem huffmanTurns_skip (since : List Bool) (hlen : (since ++ passed).length < 30)
    (hno : ∀ b : UInt8, ¬huffmanCode b.toNat <+: since ++ passed) :
    huffmanTurns ((passed ++ rest).map Bool.toNat) (value since) since.length result
      = huffmanTurns (rest.map Bool.toNat) (value (since ++ passed)) (since ++ passed).length
          result := by
  induction passed generalizing since with
  | nil => rw [append_nil, nil_append]
  | cons bit passed ih =>
    have hsp : since ++ bit :: passed = (since ++ [bit]) ++ passed := by
      rw [append_assoc]
      rfl
    rw [hsp] at hlen hno ⊢
    have hnon : wordAt? (since ++ [bit]) = none := by
      refine Option.eq_none_iff_forall_ne_some.mpr fun sym hfd => ?_
      obtain ⟨hlt, hwr⟩ := huffmanCode_of_wordAt? hfd
      refine hno (.ofNat sym) ?_
      rw [UInt8.toNat_ofNat_of_lt' hlt, hwr]
      exact prefix_append _ _
    rw [cons_append, huffmanTurns_cons, hnon]
    dsimp only
    rw [if_neg (by rw [length_append] at hlen; omega)]
    exact ih _ hlen hno

/-- **A word** is found where it ends. -/
theorem huffmanTurns_word (b : UInt8) :
    huffmanTurns ((huffmanCode b.toNat ++ rest).map Bool.toNat) 0 0 result
      = huffmanTurns (rest.map Bool.toNat) 0 0 (result ++ [b]) := by
  obtain ⟨code, -, hco, _, _, -⟩ := huffmanCode_entry b
  have hlen : (huffmanCode b.toNat).length = code.length := by rw [hco, length_word]
  obtain hnil | ⟨front, last, hsp⟩ := eq_nil_or_concat' (huffmanCode b.toNat)
  · rw [hnil, length_nil] at hlen
    omega
  rw [hsp, length_append, length_singleton] at hlen
  have hno : ∀ b' : UInt8, ¬huffmanCode b'.toNat <+: [] ++ front := by
    intro b' hft
    have hsh := hft.length_le
    have hsm := eq_of_huffmanCode_begins b'.toNat_lt.le b.toNat_lt.le
      (hsp ▸ hft.trans (prefix_append _ _))
    rw [hsm, hsp, length_append, length_singleton] at hsh
    exact absurd hsh (by simp)
  rw [hsp, append_assoc]
  refine (huffmanTurns_skip [] (by rw [nil_append]; omega) hno).trans ?_
  rw [singleton_append, huffmanTurns_cons, nil_append, ← hsp, wordAt?_huffmanCode]
  dsimp only
  rw [UInt8.ofNat_toNat]

theorem huffmanTurns_text (txt : Bytes) :
    huffmanTurns ((txt.flatMap (fun b => huffmanCode b.toNat) ++ rest).map Bool.toNat) 0 0 result
      = huffmanTurns (rest.map Bool.toNat) 0 0 (result ++ txt) := by
  induction txt generalizing result with
  | nil => rw [flatMap_nil, nil_append, append_nil]
  | cons _ _ ih =>
    rw [flatMap_cons, append_assoc, huffmanTurns_word, ih, append_assoc, singleton_append]

/-- **A text in the prefix code** is decoded. -/
theorem decodeHpackString_of_coded {text data : Bytes} (h : HuffmanCoded text data) :
    decodeHpackString ⟨true, data⟩ = some text := by
  obtain ⟨padding, hbt, _, hend⟩ := h
  have hno : ∀ b : UInt8, ¬huffmanCode b.toNat <+: [] ++ padding := by
    intro b hft
    have hsm := eq_of_huffmanCode_begins b.toNat_lt.le (le_refl _) (hft.trans hend)
    exact absurd b.toNat_lt (by rw [hsm]; decide)
  have htu : huffmanTurns (bitsOf data) 0 0 [] = some (text, value padding, padding.length) := by
    rw [bitsOf_eq, hbt, huffmanTurns_text]
    refine (congrArg (fun bs => huffmanTurns (bs.map Bool.toNat) 0 0 _)
      (append_nil padding).symm).trans ?_
    exact huffmanTurns_skip [] (by rw [nil_append]; omega) hno
  have hon : padding = replicate padding.length true := by
    rw [huffmanCode_endOfString] at hend
    exact (prefix_replicate_iff.mp hend).2
  have hvl : value padding = 2 ^ padding.length - 1 := by
    conv_lhs => rw [hon]
    exact value_replicate _
  unfold decodeHpackString
  rw [if_pos rfl, htu]
  dsimp only
  rw [if_neg (by unfold maximumHpackPaddingBits; omega), if_neg (not_not.mpr _)]
  rw [hvl]
  split
  case isTrue hzero => rw [hzero]; rfl
  case isFalse => rw [Nat.one_shiftLeft]

theorem huffmanCoded_iff (text data : Bytes) :
    HuffmanCoded text data ↔ data = huffmanEncode text := by
  have hpad (n : ℕ) : (n + (8 - n % 8) % 8) % 8 = 0 := by omega
  constructor
  · rintro ⟨padding, hbt, _, hend⟩
    rw [huffmanCode_endOfString] at hend
    rw [← huffmanBits_eq] at hbt
    have hlen := length_bits data
    rw [hbt, length_append] at hlen
    have hct : padding.length = (8 - (huffmanBits text).length % 8) % 8 := by omega
    rw [← packBits_bits data, hbt, (prefix_replicate_iff.mp hend).2, hct]
    rfl
  · rintro rfl
    refine ⟨.replicate ((8 - (huffmanBits text).length % 8) % 8) true, ?_, ?_, ?_⟩
    · exact (bits_packBits (by rw [length_append, length_replicate, hpad])).trans
        (by rw [huffmanBits_eq])
    · rw [length_replicate]
      omega
    · rw [huffmanCode_endOfString]
      exact prefix_replicate_iff.mpr ⟨by rw [length_replicate]; omega, by simp⟩

/-- **Strings are decoded exactly**: a string in the prefix code is decoded just when it is
what is written for the result. -/
theorem decodeHpackString_iff (text data : Bytes) :
    decodeHpackString ⟨true, data⟩ = some text ↔ data = huffmanEncode text := by
  rw [← huffmanCoded_iff]
  exact ⟨fun h => coded_of_decodeHpackString h, decodeHpackString_of_coded⟩

end Strings

end Tailgate
