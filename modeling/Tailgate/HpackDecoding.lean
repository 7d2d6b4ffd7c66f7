import Tailgate.HpackRules
import Tailgate.Procedures

/-!
# Decoding header blocks

The program's decoder of header blocks. It keeps the entries that were inserted
and counts their total size, which is unsigned: taking off more than is counted
is a fault of its own here, shown not to occur. A block it cannot read leaves
what its first representations have done to the table.

What the decoder holds is a table of the rules (`H2HeaderDecoder.exists_holding`),
and a block that it reads means what the rules say.
-/

namespace Tailgate

open Procedure Hpack List Nat

/-! ## Numbers -/

def readContinuation (value shift : ℕ) : Bytes → Option (ℕ × Bytes)
  | [] => none
  | byte :: rest =>
    let remainder := byte.toNat &&& 0x7f
    if shift ≥ 32 ∨ remainder > (2 ^ 32 - 1 - value) >>> shift then
      none
    else if byte.toNat &&& 0x80 = 0 then
      some (value + remainder <<< shift, rest)
    else
      readContinuation (value + remainder <<< shift) (shift + 7) rest

/-- **Read a number** that begins in the bits of a mask, and what is behind it. -/
def readHpackInteger (prefixMask : ℕ) : Bytes → Option (ℕ × Bytes)
  | [] => none
  | first :: rest =>
    let value := first.toNat &&& prefixMask
    if value < prefixMask then some (value, rest) else readContinuation value 0 rest

/-! ## Strings -/

structure HpackStringField where
  huffman : Bool
  bytes : Bytes

/-- **Read a string** as it is written, and what is behind it. -/
def readHpackStringField : Bytes → Option (HpackStringField × Bytes)
  | [] => none
  | first :: rest =>
    match readHpackInteger 0x7f (first :: rest) with
    | none => none
    | some (length, rest) =>
      if length > rest.length then none
      else some (⟨first.toNat &&& 0x80 ≠ 0, rest.take length⟩, rest.drop length)

structure HpackHuffmanCode where
  bits : ℕ
  length : ℕ
  deriving DecidableEq

def hpackHuffmanCodes : List HpackHuffmanCode :=
  [⟨0x1ff8, 13⟩, ⟨0x7fffd8, 23⟩, ⟨0xfffffe2, 28⟩, ⟨0xfffffe3, 28⟩, ⟨0xfffffe4, 28⟩,
   ⟨0xfffffe5, 28⟩, ⟨0xfffffe6, 28⟩, ⟨0xfffffe7, 28⟩, ⟨0xfffffe8, 28⟩, ⟨0xffffea, 24⟩,
   ⟨0x3ffffffc, 30⟩, ⟨0xfffffe9, 28⟩, ⟨0xfffffea, 28⟩, ⟨0x3ffffffd, 30⟩, ⟨0xfffffeb, 28⟩,
   ⟨0xfffffec, 28⟩, ⟨0xfffffed, 28⟩, ⟨0xfffffee, 28⟩, ⟨0xfffffef, 28⟩, ⟨0xffffff0, 28⟩,
   ⟨0xffffff1, 28⟩, ⟨0xffffff2, 28⟩, ⟨0x3ffffffe, 30⟩, ⟨0xffffff3, 28⟩, ⟨0xffffff4, 28⟩,
   ⟨0xffffff5, 28⟩, ⟨0xffffff6, 28⟩, ⟨0xffffff7, 28⟩, ⟨0xffffff8, 28⟩, ⟨0xffffff9, 28⟩,
   ⟨0xffffffa, 28⟩, ⟨0xffffffb, 28⟩, ⟨0x14, 6⟩, ⟨0x3f8, 10⟩, ⟨0x3f9, 10⟩, ⟨0xffa, 12⟩,
   ⟨0x1ff9, 13⟩, ⟨0x15, 6⟩, ⟨0xf8, 8⟩, ⟨0x7fa, 11⟩, ⟨0x3fa, 10⟩, ⟨0x3fb, 10⟩, ⟨0xf9, 8⟩,
   ⟨0x7fb, 11⟩, ⟨0xfa, 8⟩, ⟨0x16, 6⟩, ⟨0x17, 6⟩, ⟨0x18, 6⟩, ⟨0x0, 5⟩, ⟨0x1, 5⟩, ⟨0x2, 5⟩,
   ⟨0x19, 6⟩, ⟨0x1a, 6⟩, ⟨0x1b, 6⟩, ⟨0x1c, 6⟩, ⟨0x1d, 6⟩, ⟨0x1e, 6⟩, ⟨0x1f, 6⟩, ⟨0x5c, 7⟩,
   ⟨0xfb, 8⟩, ⟨0x7ffc, 15⟩, ⟨0x20, 6⟩, ⟨0xffb, 12⟩, ⟨0x3fc, 10⟩, ⟨0x1ffa, 13⟩, ⟨0x21, 6⟩,
   ⟨0x5d, 7⟩, ⟨0x5e, 7⟩, ⟨0x5f, 7⟩, ⟨0x60, 7⟩, ⟨0x61, 7⟩, ⟨0x62, 7⟩, ⟨0x63, 7⟩, ⟨0x64, 7⟩,
   ⟨0x65, 7⟩, ⟨0x66, 7⟩, ⟨0x67, 7⟩, ⟨0x68, 7⟩, ⟨0x69, 7⟩, ⟨0x6a, 7⟩, ⟨0x6b, 7⟩, ⟨0x6c, 7⟩,
   ⟨0x6d, 7⟩, ⟨0x6e, 7⟩, ⟨0x6f, 7⟩, ⟨0x70, 7⟩, ⟨0x71, 7⟩, ⟨0x72, 7⟩, ⟨0xfc, 8⟩, ⟨0x73, 7⟩,
   ⟨0xfd, 8⟩, ⟨0x1ffb, 13⟩, ⟨0x7fff0, 19⟩, ⟨0x1ffc, 13⟩, ⟨0x3ffc, 14⟩, ⟨0x22, 6⟩, ⟨0x7ffd, 15⟩,
   ⟨0x3, 5⟩, ⟨0x23, 6⟩, ⟨0x4, 5⟩, ⟨0x24, 6⟩, ⟨0x5, 5⟩, ⟨0x25, 6⟩, ⟨0x26, 6⟩, ⟨0x27, 6⟩, ⟨0x6, 5⟩,
   ⟨0x74, 7⟩, ⟨0x75, 7⟩, ⟨0x28, 6⟩, ⟨0x29, 6⟩, ⟨0x2a, 6⟩, ⟨0x7, 5⟩, ⟨0x2b, 6⟩, ⟨0x76, 7⟩,
   ⟨0x2c, 6⟩, ⟨0x8, 5⟩, ⟨0x9, 5⟩, ⟨0x2d, 6⟩, ⟨0x77, 7⟩, ⟨0x78, 7⟩, ⟨0x79, 7⟩, ⟨0x7a, 7⟩,
   ⟨0x7b, 7⟩, ⟨0x7ffe, 15⟩, ⟨0x7fc, 11⟩, ⟨0x3ffd, 14⟩, ⟨0x1ffd, 13⟩, ⟨0xffffffc, 28⟩,
   ⟨0xfffe6, 20⟩, ⟨0x3fffd2, 22⟩, ⟨0xfffe7, 20⟩, ⟨0xfffe8, 20⟩, ⟨0x3fffd3, 22⟩, ⟨0x3fffd4, 22⟩,
   ⟨0x3fffd5, 22⟩, ⟨0x7fffd9, 23⟩, ⟨0x3fffd6, 22⟩, ⟨0x7fffda, 23⟩, ⟨0x7fffdb, 23⟩,
   ⟨0x7fffdc, 23⟩, ⟨0x7fffdd, 23⟩, ⟨0x7fffde, 23⟩, ⟨0xffffeb, 24⟩, ⟨0x7fffdf, 23⟩,
   ⟨0xffffec, 24⟩, ⟨0xffffed, 24⟩, ⟨0x3fffd7, 22⟩, ⟨0x7fffe0, 23⟩, ⟨0xffffee, 24⟩,
   ⟨0x7fffe1, 23⟩, ⟨0x7fffe2, 23⟩, ⟨0x7fffe3, 23⟩, ⟨0x7fffe4, 23⟩, ⟨0x1fffdc, 21⟩,
   ⟨0x3fffd8, 22⟩, ⟨0x7fffe5, 23⟩, ⟨0x3fffd9, 22⟩, ⟨0x7fffe6, 23⟩, ⟨0x7fffe7, 23⟩,
   ⟨0xffffef, 24⟩, ⟨0x3fffda, 22⟩, ⟨0x1fffdd, 21⟩, ⟨0xfffe9, 20⟩, ⟨0x3fffdb, 22⟩, ⟨0x3fffdc, 22⟩,
   ⟨0x7fffe8, 23⟩, ⟨0x7fffe9, 23⟩, ⟨0x1fffde, 21⟩, ⟨0x7fffea, 23⟩, ⟨0x3fffdd, 22⟩,
   ⟨0x3fffde, 22⟩, ⟨0xfffff0, 24⟩, ⟨0x1fffdf, 21⟩, ⟨0x3fffdf, 22⟩, ⟨0x7fffeb, 23⟩,
   ⟨0x7fffec, 23⟩, ⟨0x1fffe0, 21⟩, ⟨0x1fffe1, 21⟩, ⟨0x3fffe0, 22⟩, ⟨0x1fffe2, 21⟩,
   ⟨0x7fffed, 23⟩, ⟨0x3fffe1, 22⟩, ⟨0x7fffee, 23⟩, ⟨0x7fffef, 23⟩, ⟨0xfffea, 20⟩, ⟨0x3fffe2, 22⟩,
   ⟨0x3fffe3, 22⟩, ⟨0x3fffe4, 22⟩, ⟨0x7ffff0, 23⟩, ⟨0x3fffe5, 22⟩, ⟨0x3fffe6, 22⟩,
   ⟨0x7ffff1, 23⟩, ⟨0x3ffffe0, 26⟩, ⟨0x3ffffe1, 26⟩, ⟨0xfffeb, 20⟩, ⟨0x7fff1, 19⟩,
   ⟨0x3fffe7, 22⟩, ⟨0x7ffff2, 23⟩, ⟨0x3fffe8, 22⟩, ⟨0x1ffffec, 25⟩, ⟨0x3ffffe2, 26⟩,
   ⟨0x3ffffe3, 26⟩, ⟨0x3ffffe4, 26⟩, ⟨0x7ffffde, 27⟩, ⟨0x7ffffdf, 27⟩, ⟨0x3ffffe5, 26⟩,
   ⟨0xfffff1, 24⟩, ⟨0x1ffffed, 25⟩, ⟨0x7fff2, 19⟩, ⟨0x1fffe3, 21⟩, ⟨0x3ffffe6, 26⟩,
   ⟨0x7ffffe0, 27⟩, ⟨0x7ffffe1, 27⟩, ⟨0x3ffffe7, 26⟩, ⟨0x7ffffe2, 27⟩, ⟨0xfffff2, 24⟩,
   ⟨0x1fffe4, 21⟩, ⟨0x1fffe5, 21⟩, ⟨0x3ffffe8, 26⟩, ⟨0x3ffffe9, 26⟩, ⟨0xffffffd, 28⟩,
   ⟨0x7ffffe3, 27⟩, ⟨0x7ffffe4, 27⟩, ⟨0x7ffffe5, 27⟩, ⟨0xfffec, 20⟩, ⟨0xfffff3, 24⟩,
   ⟨0xfffed, 20⟩, ⟨0x1fffe6, 21⟩, ⟨0x3fffe9, 22⟩, ⟨0x1fffe7, 21⟩, ⟨0x1fffe8, 21⟩, ⟨0x7ffff3, 23⟩,
   ⟨0x3fffea, 22⟩, ⟨0x3fffeb, 22⟩, ⟨0x1ffffee, 25⟩, ⟨0x1ffffef, 25⟩, ⟨0xfffff4, 24⟩,
   ⟨0xfffff5, 24⟩, ⟨0x3ffffea, 26⟩, ⟨0x7ffff4, 23⟩, ⟨0x3ffffeb, 26⟩, ⟨0x7ffffe6, 27⟩,
   ⟨0x3ffffec, 26⟩, ⟨0x3ffffed, 26⟩, ⟨0x7ffffe7, 27⟩, ⟨0x7ffffe8, 27⟩, ⟨0x7ffffe9, 27⟩,
   ⟨0x7ffffea, 27⟩, ⟨0x7ffffeb, 27⟩, ⟨0xffffffe, 28⟩, ⟨0x7ffffec, 27⟩, ⟨0x7ffffed, 27⟩,
   ⟨0x7ffffee, 27⟩, ⟨0x7ffffef, 27⟩, ⟨0x7fffff0, 27⟩, ⟨0x3ffffee, 26⟩]

def bitsOf (bytes : Bytes) : List ℕ :=
  bytes.flatMap fun b => (range 8).map fun i => b.toNat >>> (7 - i) &&& 1

/-- The loop over the bits, with the bits since the last word and the result so
far. -/
def huffmanTurns : List ℕ → ℕ → ℕ → Bytes → Option (Bytes × ℕ × ℕ)
  | [], code, codeLength, result => some (result, code, codeLength)
  | bit :: more, code, codeLength, result =>
    match hpackHuffmanCodes.findIdx? fun word =>
        word.length = codeLength + 1 ∧ word.bits = code <<< 1 ||| bit with
    | some symbol => huffmanTurns more 0 0 (result ++ [UInt8.ofNat symbol])
    | none =>
      if codeLength + 1 = 30 then none
      else huffmanTurns more (code <<< 1 ||| bit) (codeLength + 1) result

def maximumHpackPaddingBits : ℕ := 7

/-- **Decode a string.** -/
def decodeHpackString (field : HpackStringField) : Option Bytes :=
  if field.huffman then
    match huffmanTurns (bitsOf field.bytes) 0 0 [] with
    | none => none
    | some (result, code, codeLength) =>
      if codeLength > maximumHpackPaddingBits then none
      else if code ≠ (if codeLength = 0 then 0 else 1 <<< codeLength - 1) then none
      else some result
  else some field.bytes

/-! ## The decoder -/

def hpackStaticHeaders : List HeaderField :=
  [("", ""), (":authority", ""), (":method", "GET"), (":method", "POST"), (":path", "/"),
   (":path", "/index.html"), (":scheme", "http"), (":scheme", "https"), (":status", "200"),
   (":status", "204"), (":status", "206"), (":status", "304"), (":status", "400"),
   (":status", "404"), (":status", "500"), ("accept-charset", ""),
   ("accept-encoding", "gzip, deflate"), ("accept-language", ""), ("accept-ranges", ""),
   ("accept", ""), ("access-control-allow-origin", ""), ("age", ""), ("allow", ""),
   ("authorization", ""), ("cache-control", ""), ("content-disposition", ""),
   ("content-encoding", ""), ("content-language", ""), ("content-length", ""),
   ("content-location", ""), ("content-range", ""), ("content-type", ""), ("cookie", ""),
   ("date", ""), ("etag", ""), ("expect", ""), ("expires", ""), ("from", ""), ("host", ""),
   ("if-match", ""), ("if-modified-since", ""), ("if-none-match", ""), ("if-range", ""),
   ("if-unmodified-since", ""), ("last-modified", ""), ("link", ""), ("location", ""),
   ("max-forwards", ""), ("proxy-authenticate", ""), ("proxy-authorization", ""), ("range", ""),
   ("referer", ""), ("refresh", ""), ("retry-after", ""), ("server", ""), ("set-cookie", ""),
   ("strict-transport-security", ""), ("transfer-encoding", ""), ("user-agent", ""),
   ("vary", ""), ("via", ""), ("www-authenticate", "")].map fun field =>
    ⟨ascii field.1, ascii field.2⟩

inductive HpackFault
  | malformed
  /-- The size of the table would be less than nothing. -/
  | underflow

abbrev HeaderFields := Multiset HeaderField

/-- **The decoder of header blocks.** -/
structure H2HeaderDecoder where
  /-- The entries that were inserted, the latest first. -/
  dynamicTable : List HeaderField := []
  dynamicTableSize : ℕ := 0
  maximumDynamicTableSize : ℕ := 4096

namespace H2HeaderDecoder

def defaultDynamicTableSize : ℕ := 4096

def headerAt (d : H2HeaderDecoder) (index : ℕ) : Option HeaderField :=
  if index = 0 then none
  else if index < hpackStaticHeaders.length then hpackStaticHeaders[index]?
  else d.dynamicTable[index - hpackStaticHeaders.length]?

def required {α : Type} : Option α → EStateM HpackFault H2HeaderDecoder α
  | some a => pure a
  | none => throw .malformed

def evictTurns : ℕ → EStateM HpackFault H2HeaderDecoder Unit
  | 0 => pure ()
  | turns + 1 => do
    let d ← get
    match d.dynamicTable.getLast? with
    | none => pure ()
    | some evicted =>
      if d.dynamicTableSize > d.maximumDynamicTableSize then
        if evicted.size > d.dynamicTableSize then
          throw .underflow
        else do
          set { d with
            dynamicTable := d.dynamicTable.dropLast
            dynamicTableSize := d.dynamicTableSize - evicted.size }
          evictTurns turns
      else
        pure ()

def evictDynamicEntries : EStateM HpackFault H2HeaderDecoder Unit := do
  evictTurns (← get).dynamicTable.length

/-- **Insert a field.** -/
def addDynamicEntry (field : HeaderField) : EStateM HpackFault H2HeaderDecoder Unit := do
  let d ← get
  if field.size > d.maximumDynamicTableSize then
    set { d with dynamicTable := [], dynamicTableSize := 0 }
  else do
    set { d with
      dynamicTable := field :: d.dynamicTable
      dynamicTableSize := d.dynamicTableSize + field.size }
    evictDynamicEntries

def decodeIndexed (bytes : Bytes) (result : HeaderFields) :
    EStateM HpackFault H2HeaderDecoder (Bytes × HeaderFields) := do
  let (index, bytes) ← required (readHpackInteger 0x7f bytes)
  let header ← required ((← get).headerAt index)
  pure (bytes, header ::ₘ result)

def decodeSizeUpdate (bytes : Bytes) (result : HeaderFields) :
    EStateM HpackFault H2HeaderDecoder (Bytes × HeaderFields) := do
  let (maximumSize, bytes) ← required (readHpackInteger 0x1f bytes)
  if maximumSize > defaultDynamicTableSize then
    throw .malformed
  else do
    modify fun d => { d with maximumDynamicTableSize := maximumSize }
    evictDynamicEntries
    pure (bytes, result)

def literalName (d : H2HeaderDecoder) (prefixMask : ℕ) (bytes : Bytes) :
    Option (Option Bytes × Bytes) :=
  match readHpackInteger prefixMask bytes with
  | none => none
  | some (nameIndex, bytes) =>
    if nameIndex = 0 then
      match readHpackStringField bytes with
      | none => none
      | some (nameField, bytes) => some (decodeHpackString nameField, bytes)
    else some ((d.headerAt nameIndex).map HeaderField.name, bytes)

def decodeLiteral (addToDynamicTable : Bool) (bytes : Bytes) (result : HeaderFields) :
    EStateM HpackFault H2HeaderDecoder (Bytes × HeaderFields) := do
  let prefixMask := if addToDynamicTable then 0x3f else 0x0f
  let (name, bytes) ← required ((← get).literalName prefixMask bytes)
  let (valueField, bytes) ← required (readHpackStringField bytes)
  let name ← required name
  let value ← required (decodeHpackString valueField)
  if addToDynamicTable then do
    addDynamicEntry ⟨name, value⟩
    pure (bytes, ⟨name, value⟩ ::ₘ result)
  else
    pure (bytes, ⟨name, value⟩ ::ₘ result)

/-- **One representation**, whose first byte is given. -/
def decodeTurn (first : UInt8) (bytes : Bytes) (result : HeaderFields) :
    EStateM HpackFault H2HeaderDecoder (Bytes × HeaderFields) :=
  if first.toNat &&& 0x80 ≠ 0 then
    decodeIndexed bytes result
  else if first.toNat &&& 0x20 ≠ 0 ∧ first.toNat &&& 0x40 = 0 then
    decodeSizeUpdate bytes result
  else
    decodeLiteral (decide (first.toNat &&& 0x40 ≠ 0)) bytes result

def decodeTurns : ℕ → Bytes → HeaderFields → EStateM HpackFault H2HeaderDecoder HeaderFields
  | _, [], result => pure result
  | 0, _ :: _, _ => throw .malformed
  | turns + 1, first :: rest, result => do
    let (bytes, result) ← decodeTurn first (first :: rest) result
    decodeTurns turns bytes result

/-- **Decode a block.** -/
def decode (headerBlock : Bytes) : EStateM HpackFault H2HeaderDecoder HeaderFields :=
  decodeTurns headerBlock.length headerBlock 0

end H2HeaderDecoder

/-! ## What is read is what was written -/

section Masks

theorem masks (b : UInt8) : (b.toNat &&& 0x80 = 0 ↔ b.toNat < 128)
    ∧ (b.toNat < 128 → (b.toNat &&& 0x40 = 0 ↔ b.toNat < 64))
    ∧ (b.toNat < 64 → (b.toNat &&& 0x20 = 0 ↔ b.toNat < 32)) := by
  have hall : ∀ n < 256, (n &&& 0x80 = 0 ↔ n < 128)
      ∧ (n < 128 → (n &&& 0x40 = 0 ↔ n < 64)) ∧ (n < 64 → (n &&& 0x20 = 0 ↔ n < 32)) := by
    decide +kernel
  exact hall b.toNat b.toNat_lt

end Masks

section Numbers

variable {n : ℕ} {bytes rest : Bytes}

theorem continuation_of_readContinuation {val shift : ℕ}
    (h : readContinuation val shift bytes = some (n, rest)) :
    ∃ w front, bytes = front ++ rest ∧ Continuation w front ∧ n = val + w * 2 ^ shift := by
  induction bytes generalizing val shift with
  | nil => cases h
  | cons byte _ ih =>
    rw [readContinuation] at h
    have hlow : byte.toNat &&& 0x7f = byte.toNat % 128 :=
      and_two_pow_sub_one_eq_mod byte.toNat 7
    have hlt := byte.toNat_lt
    have hms := (masks byte).1
    rw [hlow, shiftLeft_eq] at h
    split at h
    · cases h
    · split at h
      case isTrue hla =>
        -- The last byte: its bits are its value.
        cases h
        have hsm := hms.mp hla
        exact ⟨byte.toNat, [byte], rfl, .last hsm, by rw [mod_eq_of_lt hsm]⟩
      case isFalse hmr =>
        have hlr : 128 ≤ byte.toNat := not_lt.mp (mt hms.mpr hmr)
        obtain ⟨w, front, rfl, hw, rfl⟩ := ih h
        refine ⟨byte.toNat - 128 + 128 * w, byte :: front, rfl, .more hlr hw, ?_⟩
        have hmod : byte.toNat % 128 = byte.toNat - 128 := by omega
        rw [hmod, pow_add]
        ring

/-- **A number that is read** was written with the other bits of the first byte. -/
theorem integer_of_readHpackInteger (flags width : ℕ) {first : UInt8}
    (hfi : first.toNat = flags + first.toNat % 2 ^ width)
    (h : readHpackInteger (2 ^ width - 1) (first :: bytes) = some (n, rest)) :
    ∃ front, first :: bytes = front ++ rest ∧ Integer flags width n front := by
  rw [readHpackInteger] at h
  rw [and_two_pow_sub_one_eq_mod] at h
  split at h
  case isTrue hsm =>
    cases h
    exact ⟨[first], rfl, .short hfi hsm⟩
  case isFalse hlr =>
    obtain ⟨_, front, rfl, hw, rfl⟩ := continuation_of_readContinuation h
    have hms : first.toNat % 2 ^ width = 2 ^ width - 1 := by omega
    rw [hms, pow_zero, mul_one]
    exact ⟨first :: front, rfl, .long (hms ▸ hfi) hw⟩

end Numbers

section Strings

open PrefixCode

theorem code_of_mem : ∀ w ∈ huffmanWords, w.symbol < 256 →
    hpackHuffmanCodes[w.symbol]? = some ⟨w.code, w.length⟩ := by
  decide +kernel

theorem length_hpackHuffmanCodes : hpackHuffmanCodes.length = 256 := by
  decide +kernel

theorem huffmanCode_endOfString : huffmanCode endOfString = replicate 30 true := by
  decide +kernel

theorem huffmanCode_eq {sym bits len : ℕ} (h : hpackHuffmanCodes[sym]? = some ⟨bits, len⟩) :
    sym < 256 ∧ huffmanCode sym = word len bits := by
  obtain ⟨hlt, -⟩ := List.getElem?_eq_some_iff.mp h
  rw [length_hpackHuffmanCodes] at hlt
  obtain ⟨w, hw, rfl, hco⟩ := exists_word hlt.le
  rw [code_of_mem w hw hlt] at h
  cases h
  exact ⟨hlt, hco⟩

theorem bitsOf_eq (bytes : Bytes) : bitsOf bytes = (Hpack.bits bytes).map Bool.toNat := by
  unfold bitsOf Hpack.bits
  rw [map_flatMap]
  congr 1
  funext b
  rw [map_map]
  congr 1
  funext i
  rw [Function.comp_apply, toNat_testBit, and_one_is_mod, shiftRight_eq_div_pow]

variable {bits : List Bool} {field : HpackStringField} {text : Bytes}

/-- The symbol whose word some bits are. -/
def wordAt? (bits : List Bool) : Option ℕ :=
  hpackHuffmanCodes.findIdx? fun word => word.length = bits.length ∧ word.bits = value bits

theorem huffmanCode_of_wordAt? {symbol : ℕ} (h : wordAt? bits = some symbol) :
    symbol < 256 ∧ huffmanCode symbol = bits := by
  obtain ⟨hlt, hfo, -⟩ := findIdx?_eq_some_iff_getElem.mp h
  rw [decide_eq_true_eq] at hfo
  have hey : hpackHuffmanCodes[symbol]? = some ⟨value bits, bits.length⟩ := by
    rw [List.getElem?_eq_getElem hlt, ← hfo.1, ← hfo.2]
  rw [← word_value bits]
  exact huffmanCode_eq hey

/-- A turn, with the bits since the last word. -/
theorem huffmanTurns_cons (since : List Bool) (bit : Bool) (result : Bytes) :
    huffmanTurns ((bit :: bits).map Bool.toNat) (value since) since.length result =
      match wordAt? (since ++ [bit]) with
      | some sym => huffmanTurns (bits.map Bool.toNat) 0 0 (result ++ [UInt8.ofNat sym])
      | none =>
        if (since ++ [bit]).length = 30 then none
        else huffmanTurns (bits.map Bool.toNat) (value (since ++ [bit])) (since ++ [bit]).length
          result := by
  have hco : value since <<< 1 ||| bit.toNat = value (since ++ [bit]) := by
    rw [value_concat, ← shiftLeft_add_eq_or_of_lt (by cases bit <;> decide),
      shiftLeft_eq, pow_one, mul_comm]
  have hlen : since.length + 1 = (since ++ [bit]).length := by
    rw [length_append, length_singleton]
  rw [map_cons, huffmanTurns, hco, hlen]
  rfl

/-- **The loop over the bits** finds words until there are too few bits for one.
The bits since the last word are those whose number it has. -/
theorem coded_of_huffmanTurns (since : List Bool) {result res' : Bytes} {code' codeLength' : ℕ}
    (h : huffmanTurns (bits.map Bool.toNat) (value since) since.length result
      = some (res', code', codeLength')) :
    ∃ text since', res' = result ++ text
      ∧ since ++ bits = text.flatMap (fun b => huffmanCode b.toNat) ++ since'
      ∧ value since' = code' ∧ since'.length = codeLength' := by
  induction bits generalizing since result with
  | nil =>
    obtain ⟨rfl, rfl, rfl⟩ : result = res' ∧ value since = code' ∧ since.length = codeLength' := by
      simpa [huffmanTurns] using h
    exact ⟨[], since, (append_nil _).symm, append_nil _, rfl, rfl⟩
  | cons _ _ ih =>
    rw [huffmanTurns_cons] at h
    split at h
    case h_1 sym hfd =>
      obtain ⟨hsy, hwr⟩ := huffmanCode_of_wordAt? hfd
      obtain ⟨text, since', rfl, hbt, hvl, hlen⟩ := ih [] h
      refine ⟨.ofNat sym :: text, since', by rw [append_assoc]; rfl, ?_, hvl, hlen⟩
      rw [flatMap_cons, UInt8.toNat_ofNat_of_lt' hsy, hwr, append_assoc, ← hbt]
      simp
    case h_2 =>
      split at h
      · cases h
      · obtain ⟨text, since', hrt, hbt, hvl, hlen⟩ := ih _ h
        refine ⟨text, since', hrt, ?_, hvl, hlen⟩
        rw [← hbt, append_assoc]
        rfl

theorem value_replicate (n : ℕ) : value (replicate n true) = 2 ^ n - 1 := by
  induction n with
  | zero => rfl
  | succ n ih =>
    have hpos := Nat.two_pow_pos n
    rw [replicate_succ', value_concat, ih, Bool.toNat_true, pow_succ]
    omega

theorem eq_replicate_of_value (h : value bits = 2 ^ bits.length - 1) :
    bits = replicate bits.length true := by
  have hwr := word_value (replicate bits.length true)
  rw [length_replicate, value_replicate, ← h, word_value] at hwr
  exact hwr

/-- **A string that is decoded** was in the prefix code, if it says so. -/
theorem coded_of_decodeHpackString (h : decodeHpackString field = some text) :
    if field.huffman then HuffmanCoded text field.bytes else text = field.bytes := by
  unfold decodeHpackString at h
  split at h
  case isFalse hpl =>
    rw [if_neg hpl]
    exact (Option.some.inj h).symm
  case isTrue hhf =>
    rw [if_pos hhf]
    split at h
    case h_1 => cases h
    case h_2 result code codeLength htu =>
      rw [bitsOf_eq] at htu
      obtain ⟨_, pad, rfl, hbt, rfl, rfl⟩ :=
        coded_of_huffmanTurns [] htu
      have hex : (if pad.length = 0 then 0 else 1 <<< pad.length - 1) = 2 ^ pad.length - 1 := by
        split
        case isTrue hzero => rw [hzero]; rfl
        case isFalse => rw [one_shiftLeft]
      rw [hex] at h
      split at h
      · cases h
      · rename_i hle
        split at h
        · cases h
        · rename_i hpd
          cases h
          unfold maximumHpackPaddingBits at hle
          refine ⟨pad, hbt, by omega, ?_⟩
          rw [huffmanCode_endOfString, eq_replicate_of_value (not_not.mp hpd)]
          exact (prefix_replicate_iff).mpr ⟨by rw [length_replicate]; omega, by simp⟩

/-- **A string that is read and decoded** was written so. -/
theorem text_of_readHpackStringField {bytes rest : Bytes}
    (h : readHpackStringField bytes = some (field, rest))
    (hdc : decodeHpackString field = some text) :
    ∃ front, bytes = front ++ rest ∧ Text text front := by
  cases bytes with
  | nil => cases h
  | cons first =>
    have hcd := coded_of_decodeHpackString hdc
    rw [readHpackStringField] at h
    split at h
    · cases h
    · rename_i length behind hlen
      split at h
      · cases h
      · rename_i hfi
        cases h
        have hms := (masks first).1
        have hlt := first.toNat_lt
        have htk : (behind.take length).length = length :=
          length_take_of_le (not_lt.mp hfi)
        by_cases hhf : first.toNat < 128
        · have hpl : ¬(decide (first.toNat &&& 0x80 ≠ 0) = true) := by
            rw [decide_eq_true_eq]
            exact not_not.mpr (hms.mpr hhf)
          rw [if_neg hpl] at hcd
          obtain rfl := hcd
          obtain ⟨front, hft, hin⟩ :=
            integer_of_readHpackInteger 0 7 (by omega) hlen
          refine ⟨front ++ behind.take length, ?_, .plain (by rw [htk]; exact hin)⟩
          rw [hft, append_assoc, take_append_drop]
        · have hco : decide (first.toNat &&& 0x80 ≠ 0) = true :=
            decide_eq_true (mt hms.mp hhf)
          rw [if_pos hco] at hcd
          obtain ⟨front, hft, hin⟩ :=
            integer_of_readHpackInteger 128 7 (by omega) hlen
          refine ⟨front ++ behind.take length, ?_, .huffman (by rw [htk]; exact hin) hcd⟩
          rw [hft, append_assoc, take_append_drop]

end Strings

/-! ## The table -/

namespace H2HeaderDecoder

/-- **The decoder that holds a table**: it has counted how large the entries are. -/
def holding (t : Table) : H2HeaderDecoder where
  dynamicTable := t.entries
  dynamicTableSize := tableSize t.entries
  maximumDynamicTableSize := t.maximum

theorem holding_default : holding {} = {} := rfl

theorem hpackStaticHeaders_eq : hpackStaticHeaders = ⟨[], []⟩ :: staticTable := rfl

section Table

variable {t : Table} {entries : List HeaderField} {maximum : ℕ}

theorem headerAt_holding (t : Table) (index : ℕ) : (holding t).headerAt index = t.entry index := by
  unfold headerAt Table.entry
  by_cases hzero : index = 0
  · rw [if_pos hzero, if_pos hzero]
  · obtain ⟨_, rfl⟩ := exists_eq_succ_of_ne_zero hzero
    rw [if_neg hzero, if_neg hzero, hpackStaticHeaders_eq, length_cons, succ_eq_add_one,
      Nat.add_sub_add_right, Nat.add_sub_cancel, List.getElem?_cons_succ]
    split
    case isTrue hlt => rw [List.getElem?_append_left (by omega)]
    case isFalse hge =>
      rw [List.getElem?_append_right (by omega)]
      rfl

theorem tableSize_cons (f : HeaderField) (entries : List HeaderField) :
    tableSize (f :: entries) = f.size + tableSize entries := by
  unfold tableSize
  rw [map_cons, sum_cons]

theorem tableSize_dropLast {f : HeaderField} (h : entries.getLast? = some f) :
    tableSize entries = tableSize entries.dropLast + f.size := by
  conv_lhs => rw [← dropLast_append_getLast? f h]
  unfold tableSize
  rw [map_append, List.sum_append, map_singleton, sum_singleton]

/-- **Eviction does not take off more than is there**, and takes off what the rules
say. -/
theorem evictTurns_ok (maximum : ℕ) (entries : List HeaderField) {ts : ℕ}
    (h : entries.length ≤ ts) :
    evictTurns ts ⟨entries, tableSize entries, maximum⟩
      = .ok () ⟨evictTo maximum entries, tableSize (evictTo maximum entries), maximum⟩ := by
  fun_induction evictTo maximum entries generalizing ts with
  | case1 entries hle =>
    cases ts with
    | zero => rfl
    | succ =>
      rw [evictTurns, get_bind]
      cases entries.getLast? with
      | none => rfl
      | some =>
        dsimp only
        rw [if_neg (not_lt.mpr hle)]
        rfl
  | case2 entries hgt ih =>
    have hne : entries ≠ [] := by
      rintro rfl
      exact hgt (zero_le _)
    have hla := getLast?_eq_some_getLast hne
    have hsz := tableSize_dropLast hla
    obtain ⟨_, rfl⟩ : ∃ k, ts = k + 1 :=
      exists_eq_succ_of_ne_zero (by have := length_pos_of_ne_nil hne; omega)
    have hrs : tableSize entries - (entries.getLast hne).size = tableSize entries.dropLast := by
      omega
    rw [evictTurns, get_bind]
    rw [hla]
    dsimp only
    rw [if_pos (not_le.mp hgt), if_neg (by omega), hrs]
    exact ih (by rw [length_dropLast]; omega)

theorem evictTo_cons {f : HeaderField} (h : f.size ≤ maximum) :
    evictTo maximum (f :: entries) = f :: evictTo (maximum - f.size) entries := by
  fun_induction evictTo (maximum - f.size) entries with
  | case1 => exact evictTo_of_le (by rw [tableSize_cons]; omega)
  | case2 entries hgt ih =>
    have hne : entries ≠ [] := by
      rintro rfl
      exact hgt (zero_le _)
    rw [evictTo_of_lt (by rw [tableSize_cons]; omega), dropLast_cons_of_ne_nil hne]
    exact ih

/-- **A field is inserted** as the rules say. -/
theorem addDynamicEntry_ok (t : Table) (f : HeaderField) :
    addDynamicEntry f (holding t) = .ok () (holding (t.insert f)) := by
  rw [addDynamicEntry, get_bind]
  unfold Table.insert
  by_cases h : f.size ≤ t.maximum
  · rw [dif_pos h]
    have hrm : ¬f.size > (holding t).maximumDynamicTableSize := not_lt.mpr h
    rw [if_neg hrm]
    have hsz : tableSize t.entries + f.size = tableSize (f :: t.entries) := by
      rw [tableSize_cons, add_comm]
    have hev := evictTurns_ok t.maximum (f :: t.entries) (le_refl _)
    rw [evictTo_cons h, ← hsz] at hev
    exact hev
  · have hlr : f.size > (holding t).maximumDynamicTableSize := not_le.mp h
    rw [dif_neg h, if_pos hlr]
    rfl

/-- **The size of the table changes** as the rules say. -/
theorem evictDynamicEntries_ok (t : Table) {maximum : ℕ} (h : maximum ≤ maximumTableSize) :
    evictDynamicEntries { holding t with maximumDynamicTableSize := maximum }
      = .ok () (holding (t.resize maximum h)) := by
  exact evictTurns_ok maximum t.entries (le_refl _)

end Table

/-! ## Representations -/

/-- **What one representation may come to**: it is one that the rules have, and it
does what they say. -/
def Carries (t : Table) (bytes : Bytes) (result : HeaderFields)
    (next : Bytes × HeaderFields) (d : H2HeaderDecoder) : Prop :=
  ∃ i front field t', bytes = front ++ next.1 ∧ Encodes i front
    ∧ t.execute i = some (field, t') ∧ d = holding t' ∧ next.2 = ↑field.toList + result

def Refused (t : Table) (e : HpackFault) (d : H2HeaderDecoder) : Prop :=
  e = .malformed ∧ d = holding t

section Turns

variable {t : Table} {first : UInt8} {bytes : Bytes} {result : HeaderFields}

theorem meets_required {α β : Type} {x : Option α}
    {f : α → EStateM HpackFault H2HeaderDecoder β} {Q : β → H2HeaderDecoder → Prop}
    (h : ∀ a, x = some a → Meets (· = holding t) (f a) Q (Refused t)) :
    Meets (· = holding t) (required x >>= f) Q (Refused t) := by
  cases x with
  | none => exact fun d hd => ⟨rfl, hd⟩
  | some a => exact h a rfl

theorem meets_decodeIndexed (hfi : 128 ≤ first.toNat) :
    Meets (· = holding t) (decodeIndexed (first :: bytes) result)
      (Carries t (first :: bytes) result) (Refused t) := by
  refine meets_required fun ⟨idx, rest⟩ hrd => ?_
  refine .look fun d hd => ?_
  subst hd
  refine meets_required fun header hhd => ?_
  refine .pure ?_
  rintro d rfl
  have hlt := first.toNat_lt
  obtain ⟨front, hft, hix⟩ := integer_of_readHpackInteger 128 7 (by omega) hrd
  rw [headerAt_holding] at hhd
  exact ⟨.indexed idx, front, some header, t, hft, .indexed hix,
    by rw [Table.execute, hhd]; rfl, rfl, (Multiset.singleton_add _ _).symm⟩

theorem meets_decodeSizeUpdate (hge : 32 ≤ first.toNat) (hlt : first.toNat < 64) :
    Meets (· = holding t) (decodeSizeUpdate (first :: bytes) result)
      (Carries t (first :: bytes) result) (Refused t) := by
  refine meets_required fun ⟨maximum, rest⟩ hrd => ?_
  refine .ite (fun _ => .throw fun s hs => ⟨rfl, hs⟩) fun hle => ?_
  obtain ⟨front, hft, hmx⟩ := integer_of_readHpackInteger 32 5 (by omega) hrd
  have hal : maximum ≤ maximumTableSize := not_lt.mp hle
  refine .bind (Q := fun _ d => d = { holding t with maximumDynamicTableSize := maximum })
    (.modify fun d hd => by rw [hd]) ?_
  rintro - d rfl
  rw [bind_ok (evictDynamicEntries_ok t hal)]
  exact ⟨.resize maximum, front, none, _, hft, .resize hmx,
    by rw [Table.execute, dif_pos hal], rfl, (zero_add _).symm⟩

theorem nameCoded_of_literalName {kind : Literal} {name rest : Bytes}
    (hfi : first.toNat = kind.flags + first.toNat % 2 ^ kind.width)
    (h : (holding t).literalName (2 ^ kind.width - 1) (first :: bytes) = some (some name, rest)) :
    ∃ coded front, first :: bytes = front ++ rest ∧ NameCoded kind coded front
      ∧ t.name coded = some name := by
  unfold literalName at h
  split at h
  · cases h
  · rename_i nameIndex behind hrd
    obtain ⟨front, hft, hix⟩ := integer_of_readHpackInteger _ _ hfi hrd
    split at h
    case isTrue hzero =>
      subst hzero
      split at h
      · cases h
      · rename_i field after hfl
        obtain ⟨hnm, rfl⟩ := Prod.mk.inj (Option.some.inj h)
        obtain ⟨text, rfl, htx⟩ := text_of_readHpackStringField hfl hnm
        exact ⟨.new name, front ++ text, by rw [hft, append_assoc], .new hix htx, rfl⟩
    case isFalse hne =>
      obtain ⟨hnm, rfl⟩ := Prod.mk.inj (Option.some.inj h)
      rw [headerAt_holding] at hnm
      exact ⟨.entry nameIndex, front, hft, .entry hix hne, hnm⟩

theorem meets_decodeLiteral (kind : Literal)
    (hfi : first.toNat = kind.flags + first.toNat % 2 ^ kind.width) :
    Meets (· = holding t) (decodeLiteral kind.inserts (first :: bytes) result)
      (Carries t (first :: bytes) result) (Refused t) := by
  have hms : (if kind.inserts then 0x3f else 0x0f) = 2 ^ kind.width - 1 := by
    cases kind <;> rfl
  refine .look fun d hd => ?_
  subst hd
  rw [hms]
  refine meets_required fun ⟨name?, behind⟩ hnm => ?_
  refine meets_required fun ⟨valueField, rest⟩ hvl => ?_
  refine meets_required fun name hso => ?_
  refine meets_required fun val hdc => ?_
  obtain rfl : name? = some name := hso
  obtain ⟨coded, front, hft, hcd, htb⟩ := nameCoded_of_literalName hfi hnm
  obtain ⟨text, rfl, htx⟩ := text_of_readHpackStringField hvl hdc
  -- What it stands for does not depend on whether it is inserted.
  have hcr (t' : Table) (ht' : t' = if kind.inserts then t.insert ⟨name, val⟩ else t) :
      Carries t (first :: bytes) result (rest, ⟨name, val⟩ ::ₘ result) (holding t') := by
    refine ⟨.literal kind.inserts coded val, front ++ text, some ⟨name, val⟩, t', ?_,
      .literal hcd htx, ?_, rfl, (Multiset.singleton_add _ _).symm⟩
    · rw [hft, append_assoc]
    · rw [Table.execute, htb, Option.map_some, ht']
  refine .ite (fun hin => ?_) fun hin => ?_
  · rintro d rfl
    rw [bind_ok (addDynamicEntry_ok t _)]
    exact hcr _ (if_pos hin).symm
  · refine .pure ?_
    rintro d rfl
    exact hcr _ (if_neg hin).symm

/-- **A representation** is read as the rules say, or refused. -/
theorem meets_decodeTurn (t : Table) (first : UInt8) (bytes : Bytes) (result : HeaderFields) :
    Meets (· = holding t) (decodeTurn first (first :: bytes) result)
      (Carries t (first :: bytes) result) (Refused t) := by
  obtain ⟨hin, hil, hrs⟩ := masks first
  refine .ite (fun h => ?_) fun h => .ite (fun h' => ?_) fun h' => ?_
  · exact meets_decodeIndexed (not_lt.mp (mt hin.mpr h))
  · have hlt := (hil (hin.mp (not_not.mp h))).mp h'.2
    exact meets_decodeSizeUpdate (not_lt.mp (mt (hrs hlt).mpr h'.1)) hlt
  · have hlt := hin.mp (not_not.mp h)
    by_cases his : first.toNat < 64
    · have hno : decide (first.toNat &&& 0x40 ≠ 0) = false :=
        decide_eq_false (not_not.mpr ((hil hlt).mpr his))
      rw [hno]
      by_cases hnv : first.toNat < 16
      · refine meets_decodeLiteral .withoutIndexing ?_
        change _ = 0 + _ % 16
        omega
      · refine meets_decodeLiteral .neverIndexed ?_
        change _ = 16 + _ % 16
        omega
    · have hyes : decide (first.toNat &&& 0x40 ≠ 0) = true :=
        decide_eq_true (mt (hil hlt).mp his)
      rw [hyes]
      refine meets_decodeLiteral .incremental ?_
      change _ = 64 + _ % 64
      omega

end Turns

/-! ## Blocks -/

section Blocks

variable {t : Table}

/-- **A block** is decoded as the rules say, or leaves some table. -/
theorem meets_decodeTurns (ts : ℕ) (t : Table) (blk : Bytes) (result : HeaderFields) :
    Meets (· = holding t) (decodeTurns ts blk result)
      (fun headers d => ∃ flds t', Decodes t blk flds t' ∧ d = holding t'
        ∧ headers = ↑flds + result)
      (fun e d => e = .malformed ∧ ∃ t', d = holding t') := by
  induction ts generalizing t blk result with
  | zero =>
    cases blk with
    | nil =>
      refine .pure ?_
      rintro d rfl
      exact ⟨[], t, .nil, rfl, (zero_add _).symm⟩
    | cons => exact .throw fun d hd => ⟨rfl, t, hd⟩
  | succ _ ih =>
    cases blk with
    | nil =>
      refine .pure ?_
      rintro d rfl
      exact ⟨[], t, .nil, rfl, (zero_add _).symm⟩
    | cons first bytes =>
      refine .bind ((meets_decodeTurn t first bytes result).post
        (fun _ _ h => h) fun e d h => ⟨h.1, t, h.2⟩) ?_
      rintro ⟨rest, _⟩ _ ⟨_, _, field, t', hbl, hes, hex, rfl, rfl⟩
      -- The rest of the block starts from the table that the representation leaves.
      refine ((ih t' rest _).starting rfl).post ?_ (fun _ _ h => h) (holding t') rfl
      rintro _ _ ⟨flds, t'', hrs, hd, rfl⟩
      refine ⟨field.toList ++ flds, t'', ?_, hd, ?_⟩
      · rw [hbl]
        exact .cons hes hex hrs
      · rw [← Multiset.coe_add, add_assoc]
        exact add_left_comm _ _ _

/-- The loop does not depend on its turns: a representation takes a byte at least. -/
theorem decodeTurns_eq {turns turns' : ℕ} {t : Table} {block : Bytes} {result : HeaderFields}
    (h : block.length ≤ turns) (h' : block.length ≤ turns') :
    decodeTurns turns block result (holding t) = decodeTurns turns' block result (holding t) := by
  induction turns generalizing turns' t block result with
  | zero =>
    obtain rfl := eq_nil_of_length_eq_zero (le_zero.mp h)
    cases turns' <;> rfl
  | succ _ ih =>
    cases block with
    | nil => cases turns' <;> rfl
    | cons first bytes =>
      obtain ⟨_, rfl⟩ := Nat.exists_eq_add_of_lt h'
      have htr := meets_decodeTurn t first bytes result (holding t) rfl
      rw [decodeTurns, decodeTurns]
      cases hrun : decodeTurn first (first :: bytes) result (holding t) with
      | error => rw [bind_error hrun, bind_error hrun]
      | ok =>
        rw [hrun] at htr
        obtain ⟨_, _, _, _, hbl, hes, -, rfl, -⟩ := htr
        have hpos := length_pos_of_ne_nil hes.ne_nil
        have hlen := congrArg length hbl
        rw [length_append] at hlen
        rw [bind_ok hrun, bind_ok hrun]
        exact ih (by omega) (by omega)

theorem meets_decode (t : Table) (blk : Bytes) : Meets (· = holding t) (decode blk)
      (fun headers d => ∃ flds t', Decodes t blk flds t' ∧ d = holding t' ∧ headers = ↑flds)
      (fun e d => e = .malformed ∧ ∃ t', d = holding t') :=
  (meets_decodeTurns blk.length t blk 0).post
    (fun _ _ ⟨flds, t', h, hd, heq⟩ => ⟨flds, t', h, hd, heq.trans (add_zero _)⟩)
    fun _ _ h => h

def run (blocks : List Bytes) : H2HeaderDecoder :=
  blocks.foldl (fun d block => after (decode block) d) {}

/-- **The decoder always holds a table**, with its bounds. -/
theorem exists_holding (blks : List Bytes) : ∃ t, run blks = holding t := by
  refine foldlRecOn blks _ (motive := fun d => ∃ t, d = holding t) ⟨{}, holding_default.symm⟩ ?_
  rintro d ⟨t, rfl⟩ blk -
  refine Meets.after (P := (· = holding t)) (I := fun d => ∃ t', d = holding t') ?_ rfl
  exact (meets_decode t blk).post (fun _ _ ⟨_, t', _, hd, _⟩ => ⟨t', hd⟩) fun _ _ h => h.2

/-- **The decoder follows the rules of the format**, after any blocks: the size it
has counted is that of its entries and within the maximum, taking entries off does
not make it wrong, and a block that it decodes stands for the fields that it gives
and leaves the table that it then holds, according to the rules and to nothing
else. -/
theorem decode_correct (blocks : List Bytes) : ∃ t, run blocks = holding t
      ∧ (run blocks).dynamicTableSize = ((run blocks).dynamicTable.map fun f =>
          f.name.length + f.value.length + 32).sum
      ∧ (run blocks).dynamicTableSize ≤ (run blocks).maximumDynamicTableSize
      ∧ (run blocks).maximumDynamicTableSize ≤ 4096
      ∧ ∀ block, outcome (decode block) (run blocks) ≠ .error .underflow
        ∧ ∀ headers d, decode block (run blocks) = .ok headers d →
          ∃ fields t', Decodes t block fields t' ∧ headers = ↑fields ∧ d = holding t'
            ∧ ∀ others u, Decodes t block others u → others = fields ∧ u = t' := by
  obtain ⟨t, ht⟩ := exists_holding blocks
  refine ⟨t, ht, ?_⟩
  rw [ht]
  refine ⟨rfl, t.size_le, t.maximum_le, fun block => ⟨?_, fun headers d hde => ?_⟩⟩
  · have hmt := meets_decode t block (holding t) rfl
    unfold outcome
    split at hmt
    · exact nofun
    · rw [hmt.1]
      exact nofun
  · obtain ⟨fields, t', hdc, hd, hhd⟩ := (meets_decode t block).of_ok rfl hde
    refine ⟨fields, t', hdc, hhd, hd, fun others u h => ?_⟩
    obtain ⟨hfl, htb⟩ := hdc.unique h
    exact ⟨hfl.symm, htb.symm⟩

end Blocks

end H2HeaderDecoder

end Tailgate
