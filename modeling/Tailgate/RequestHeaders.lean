import Tailgate.H2Frames
import Tailgate.HpackDecoding
import Tailgate.Throwing

/-!
# The headers of requests

The client writes headers as entries of the table that are always there and as
literal fields in which a length is one byte, and refuses strings of more than
127 bytes. The byte 127 says that the length goes on. So the decoder reads the
headers back as long as no string has 127 bytes (`H2Codec.decode_buildHeaders`).
-/

namespace Tailgate

open Procedure Throwing Hpack H2HeaderDecoder List BigEndian UInt8

/-- **The headers of a request.** -/
structure RequestHeaders where
  method : Bytes
  path : Bytes
  authority : Bytes
  contentType : Bytes
  extraHeaders : List HeaderField

def RequestHeaders.fields (r : RequestHeaders) : List HeaderField :=
  [⟨ascii ":method", r.method⟩, ⟨ascii ":path", r.path⟩, ⟨ascii ":scheme", ascii "http"⟩,
    ⟨ascii ":authority", r.authority⟩, ⟨ascii "content-type", r.contentType⟩] ++ r.extraHeaders

def RequestHeaders.Plain (r : RequestHeaders) : Prop :=
  ∀ f ∈ r.fields, f.name.length ≠ 127 ∧ f.value.length ≠ 127

namespace H2Codec

/-! ## The encoder -/

def appendFrameHeader (out : Bytes) (length : ℕ) (type flags : UInt8) (streamId : ℕ) :
    Bytes :=
  out ++ bytes 3 length ++ [type, flags] ++ bytes 4 (streamId % 2 ^ 31)

def appendHpackIndexed (out : Bytes) (index : ℕ) : Except String Bytes :=
  if index > 127 then
    throw "HPACK indexed helper only supports small static indices."
  else pure (out ++ [ofNat (0x80 ||| index)])

def appendHpackLiteralIndexed (out : Bytes) (nameIndex : ℕ) (value : Bytes) :
    Except String Bytes :=
  if nameIndex > 63 ∨ value.length > 127 then
    throw "HPACK literal helper only supports small fields."
  else pure (out ++ [ofNat (0x40 ||| nameIndex), ofNat value.length] ++ value)

def appendHpackLiteralNew (out name value : Bytes) : Except String Bytes :=
  if name.length > 127 ∨ value.length > 127 then
    throw "HPACK literal helper only supports small fields."
  else pure (out ++ [0x00, ofNat name.length] ++ name ++ [ofNat value.length] ++ value)

def appendMethod (out method : Bytes) : Except String Bytes :=
  if method = ascii "POST" then appendHpackIndexed out 3
  else if method = ascii "GET" then appendHpackIndexed out 2
  else appendHpackLiteralIndexed out 2 method

def appendPath (out path : Bytes) : Except String Bytes :=
  if path = ascii "/" then appendHpackIndexed out 4
  else appendHpackLiteralIndexed out 4 path

def buildBlock (r : RequestHeaders) : Except String Bytes := do
  let hpack ← appendMethod [] r.method
  let hpack ← appendPath hpack r.path
  let hpack ← appendHpackIndexed hpack 6
  let hpack ← appendHpackLiteralIndexed hpack 1 r.authority
  let hpack ← appendHpackLiteralIndexed hpack 31 r.contentType
  r.extraHeaders.foldlM (fun hpack header => appendHpackLiteralNew hpack header.name header.value)
    hpack

/-- The flags of a frame with all headers: whether the stream ends with it. -/
def headersFlags (endStream : Bool) : UInt8 := if endStream then 0x04 ||| 0x01 else 0x04

/-- **The frame with the headers of a request.** -/
def buildHeaders (r : RequestHeaders) (streamId : ℕ) (endStream : Bool) :
    Except String Bytes := do
  let hpack ← buildBlock r
  pure (appendFrameHeader [] hpack.length 0x01 (headersFlags endStream) streamId ++ hpack)

/-! ## What the decoder reads -/

/-- **Bytes are read as fields**, whatever the table is and whatever comes next. -/
def ReadAs (bytes : Bytes) (fields : List HeaderField) : Prop :=
  ∀ t rest result, ∃ t', decodeTurns (bytes ++ rest).length (bytes ++ rest) result (holding t)
    = decodeTurns rest.length rest (↑fields + result) (holding t')

section ReadAs

variable {bytes more : Bytes} {fields others : List HeaderField}

theorem ReadAs.nil : ReadAs [] [] :=
  fun t rest res => ⟨t, by rw [nil_append, Multiset.coe_nil, zero_add]⟩

theorem ReadAs.append (h : ReadAs bytes fields) (h' : ReadAs more others) :
    ReadAs (bytes ++ more) (fields ++ others) := by
  intro t rest res
  obtain ⟨t', heq⟩ := h t (more ++ rest) res
  obtain ⟨t'', heq'⟩ := h' t' rest (↑fields + res)
  refine ⟨t'', ?_⟩
  rw [append_assoc, heq, heq', ← Multiset.coe_add, add_assoc, add_left_comm]

theorem readAs_of_decodeTurn {first : UInt8} {f : HeaderField}
    (h : ∀ t rest res, ∃ t', decodeTurn first (first :: (bytes ++ rest)) res (holding t)
      = .ok (rest, f ::ₘ res) (holding t')) : ReadAs (first :: bytes) [f] := by
  intro t rest res
  obtain ⟨t', htr⟩ := h t rest res
  refine ⟨t', ?_⟩
  rw [cons_append, length_cons, decodeTurns, bind_ok htr]
  exact decodeTurns_eq (by rw [length_append]; omega) (le_refl _)

theorem ReadAs.decode (h : ReadAs bytes fields) (t : Table) :
    ∃ d, decode bytes (holding t) = .ok ↑fields d := by
  obtain ⟨t', heq⟩ := h t [] 0
  rw [append_nil, add_zero] at heq
  exact ⟨holding t', heq⟩

end ReadAs

section Representations

variable {bytes out rest : Bytes} {index : ℕ} {fields : List HeaderField}

theorem readHpackInteger_short {flags width n : ℕ} {first : UInt8}
    (hfi : first.toNat = flags * 2 ^ width + n) (hn : n < 2 ^ width - 1) :
    readHpackInteger (2 ^ width - 1) (first :: rest) = some (n, rest) := by
  have hmod : first.toNat % 2 ^ width = n := by
    rw [hfi, Nat.mul_add_mod_self_right, Nat.mod_eq_of_lt (by omega)]
  rw [readHpackInteger, Nat.and_two_pow_sub_one_eq_mod, hmod, if_pos hn]

theorem readHpackStringField_short {txt : Bytes} (h : txt.length < 127) :
    readHpackStringField (ofNat txt.length :: (txt ++ rest)) = some (⟨false, txt⟩, rest) := by
  have hlen : (ofNat txt.length).toNat = 0 * 2 ^ 7 + txt.length := by
    rw [toNat_ofNat_of_lt' (lt_trans h (by decide)), Nat.zero_mul, Nat.zero_add]
  have hpl := (masks (ofNat txt.length)).1.mpr (by omega)
  rw [readHpackStringField, show 0x7f = 2 ^ 7 - 1 from rfl, readHpackInteger_short hlen h]
  dsimp only
  rw [if_neg (by rw [length_append]; omega), take_left, drop_left, hpl]
  rfl

/-- **A literal field** is read when its name and value are. -/
theorem decodeLiteral_ok {t : Table} (add : Bool) {behind name value : Bytes}
    {result : HeaderFields} (hnm : (holding t).literalName (if add then 0x3f else 0x0f) bytes
      = some (some name, behind))
    (hvl : readHpackStringField behind = some (⟨false, value⟩, rest)) :
    ∃ t', decodeLiteral add bytes result (holding t)
      = .ok (rest, ⟨name, value⟩ ::ₘ result) (holding t') := by
  have htx : decodeHpackString ⟨false, value⟩ = some value := rfl
  unfold decodeLiteral
  rw [get_bind, hnm]
  simp only [required, pure_bind, hvl, htx]
  cases add with
  | false => exact ⟨t, rfl⟩
  | true =>
    rw [if_pos rfl, bind_ok (addDynamicEntry_ok t _)]
    exact ⟨_, rfl⟩

variable {f : HeaderField}

theorem headerAt_static (t : Table) (hzero : index ≠ 0)
    (h : staticTable[index - 1]? = some f) : (holding t).headerAt index = some f := by
  obtain ⟨hlt, -⟩ := List.getElem?_eq_some_iff.mp h
  rw [headerAt_holding, Table.entry, if_neg hzero, List.getElem?_append_left hlt, h]

theorem lt_of_static (h : staticTable[index - 1]? = some f) : index < 62 := by
  obtain ⟨hlt, -⟩ := List.getElem?_eq_some_iff.mp h
  change index - 1 < 61 at hlt
  omega

/-- **What each helper appends is read**, if what it is appended to is. -/
theorem readAs_indexed (hby : ReadAs bytes fields) (hzero : index ≠ 0)
    (hf : staticTable[index - 1]? = some f) (h : appendHpackIndexed bytes index = .ok out) :
    ReadAs out (fields ++ [f]) := by
  have hall : ∀ i < 62, (ofNat (0x80 ||| i)).toNat = 1 * 2 ^ 7 + i := by decide
  have hix := lt_of_static hf
  have hfi := hall index hix
  rw [appendHpackIndexed, if_neg (by omega)] at h
  cases h
  refine hby.append (readAs_of_decodeTurn fun t rest res => ⟨t, ?_⟩)
  rw [decodeTurn, if_pos (mt (masks _).1.mp (by omega)), decodeIndexed,
    show 0x7f = 2 ^ 7 - 1 from rfl, readHpackInteger_short hfi (by omega)]
  simp only [required, pure_bind, nil_append]
  rw [get_bind, headerAt_static t hzero hf]
  rfl

theorem readAs_literalIndexed {val : Bytes}
    {nameIndex : ℕ} (hby : ReadAs bytes fields) (hzero : nameIndex ≠ 0)
    (hf : staticTable[nameIndex - 1]? = some f) (hvl : val.length ≠ 127)
    (h : appendHpackLiteralIndexed bytes nameIndex val = .ok out) :
    ReadAs out (fields ++ [⟨f.name, val⟩]) := by
  have hall : ∀ i < 62, (ofNat (0x40 ||| i)).toNat = 1 * 2 ^ 6 + i := by decide
  have hix := lt_of_static hf
  have hfi := hall nameIndex hix
  rw [appendHpackLiteralIndexed] at h
  split at h
  · cases h
  · cases h
    obtain ⟨hin, hil, -⟩ := masks (ofNat (0x40 ||| nameIndex))
    have hadd := mt (hil (by omega)).mp (by omega)
    rw [append_assoc]
    refine hby.append (readAs_of_decodeTurn fun t rest res => ?_)
    rw [decodeTurn, if_neg (not_not.mpr (hin.mpr (by omega))),
      if_neg fun hbt => hadd hbt.2, decide_eq_true hadd]
    refine decodeLiteral_ok true ?_ (readHpackStringField_short (by omega))
    rw [if_pos rfl, literalName, show 0x3f = 2 ^ 6 - 1 from rfl,
      readHpackInteger_short hfi (by omega)]
    dsimp only
    rw [if_neg hzero, headerAt_static t hzero hf]
    rfl

theorem readAs_literalNew
    (hby : ReadAs bytes fields) (hnm : f.name.length ≠ 127) (hvl : f.value.length ≠ 127)
    (h : appendHpackLiteralNew bytes f.name f.value = .ok out) : ReadAs out (fields ++ [f]) := by
  rw [appendHpackLiteralNew] at h
  split at h
  · cases h
  · cases h
    have hfi : (0x00 : UInt8).toNat = 0 * 2 ^ 4 + 0 := rfl
    have hsh (rest : Bytes) : ofNat f.name.length ::
        (f.name ++ ([ofNat f.value.length] ++ f.value)) ++ rest
          = ofNat f.name.length :: (f.name ++ ofNat f.value.length :: (f.value ++ rest)) := by
      simp
    rw [append_assoc, append_assoc, append_assoc]
    refine hby.append (readAs_of_decodeTurn fun t rest res => ?_)
    refine decodeLiteral_ok false ?_ (readHpackStringField_short (by omega))
    rw [if_neg Bool.false_ne_true, literalName, show 0x0f = 2 ^ 4 - 1 from rfl,
      readHpackInteger_short hfi (by decide)]
    dsimp only
    erw [hsh, readHpackStringField_short (by omega)]
    rfl

theorem readAs_method {method : Bytes} (hby : ReadAs bytes fields) (hlen : method.length ≠ 127)
    (h : appendMethod bytes method = .ok out) :
    ReadAs out (fields ++ [⟨ascii ":method", method⟩]) := by
  unfold appendMethod at h
  split at h
  case isTrue hps =>
    rw [hps]
    exact readAs_indexed hby (by decide) rfl h
  case isFalse =>
    split at h
    case isTrue hget =>
      rw [hget]
      exact readAs_indexed hby (by decide) rfl h
    case isFalse => exact readAs_literalIndexed hby (by decide) rfl hlen h

theorem readAs_path {path : Bytes} (hby : ReadAs bytes fields) (hlen : path.length ≠ 127)
    (h : appendPath bytes path = .ok out) : ReadAs out (fields ++ [⟨ascii ":path", path⟩]) := by
  unfold appendPath at h
  split at h
  case isTrue hrt =>
    rw [hrt]
    exact readAs_indexed hby (by decide) rfl h
  case isFalse => exact readAs_literalIndexed hby (by decide) rfl hlen h

end Representations

/-! ## The round trip -/

section RoundTrip

variable {r : RequestHeaders} {block : Bytes}

/-- **The block of a request is read as its fields.** -/
theorem readAs_of_buildBlock (hpl : r.Plain) (h : buildBlock r = .ok block) :
    ReadAs block r.fields := by
  have hvl (i : Fin 5) := (hpl _ (mem_append_left _ (getElem_mem i.isLt))).2
  obtain ⟨out, hmt, h⟩ := of_bind_ok h
  obtain ⟨out', hpt, h⟩ := of_bind_ok h
  obtain ⟨_, hsc, h⟩ := of_bind_ok h
  obtain ⟨_, hat, h⟩ := of_bind_ok h
  obtain ⟨_, hty, h⟩ := of_bind_ok h
  have hfl := readAs_literalIndexed (readAs_literalIndexed (readAs_indexed
      (readAs_path (readAs_method .nil (hvl 0) hmt) (hvl 1) hpt)
      (by decide) rfl hsc) (by decide) rfl (hvl 3) hat)
    (by decide) rfl (hvl 4) hty
  -- The other fields follow, one after the other.
  have hlp := foldlM_induction
    (L := fun more out => ∃ fields, ReadAs out fields ∧ fields ++ more = r.fields)
    (fun f more out out' ⟨fields, hout, heq⟩ hap => by
      have hf : f ∈ r.fields := heq ▸ mem_append_right _ (mem_cons_self ..)
      obtain ⟨hnm, hvl⟩ := hpl f hf
      exact ⟨fields ++ [f], readAs_literalNew hout hnm hvl hap, by rw [← heq, append_assoc]; rfl⟩)
    ⟨_, hfl, rfl⟩ h
  obtain ⟨_, hout, heq⟩ := hlp
  rw [append_nil] at heq
  rw [← heq]
  exact hout

/-- The frame of a block that is not too long for one is taken off as it is. -/
theorem takeFrame_header {flags : UInt8} {sid : ℕ} (h : block.length < 2 ^ 24) :
    takeFrame (appendFrameHeader [] block.length 0x01 flags sid ++ block)
      = some (⟨.headers, flags, sid % 2 ^ 31, block⟩, []) := by
  have hlen : declaredLength (appendFrameHeader [] block.length 0x01 flags sid ++ block)
      = block.length := by
    change value (bytes 3 block.length) = _
    exact value_bytes (by omega)
  have hsr : value (bytes 4 (sid % 2 ^ 31)) % 2 ^ 31 = sid % 2 ^ 31 := by
    rw [value_bytes (by omega), Nat.mod_mod]
  have hsz : (appendFrameHeader [] block.length 0x01 flags sid ++ block).length
      = headerSize + block.length := by
    rw [length_append]
    rfl
  rw [takeFrame, hlen, hsz, if_neg (by omega), ← hsz, drop_length]
  unfold frameAt
  rw [hlen]
  refine congrArg some (Prod.ext (H2Frame.mk.injEq .. ▸ ⟨rfl, rfl, hsr, ?_⟩) rfl)
  exact take_length

/-- **The headers of a request are read back**, by a decoder that has been given
any blocks, if no string has 127 bytes. The frame is one that is taken off whole
if its length fits. -/
theorem decode_buildHeaders (blocks : List Bytes) (streamId : ℕ) (endStream : Bool)
    {frame : Bytes} (hplain : r.Plain) (h : buildHeaders r streamId endStream = .ok frame) :
    (∃ d, decode (frame.drop headerSize) (run blocks) = .ok ↑r.fields d)
      ∧ (frame.length < headerSize + 2 ^ 24 → takeFrame frame = some
        (⟨.headers, headersFlags endStream, streamId % 2 ^ 31, frame.drop headerSize⟩, [])) := by
  obtain ⟨block, hbl, hfr⟩ := of_bind_ok h
  cases hfr
  have hdr : (appendFrameHeader [] block.length 0x01 (headersFlags endStream) streamId
      ++ block).drop headerSize = block := rfl
  obtain ⟨t, ht⟩ := exists_holding blocks
  rw [hdr, ht]
  refine ⟨(readAs_of_buildBlock hplain hbl).decode t, fun hlen => takeFrame_header ?_⟩
  rw [length_append] at hlen
  change 9 + block.length < 9 + 2 ^ 24 at hlen
  omega

def mapRequest : RequestHeaders :=
  ⟨ascii "POST", ascii "/machine/map", ascii "controlplane", ascii "application/json",
    [⟨ascii "ts-lb", ascii "nodekey"⟩]⟩

theorem decode_buildHeaders_mapRequest : ∃ frame, buildHeaders mapRequest 1 false = .ok frame
    ∧ mapRequest.Plain
    ∧ ∃ d, decode (frame.drop headerSize) (run []) = .ok ↑mapRequest.fields d :=
  have hpl : mapRequest.Plain := by
    unfold RequestHeaders.Plain
    decide
  ⟨_, rfl, hpl, (decode_buildHeaders [] 1 false hpl rfl).1⟩

def longRequest : RequestHeaders :=
  { mapRequest with path := ascii "/" ++ replicate 126 0x61, extraHeaders := [] }

set_option maxRecDepth 2000 in
/-- **A string of 127 bytes is written as one that cannot be read.** -/
theorem longRequest_not_decoded : ∃ frame, buildHeaders longRequest 1 false = .ok frame
    ∧ outcome (decode (frame.drop headerSize)) (run []) = .error .malformed :=
  ⟨_, rfl, rfl⟩

end RoundTrip

end H2Codec

end Tailgate
