import Tailgate.BigEndian

/-!
# Frames with a type and a length

Many protocols put the same in front of what they send: a byte that says what
it is and a few bytes that say how long it is. A reader that has the front of
such a frame knows its length once it has read these, whatever comes behind,
and has the whole frame once it has read as many bytes more.
-/

namespace TaggedFrame

open List BigEndian

def encode (width : ℕ) (type : UInt8) (payload : Bytes) : Bytes :=
  type :: (bytes width payload.length ++ payload)

def headerSize (width : ℕ) : ℕ := 1 + width

def declared (width : ℕ) (buffer : Bytes) : ℕ :=
  value ((buffer.drop 1).take width)

variable {width : ℕ} {type : UInt8} {payload buffer : Bytes}

@[simp]
theorem length_encode (width : ℕ) (type : UInt8) (payload : Bytes) :
    (encode width type payload).length = headerSize width + payload.length := by
  simp [encode, headerSize]
  omega

theorem encode_ne_nil : encode width type payload ≠ [] := cons_ne_nil _ _

/-- **The start of a frame says how long it is.** -/
theorem declared_encode (h : payload.length < 256 ^ width) (type : UInt8) (rest : Bytes) :
    declared width (encode width type payload ++ rest) = payload.length := by
  have htk : ((encode width type payload ++ rest).drop 1).take width
      = bytes width payload.length := by
    show ((bytes width payload.length ++ payload) ++ rest).take width = _
    rw [append_assoc]
    exact take_left' (length_bytes width _)
  unfold declared
  rw [htk, value_bytes h]

theorem drop_encode (width : ℕ) (type : UInt8) (payload : Bytes) :
    (encode width type payload).drop (headerSize width) = payload := by
  show ((type :: bytes width payload.length) ++ payload).drop (headerSize width) = _
  exact drop_left' (by simp [headerSize, Nat.add_comm])

theorem take_encode (rest : Bytes) :
    ((encode width type payload ++ rest).take (headerSize width + payload.length)).drop
      (headerSize width) = payload := by
  rw [← length_encode width type payload, take_left, drop_encode]

theorem drop_encode_append (rest : Bytes) :
    (encode width type payload ++ rest).drop (headerSize width + payload.length) = rest := by
  rw [← length_encode width type payload, drop_left]

theorem of_front (h : payload.length < 256 ^ width)
    (hft : buffer <+: encode width type payload) (hstart : headerSize width ≤ buffer.length) :
    buffer.head? = some type ∧ declared width buffer = payload.length := by
  unfold headerSize at hstart
  obtain ⟨_, hmr⟩ := hft
  constructor
  · have hhd := congrArg head? hmr
    rwa [head?_append_of_ne_nil _ (length_pos_iff.mp (by omega))] at hhd
  · have hdc := declared_encode h type []
    rw [append_nil, ← hmr] at hdc
    unfold declared at hdc ⊢
    rwa [drop_append_of_le_length (by omega),
      take_append_of_le_length (by rw [length_drop]; omega)] at hdc

end TaggedFrame
