import Tailgate.ControlReading
import Tailgate.NoiseTransport
import Tailgate.RequestHeaders

/-!
# Streams that are cut anywhere

What the control server sends arrives in pieces that have nothing to do with its
frames, nor with the maps in them. Frames are taken off a buffer after each piece,
and maps off a body whenever the client asks for one. Where the cuts are, and when
the client asks, makes no difference to what it gets.
-/

namespace Tailgate

open List BigEndian MapStreamResponse

namespace H2Codec

/-- **A frame as it is sent.** -/
structure WireFrame where
  type : UInt8
  flags : UInt8
  streamId : ℕ
  payload : Bytes
  /-- The length has three bytes. -/
  payload_lt : payload.length < 2 ^ 24

namespace WireFrame

def bytes (w : WireFrame) : Bytes :=
  appendFrameHeader [] w.payload.length w.type w.flags w.streamId ++ w.payload

def frame (w : WireFrame) : H2Frame := ⟨.ofCode w.type, w.flags, w.streamId % 2 ^ 31, w.payload⟩

theorem take_bytes (w : WireFrame) (rest : Bytes) :
    framing.take (w.bytes ++ rest) = some (w.frame, rest) := by
  obtain ⟨type, flags, sid, pl, hlt⟩ := w
  have hlen := length_bytes 3 pl.length
  have hid := length_bytes 4 (sid % 2 ^ 31)
  have hby : bytes ⟨type, flags, sid, pl, hlt⟩ ++ rest
      = BigEndian.bytes 3 pl.length ++ (type :: flags
        :: (BigEndian.bytes 4 (sid % 2 ^ 31) ++ (pl ++ rest))) := by
    simp [bytes, appendFrameHeader]
  have hdr : (bytes ⟨type, flags, sid, pl, hlt⟩ ++ rest).drop 5
      = BigEndian.bytes 4 (sid % 2 ^ 31) ++ (pl ++ rest) := by
    rfl
  have hbd : (bytes ⟨type, flags, sid, pl, hlt⟩ ++ rest).drop 9 = pl ++ rest := by
    rw [show 9 = 5 + 4 from rfl, ← drop_drop, hdr, drop_left' hid]
  have hdc : declaredLength (bytes ⟨type, flags, sid, pl, hlt⟩ ++ rest) = pl.length := by
    rw [declaredLength, hby, take_left' hlen]
    exact value_bytes hlt
  have hfr : frameAt (bytes ⟨type, flags, sid, pl, hlt⟩ ++ rest)
      = frame ⟨type, flags, sid, pl, hlt⟩ := by
    rw [frameAt, hdc, headerSize, hbd, hdr, take_left' hid, take_left' rfl,
      value_bytes ((Nat.mod_lt _ (by decide)).trans (by decide)), Nat.mod_mod, hby]
    simp [frame, getD_eq_getElem?_getD, getElem?_append_right, hlen]
  have hwh : (bytes ⟨type, flags, sid, pl, hlt⟩ ++ rest).length
      = 9 + (pl.length + rest.length) := by
    simp only [hby, length_append, length_cons, hlen, hid]
    omega
  show takeFrame _ = _
  rw [takeFrame, hdc, headerSize, if_neg (by omega), hfr, ← drop_drop, hbd, drop_left' rfl]

end WireFrame

open NoiseChannel AuthenticatedCipher.Tagged

/-- **Frames stay in order on an encrypted connection.** However frames are cut into messages
and messages into reads: the frames taken after each message are the first of those that were
sent, and once every message has been received they are all of them. -/
theorem frames_taken_in_order {Key : Type} {C : AuthenticatedCipher Key} (hideal : C.Ideal)
    (keys : NoiseKeys Key) {s : NoiseChannel Key}
    (h : ((channel C keys).restrict Careful).Reachable s) {ws : List WireFrame}
    (hsent : s.sent.flatten = ws.flatMap WireFrame.bytes) :
    (framing.takePieces s.received []).1.flatten <+: ws.map WireFrame.frame
      ∧ (s.received = s.sent →
        (framing.takePieces s.received []).1.flatten = ws.map WireFrame.frame
        ∧ (framing.takePieces s.received []).2 = []) := by
  have hag : Agrees C keys s := by
    refine TransitionSystem.invariant (P := Agrees C keys) ?_ ?_ h
    · rintro _ rfl
      exact agrees_start C keys
    · rintro _ _ _ hs ⟨hcr, hop, rfl⟩
      exact hs.step hideal hop hcr
  obtain ⟨messages, hsn, -⟩ := hag.expects
  have hall : framing.takeAll (ws.flatMap WireFrame.bytes) = (ws.map WireFrame.frame, []) :=
    Framing.takeAll_flatMap fun w _ => w.take_bytes
  obtain ⟨htn, hlf⟩ := Framing.takePieces_eq s.received (Framing.take_nil (F := framing))
  rw [nil_append] at htn hlf
  rw [htn, hlf]
  constructor
  · rw [← hsent, hsn, flatten_append, Framing.takeAll_append] at hall
    exact ⟨_, congrArg Prod.fst hall⟩
  · intro heq
    rw [heq, hsent, hall]
    exact ⟨rfl, rfl⟩

/-- Settings, and data of the first stream. Below they are cut inside the second frame, and
each message is read in pieces. -/
def settingsAndData : List WireFrame :=
  [⟨4, 0, 0, [], by decide⟩, ⟨0, 0, 1, [1, 0, 0, 0, 0x21], by decide⟩]

theorem frames_taken_in_order_settings : ∃ s : NoiseChannel UInt64, s.sent.length = 2 ∧
    s.received = s.sent ∧
      (framing.takePieces s.received []).1.flatten = settingsAndData.map WireFrame.frame := by
  have h₀ : ((channel cipher ⟨1, 2⟩).restrict Careful).Reachable (start ⟨1, 2⟩) := .init rfl
  have h₁ := reachable_careful h₀ (.send ((settingsAndData.flatMap WireFrame.bytes).take 12) [5])
    (by decide : 0 ∉ [5]) nofun
  have h₂ := reachable_careful h₁ (.tryReceive 4) trivial trivial
  have h₃ := reachable_careful h₂ (.flush [100]) (by decide : 0 ∉ [100]) trivial
  have h₄ := reachable_careful h₃ (.receive [2, 40]) trivial trivial
  have h₅ := reachable_careful h₄
    (.send ((settingsAndData.flatMap WireFrame.bytes).drop 12) [50]) (by decide : 0 ∉ [50]) nofun
  have h₆ := reachable_careful h₅ (.receive [1, 7, 40]) trivial trivial
  exact ⟨_, by decide +kernel, by decide +kernel, ((frames_taken_in_order ideal_cipher ⟨1, 2⟩ h₆
    (by decide +kernel : _ = settingsAndData.flatMap WireFrame.bytes)).2 (by decide +kernel)).1⟩

end H2Codec

namespace MapStreamResponse

def withLength (map : Bytes) : Bytes :=
  (BigEndian.bytes 4 map.length).reverse ++ map

/-- Calls of a response: a piece is received, or a map is to be taken. The maps that are
returned, and what is left of the body. -/
def calls (maximumSize : ℕ) :
    List (Option Bytes) → Bytes → Except ControlError (List Bytes × Bytes)
  | [], body => .ok ([], body)
  | some piece :: rest, body => calls maximumSize rest (body ++ piece)
  | none :: rest, body => do
    match ← takeMap maximumSize body with
    | none => calls maximumSize rest body
    | some (map, left) =>
      let (maps, body) ← calls maximumSize rest left
      .ok (map :: maps, body)

variable {maximumSize : ℕ}

/-- A map that can be sent: its length is not zero, within the limit and fits four bytes. -/
def Sendable (maximumSize : ℕ) (map : Bytes) : Prop :=
  map ≠ [] ∧ map.length ≤ maximumSize ∧ map.length < 2 ^ 32

variable {body map : Bytes} {maps : List Bytes}

theorem mapSize_withLength (h : Sendable maximumSize map) (rest : Bytes) :
    mapSize (withLength map ++ rest) = map.length := by
  unfold mapSize withLength
  rw [append_assoc, take_left' (by simp [mapLengthSize]), reverse_reverse]
  exact value_bytes h.2.2

theorem takeMap_complete (h : Sendable maximumSize map) (rest : Bytes) :
    takeMap maximumSize (withLength map ++ rest) = .ok (some (map, rest)) := by
  have hpos := length_pos_of_ne_nil h.1
  have hsz := mapSize_withLength h rest
  have hlen : (withLength map ++ rest).length = 4 + map.length + rest.length := by
    simp [withLength, Nat.add_assoc]
  have hle := h.2.1
  unfold takeMap mapLengthSize
  rw [hsz, if_neg (by omega), if_neg (by omega), if_neg (by omega), ← drop_drop, withLength,
    append_assoc, drop_left' (by simp), take_left' rfl, drop_left' rfl]

theorem takeMap_begun (h : Sendable maximumSize map)
    (hft : body <+: withLength map) (hlt : body.length < (withLength map).length) :
    takeMap maximumSize body = .ok none := by
  have hlen : (withLength map).length = 4 + map.length := by simp [withLength]
  have hpos := length_pos_of_ne_nil h.1
  have hle := h.2.1
  unfold takeMap
  by_cases hsh : body.length < mapLengthSize
  · rw [if_pos hsh]
  · obtain ⟨_, hmr⟩ := hft
    have hsz := mapSize_withLength h []
    rw [append_nil, ← hmr, mapSize_append (not_lt.mp hsh)] at hsz
    rw [if_neg hsh, hsz, if_neg (by omega), mapLengthSize, if_pos (by omega)]

variable {requests : List (Option Bytes)} {n : ℕ}

/-- **Maps are returned in order**, and what is left is what has not been returned. -/
theorem calls_eq {future : Bytes} (hmp : ∀ map ∈ maps, Sendable maximumSize map)
    (h : body ++ (requests.reduceOption.flatten ++ future) = maps.flatMap withLength) :
    ∃ taken rest left, maps = taken ++ rest ∧ calls maximumSize requests body = .ok (taken, left)
      ∧ left ++ future = rest.flatMap withLength := by
  induction requests generalizing body maps with
  | nil => exact ⟨[], maps, body, rfl, rfl, h⟩
  | cons req requests ih =>
    cases req with
    | some piece =>
      have h : body ++ ((piece :: requests.reduceOption).flatten ++ future) = _ := h
      rw [flatten_cons, append_assoc, ← append_assoc body] at h
      exact ih hmp h
    | none =>
      obtain ⟨map, maps, left, rfl, rfl, hlf⟩ | hca := StreamDecoding.front_cases h
      · obtain ⟨hmap, hmp⟩ := forall_mem_cons.mp hmp
        obtain ⟨taken, rest, body, rfl, hcl, hbd⟩ := ih hmp hlf
        refine ⟨map :: taken, rest, body, rfl, ?_, hbd⟩
        unfold calls
        rw [takeMap_complete hmap]
        show (calls maximumSize requests left >>= _) = _
        rw [hcl]
        rfl
      · obtain ⟨taken, rest, left, hsp, hcl, hlf⟩ := ih hmp h
        refine ⟨taken, rest, left, hsp, ?_, hlf⟩
        have hno : takeMap maximumSize body = .ok none := by
          obtain rfl | ⟨map, hmap, hft, hlt⟩ := hca.unfinished hmp
          · rfl
          · exact takeMap_begun hmap hft hlt
        unfold calls
        rw [hno]
        exact hcl

theorem calls_replicate (hmp : ∀ map ∈ maps, Sendable maximumSize map) (hn : maps.length ≤ n) :
    calls maximumSize (replicate n none) (maps.flatMap withLength) = .ok (maps, []) := by
  induction n generalizing maps with
  | zero =>
    obtain rfl := eq_nil_of_length_eq_zero (Nat.le_zero.mp hn)
    rfl
  | succ n ih =>
    rw [replicate_succ, calls]
    cases maps with
    | nil => exact ih hmp (Nat.zero_le n)
    | cons _ maps =>
      obtain ⟨hmap, hmp⟩ := forall_mem_cons.mp hmp
      rw [flatMap_cons, takeMap_complete hmap]
      show (calls maximumSize (replicate n none) (maps.flatMap withLength) >>= _) = _
      rw [ih hmp (Nat.le_of_succ_le_succ hn)]
      rfl

/-- **Taking as many maps as are left** leaves nothing. -/
theorem calls_take {taken : List Bytes} (hmp : ∀ map ∈ maps, Sendable maximumSize map)
    (h : calls maximumSize requests body = .ok (taken, maps.flatMap withLength))
    (hn : maps.length ≤ n) :
    calls maximumSize (requests ++ replicate n none) body = .ok (taken ++ maps, []) := by
  induction requests generalizing body taken with
  | nil =>
    cases h
    exact calls_replicate hmp hn
  | cons request requests ih =>
    cases request with
    | some => exact ih h
    | none =>
      rw [cons_append]
      unfold calls at h ⊢
      cases htk : takeMap maximumSize body with
      | error =>
        rw [htk] at h
        cases h
      | ok result =>
        rw [htk] at h
        cases result with
        | none => exact ih h
        | some result =>
          have h : (calls maximumSize requests result.2 >>= _) = _ := h
          obtain ⟨⟨_, _⟩, hcl, hok⟩ := Throwing.of_bind_ok h
          cases hok
          show (calls maximumSize (requests ++ _) result.2 >>= _) = _
          rw [ih hcl]
          rfl

end MapStreamResponse

/-- **Streams may be cut anywhere.** However a text is cut, the frames taken after each piece
are those of the whole text, and what is left is the same; nothing is left of whole frames.
And however maps within a limit are cut and whenever one is asked for, they are returned in
order, all of them once each has been asked for. -/
theorem streams_cut_anywhere : (∀ pieces : List Bytes,
      (H2Codec.framing.takePieces pieces []).1.flatten
        = (H2Codec.takeCompleteFrames pieces.flatten).1
      ∧ (H2Codec.framing.takePieces pieces []).2 = (H2Codec.takeCompleteFrames pieces.flatten).2
      ∧ ∀ ws : List H2Codec.WireFrame, pieces.flatten = ws.flatMap H2Codec.WireFrame.bytes →
        (H2Codec.framing.takePieces pieces []).1.flatten = ws.map H2Codec.WireFrame.frame
        ∧ (H2Codec.framing.takePieces pieces []).2 = [])
    ∧ ∀ (maximumSize : ℕ) (maps : List Bytes) (requests : List (Option Bytes)),
      (∀ map ∈ maps, MapStreamResponse.Sendable maximumSize map) →
      requests.reduceOption.flatten = maps.flatMap withLength →
      (∃ taken rest, maps = taken ++ rest ∧ calls maximumSize requests []
        = .ok (taken, rest.flatMap withLength))
      ∧ ∀ n, maps.length ≤ n → calls maximumSize
        (requests ++ replicate n none) [] = .ok (maps, []) := by
  refine ⟨fun pieces => ?_, fun maximumSize maps requests hmp h => ?_⟩
  · obtain ⟨htn, hlf⟩ := Framing.takePieces_eq pieces (Framing.take_nil (F := H2Codec.framing))
    rw [nil_append] at htn hlf
    refine ⟨htn, hlf, fun ws hws => ?_⟩
    rw [htn, hlf, hws, Framing.takeAll_flatMap fun w _ => w.take_bytes]
    exact ⟨rfl, rfl⟩
  · have hall : [] ++ (requests.reduceOption.flatten ++ []) = _ := (append_nil _).trans h
    obtain ⟨taken, rest, left, rfl, hcl, hlf⟩ := calls_eq hmp hall
    obtain rfl := (append_nil left).symm.trans hlf
    refine ⟨⟨taken, rest, rfl, hcl⟩, fun n hn => ?_⟩
    rw [length_append] at hn
    exact calls_take (fun map hmap => hmp map (mem_append_right _ hmap)) hcl (by omega)

end Tailgate
