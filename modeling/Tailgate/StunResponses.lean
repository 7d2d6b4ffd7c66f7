import Tailgate.Addresses
import Tailgate.BigEndian

/-!
# Answers of a STUN server

The attributes of an answer are looked for in the message it declares, but an
attribute only has to end in the datagram. One that ends behind the message may
be reported (`read_behind_message`), and otherwise what stands there does not
matter (`parseMappedIpv4Endpoint_take`). A read outside of the datagram is
`none`, and there is none.
-/

namespace Tailgate

namespace Stun

open BigEndian List

def bindingSuccessResponse : ℕ := 0x0101

def xorMappedAddressAttribute : ℕ := 0x0020

def alternateXorMappedAddressAttribute : ℕ := 0x8020

def magicCookie : ℕ := 0x2112A442

def headerSize : ℕ := 20

def ipv4XorMappedAddressSize : ℕ := 8

/-- The endpoint of an attribute, if it is one with an IPv4 endpoint. -/
def mappedEndpoint (response : Bytes) (type length offset : ℕ) : Option (Option Endpoint) :=
  if (type = xorMappedAddressAttribute ∨ type = alternateXorMappedAddressAttribute)
      ∧ ipv4XorMappedAddressSize ≤ length then do
    let family ← readAt 1 (offset + 1) response
    if family = 0x01 then
      let port ← readAt 2 (offset + 2) response
      let address ← readAt 4 (offset + 4) response
      return some { address := address ^^^ magicCookie, port := port ^^^ magicCookie >>> 16 }
    else return none
  else return none

/-- Where the attribute behind one with a value of this length starts. -/
def nextAttribute (offset length : ℕ) : ℕ := offset + 4 + (length + 3) / 4 * 4

def parseAttributes (response : Bytes) (last offset : ℕ) : Option (Option Endpoint) :=
  if offset + 4 ≤ last then
    match readAt 2 offset response, readAt 2 (offset + 2) response with
    | some type, some length =>
      if offset + 4 + length > response.length then some none
      else
        match mappedEndpoint response type length (offset + 4) with
        | none => none
        | some (some endpoint) => some (some endpoint)
        | some none => parseAttributes response last (nextAttribute offset length)
    | _, _ => none
  else some none
termination_by last - offset
decreasing_by unfold nextAttribute; omega

/-- **The endpoint an answer reports.** -/
def parseMappedIpv4Endpoint (transaction response : Bytes) : Option (Option Endpoint) :=
  if response.length < headerSize then some none
  else do
    let type ← readAt 2 0 response
    let cookie ← readAt 4 4 response
    let id ← bytesAt 12 8 response
    let messageLength ← readAt 2 2 response
    if type ≠ bindingSuccessResponse ∨ cookie ≠ magicCookie ∨ id ≠ transaction
        ∨ headerSize + messageLength > response.length then return none
    else parseAttributes response (headerSize + messageLength) headerSize

/-- An attribute that ends behind the message is visited and reported. -/
inductive ReportsBehind (response : Bytes) (last : ℕ) : ℕ → Prop
  | here {offset type length : ℕ} {endpoint : Endpoint} (h : offset + 4 ≤ last)
    (htype : readAt 2 offset response = some type)
    (hlen : readAt 2 (offset + 2) response = some length)
    (hin : offset + 4 + length ≤ response.length)
    (hmapped : mappedEndpoint response type length (offset + 4) = some (some endpoint))
    (hbehind : last < offset + 4 + length) : ReportsBehind response last offset
  | next {offset type length : ℕ} (h : offset + 4 ≤ last)
    (htype : readAt 2 offset response = some type)
    (hlen : readAt 2 (offset + 2) response = some length)
    (hin : offset + 4 + length ≤ response.length)
    (hmapped : mappedEndpoint response type length (offset + 4) = some none)
    (hrest : ReportsBehind response last (nextAttribute offset length)) :
    ReportsBehind response last offset

/-- The header is that of an answer to the request, with a message of this length. -/
def Accepted (transaction response : Bytes) (messageLength : ℕ) : Prop :=
  readAt 2 0 response = some bindingSuccessResponse ∧ readAt 4 4 response = some magicCookie
    ∧ bytesAt 12 8 response = some transaction ∧ headerSize + messageLength ≤ response.length

variable {response : Bytes} {offset last type length : ℕ}

theorem mappedEndpoint_ne_none (h : offset + length ≤ response.length) :
    mappedEndpoint response type length offset ≠ none := by
  unfold mappedEndpoint
  split
  · next hmapped =>
    have hsize : 8 ≤ length := hmapped.2
    obtain ⟨_, hf⟩ := exists_readAt response 1 (offset + 1) (by omega)
    obtain ⟨_, hp⟩ := exists_readAt response 2 (offset + 2) (by omega)
    obtain ⟨_, ha⟩ := exists_readAt response 4 (offset + 4) (by omega)
    rw [hf, hp, ha]
    dsimp only [bind, Option.bind, pure]
    split <;> exact Option.some_ne_none _
  · exact Option.some_ne_none _

theorem mappedEndpoint_take (h : offset + length ≤ last) (hlast : last ≤ response.length) :
    mappedEndpoint (response.take last) type length offset
      = mappedEndpoint response type length offset := by
  unfold mappedEndpoint
  split
  · next hmapped =>
    have hsize : 8 ≤ length := hmapped.2
    rw [readAt_take (by omega) hlast, readAt_take (by omega) hlast, readAt_take (by omega) hlast]
  · rfl

theorem parseAttributes_ne_none (hlast : last ≤ response.length) :
    parseAttributes response last offset ≠ none := by
  fun_induction parseAttributes response last offset with
  | case1 | case3 | case6 => exact Option.some_ne_none _
  | case2 _ _ _ _ _ _ _ hnone =>
    exact absurd hnone (mappedEndpoint_ne_none (by omega))
  | case4 _ _ _ _ _ _ _ _ ih => exact ih
  | case5 offset _ hno =>
    obtain ⟨type, ht⟩ := exists_readAt response 2 offset (by omega)
    obtain ⟨length, hl⟩ := exists_readAt response 2 (offset + 2) (by omega)
    exact absurd hl (hno type length ht)

theorem ReportsBehind.lt (h : ReportsBehind response last offset) : offset + 4 ≤ last := by
  cases h with
  | here h | next h => exact h

/-- One turn of the loop over the message alone. -/
theorem parseAttributes_take (h : offset + 4 ≤ last) (hlast : last ≤ response.length)
    (htype : readAt 2 offset response = some type)
    (hlen : readAt 2 (offset + 2) response = some length) :
    parseAttributes (response.take last) last offset =
      if last < offset + 4 + length then some none
      else match mappedEndpoint response type length (offset + 4) with
        | none => none
        | some (some endpoint) => some (some endpoint)
        | some none => parseAttributes (response.take last) last (nextAttribute offset length) := by
  rw [parseAttributes, if_pos h, readAt_take (by omega) hlast, readAt_take (by omega) hlast, htype,
    hlen, length_take, Nat.min_eq_left hlast]
  dsimp only
  split
  · rfl
  · rw [mappedEndpoint_take (by omega) hlast]

/-- The loop finds in the message what it finds in the datagram, unless it
reports an attribute that ends behind the message. -/
theorem parseAttributes_take_iff (hlast : last ≤ response.length) :
    parseAttributes (response.take last) last offset = parseAttributes response last offset
      ↔ ¬ReportsBehind response last offset := by
  fun_induction parseAttributes response last offset with
  | case1 offset h type length hl ht hout =>
    rw [parseAttributes_take h hlast ht hl, if_pos (by omega)]
    refine iff_of_true rfl fun hrep => ?_
    cases hrep with
    | here _ _ hl' hin | next _ _ hl' hin =>
      cases hl.symm.trans hl'
      omega
  | case2 _ _ _ _ _ _ _ hno => exact absurd hno (mappedEndpoint_ne_none (by omega))
  | case3 offset h type length hl ht hin endpoint hmp =>
    rw [parseAttributes_take h hlast ht hl, hmp]
    split
    · next hbehind =>
      exact iff_of_false nofun (not_not.mpr (.here h ht hl (by omega) hmp hbehind))
    · refine iff_of_true rfl fun hrep => ?_
      cases hrep with
      | here _ _ hl' =>
        cases hl.symm.trans hl'
        omega
      | next _ ht' hl' _ hno =>
        cases ht.symm.trans ht'
        cases hl.symm.trans hl'
        cases hmp.symm.trans hno
  | case4 offset h type length hl ht hin hmp ih =>
    have hiff : ReportsBehind response last offset ↔
        ReportsBehind response last (nextAttribute offset length) := by
      refine ⟨fun hrep => ?_, .next h ht hl (by omega) hmp⟩
      cases hrep with
      | here _ ht' hl' _ hyes =>
        cases ht.symm.trans ht'
        cases hl.symm.trans hl'
        cases hmp.symm.trans hyes
      | next _ _ hl' _ _ hrest =>
        cases hl.symm.trans hl'
        exact hrest
    rw [parseAttributes_take h hlast ht hl, hmp, hiff, ← ih]
    split
    · -- behind an attribute that ends behind the message the loop ends
      have hend : ¬nextAttribute offset length + 4 ≤ last := by
        unfold nextAttribute
        omega
      rw [parseAttributes, if_neg hend, parseAttributes, if_neg hend]
    · rfl
  | case5 offset _ hno =>
    obtain ⟨type, ht⟩ := exists_readAt response 2 offset (by omega)
    obtain ⟨length, hl⟩ := exists_readAt response 2 (offset + 2) (by omega)
    exact absurd hl (hno type length ht)
  | case6 offset h =>
    rw [parseAttributes, if_neg h]
    exact iff_of_true rfl fun hrep => h hrep.lt

/-- **What an answer reports.** No read is outside of the datagram. What stands behind the
declared message matters exactly if an attribute that ends there is reported. -/
theorem parseMappedIpv4Endpoint_take (transaction response : Bytes) :
    parseMappedIpv4Endpoint transaction response ≠ none
      ∧ ∀ messageLength, readAt 2 2 response = some messageLength →
        (parseMappedIpv4Endpoint transaction (response.take (headerSize + messageLength))
            = parseMappedIpv4Endpoint transaction response
          ↔ ¬(Accepted transaction response messageLength
            ∧ ReportsBehind response (headerSize + messageLength) headerSize)) := by
  by_cases hsize : response.length < headerSize
  · refine ⟨by rw [parseMappedIpv4Endpoint, if_pos hsize]; exact Option.some_ne_none _,
      fun messageLength _ => iff_of_true ?_ ?_⟩
    · rw [take_of_length_le (by omega)]
    · rintro ⟨⟨-, -, -, hlast⟩, -⟩
      omega
  · have hheader : 20 ≤ response.length := Nat.le_of_not_lt hsize
    obtain ⟨type, ht⟩ := exists_readAt response 2 0 (by omega)
    obtain ⟨cookie, hc⟩ := exists_readAt response 4 4 (by omega)
    obtain ⟨id, hid⟩ : ∃ id, bytesAt 12 8 response = some id := ⟨_, if_pos (by omega)⟩
    obtain ⟨_, hm⟩ := exists_readAt response 2 2 (by omega)
    constructor
    · rw [parseMappedIpv4Endpoint, if_neg hsize, ht, hc, hid, hm]
      dsimp only [bind, Option.bind, pure]
      split
      · exact Option.some_ne_none _
      · next hok => exact parseAttributes_ne_none (by omega)
    · intro n hn
      by_cases hlast : headerSize + n ≤ response.length
      · have htake : (response.take (headerSize + n)).length = headerSize + n := by
          rw [length_take, Nat.min_eq_left hlast]
        have hfirst : 20 ≤ headerSize + n := Nat.le_add_right 20 n
        unfold parseMappedIpv4Endpoint Accepted
        rw [if_neg hsize, htake, if_neg (by omega), readAt_take (by omega) hlast,
          readAt_take (by omega) hlast, bytesAt_take (by omega) hlast,
          readAt_take (by omega) hlast, hn, ht, hc, hid]
        dsimp only [bind, Option.bind, pure]
        by_cases hok : type = bindingSuccessResponse ∧ cookie = magicCookie ∧ id = transaction
        · obtain ⟨rfl, rfl, rfl⟩ := hok
          rw [if_neg (by simp), if_neg (by simpa using hlast), parseAttributes_take_iff hlast]
          simp [hlast]
        · rw [if_pos (by tauto), if_pos (by tauto)]
          refine iff_of_true rfl fun h => hok ?_
          exact ⟨Option.some.inj h.1.1, Option.some.inj h.1.2.1, Option.some.inj h.1.2.2.1⟩
      · refine iff_of_true ?_ fun h => hlast h.1.2.2.2
        rw [take_of_length_le (by omega)]

/-- An answer with a name and an endpoint, and four bytes behind its message. -/
def trailed : Bytes :=
  [1, 1, 0, 20, 0x21, 0x12, 0xA4, 0x42] ++ replicate 12 0 ++ [0x80, 0x22, 0, 3, 0x61, 0x62, 0x63, 0]
    ++ [0, 0x20, 0, 8, 0, 1, 0x21, 0x13, 0x21, 0x12, 0xA4, 0x43] ++ [0, 0x20, 0, 0]

theorem parseMappedIpv4Endpoint_take_trailed : trailed.length = headerSize + 20 + 4
    ∧ Accepted (replicate 12 0) trailed 20
    ∧ parseMappedIpv4Endpoint (replicate 12 0) (trailed.take (headerSize + 20))
      = parseMappedIpv4Endpoint (replicate 12 0) trailed := by
  refine ⟨by decide, ⟨by decide, by decide, by decide, by decide⟩,
    ((parseMappedIpv4Endpoint_take _ trailed).2 20 (by decide)).mpr ?_⟩
  rintro ⟨-, h⟩
  have hname : readAt 2 (headerSize + 2) trailed = some 3 := by decide
  have hsize : readAt 2 (nextAttribute headerSize 3 + 2) trailed = some 8 := by decide
  cases h with
  | here _ _ hl _ _ hbehind =>
    cases hname.symm.trans hl
    exact absurd hbehind (by decide)
  | next _ _ hl _ _ hrest =>
    cases hname.symm.trans hl
    cases hrest with
    | here _ _ hl _ _ hbehind =>
      cases hsize.symm.trans hl
      exact absurd hbehind (by decide)
    | next _ ht hl _ hno =>
      cases hsize.symm.trans hl
      cases (by decide : readAt 2 (nextAttribute headerSize 3) trailed = some 0x20).symm.trans ht
      exact absurd hno (by decide)

/-- An answer whose message of four bytes is the header of an attribute. -/
def headerOnly : Bytes :=
  [1, 1, 0, 4, 0x21, 0x12, 0xA4, 0x42] ++ replicate 12 0 ++ [0, 0x20, 0, 8]

/-- **What stands behind the message is read.** -/
theorem read_behind_message : readAt 2 2 headerOnly = some 4 ∧ headerOnly.length = headerSize + 4
    ∧ parseMappedIpv4Endpoint (replicate 12 0) headerOnly = some none
    ∧ parseMappedIpv4Endpoint (replicate 12 0)
      (headerOnly ++ [0, 1, 0x21, 0x13, 0x21, 0x12, 0xA4, 0x43])
        = some (some { address := 1, port := 1 }) := by
  refine ⟨by decide, by decide, ?_, ?_⟩
  all_goals decide +kernel

end Stun

end Tailgate
