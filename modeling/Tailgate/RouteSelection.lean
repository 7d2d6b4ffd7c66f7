import Mathlib.Data.List.MinMax
import Tailgate.PacketRouting

/-!
# Longest-prefix match

Of the prefixes that fit the destination, `findRoute` looks for the longest, and
of several the first; if nothing fits, the exit is asked whether it is one. The
prefixes that count are `candidates`, and the loop is `List.argmax` of their
lengths. `Owns` says which fit without looking at bits: an address and the prefix
have the same leading part.
-/

namespace Tailgate

open List Nat Ipv4Address

/-! ## Prefixes -/

namespace Ipv4Prefix

/-- **An address matches a prefix**: the leading part of the address, followed
by zeros, is the prefix. -/
def Matches (p : Ipv4Prefix) (address : ℕ) : Prop :=
  address / 2 ^ (32 - p.prefixLength) * 2 ^ (32 - p.prefixLength) = p.network

instance (p : Ipv4Prefix) (address : ℕ) : Decidable (p.Matches address) :=
  inferInstanceAs (Decidable (_ = _))

variable {address : ℕ}

theorem and_shiftLeft_ones {k : ℕ} (had : address < 2 ^ 32) (hk : k ≤ 32) :
    address &&& (2 ^ (32 - k) - 1) <<< k = address / 2 ^ k * 2 ^ k := by
  rw [← shiftRight_eq_div_pow, ← shiftLeft_eq]
  refine eq_of_testBit_eq fun i => ?_
  rw [testBit_and, testBit_shiftLeft, testBit_shiftLeft, testBit_two_pow_sub_one,
    testBit_shiftRight]
  by_cases hi : k ≤ i
  · rw [Nat.add_sub_cancel' hi]
    by_cases h32 : i < 32
    · simp [hi, show i - k < 32 - k by omega]
    · have hzero : address.testBit i = false :=
        Nat.testBit_lt_two_pow (had.trans_le (Nat.pow_le_pow_right (by omega) (by omega)))
      simp [hzero]
  · simp [hi]

theorem prefixMask_eq {len : ℕ} (hlen : len ≤ 32) :
    prefixMask len = (2 ^ len - 1) <<< (32 - len) := by
  interval_cases len <;> rfl

/-- **The test of the program is that the address matches.** -/
theorem contains_iff {p : Ipv4Prefix} (hp : p.prefixLength ≤ 32)
    (had : address < 2 ^ 32) : p.contains address ↔ p.Matches address := by
  have hand := and_shiftLeft_ones had (sub_le 32 p.prefixLength)
  rw [Nat.sub_sub_self hp] at hand
  unfold contains Matches
  rw [prefixMask_eq hp, hand, beq_iff_eq]

end Ipv4Prefix

/-! ## The loop -/

namespace NetworkConfig

variable (c : NetworkConfig) (destination : ℕ) (exitNode : Option ℕ)

def counts (index : ℕ) (p : Ipv4Prefix) : Bool :=
  !(p.prefixLength == 0 && exitNode != some index) && p.contains destination

/-- **The prefixes that count**, with the peers they are of, in order. -/
def candidates : List (ℕ × ℕ) :=
  c.peers.zipIdx.flatMap fun peer =>
    (peer.1.allowedPrefixes.filter (counts destination exitNode peer.2)).map fun p =>
      (peer.2, p.prefixLength)

/-- To consider a prefix is to compare it with the longest one, if it
counts. -/
theorem considerPrefix_eq (idx : ℕ) (best : Option (ℕ × ℕ)) (p : Ipv4Prefix) :
    considerPrefix destination exitNode idx best p
      = if counts destination exitNode idx p then
          argAux (fun b a => a.2 < b.2) best (idx, p.prefixLength)
        else
          best := by
  unfold considerPrefix counts
  by_cases hsk : p.prefixLength = 0 ∧ exitNode ≠ some idx
  · simp [hsk]
  · have hcn : (!(p.prefixLength == 0 && exitNode != some idx)) = true := by
      simpa [imp_iff_not_or] using hsk
    rw [if_neg hsk, hcn, Bool.true_and]
    cases best with
    | none => simp [argAux]
    | some =>
      by_cases hp : p.contains destination <;> simp [argAux, hp]

/-- **The loop keeps the first of the longest prefixes that count.** -/
theorem foldl_considerPeer : c.peers.zipIdx.foldl (considerPeer destination exitNode) none
      = (c.candidates destination exitNode).argmax Prod.snd := by
  unfold candidates argmax
  rw [foldl_flatMap]
  congr 1
  funext best peer
  unfold considerPeer
  rw [foldl_map, foldl_filter]
  congr 1
  funext best p
  exact considerPrefix_eq destination exitNode peer.2 best p

theorem pairwise_candidates :
    (c.candidates destination exitNode).Pairwise fun a b => a.1 ≤ b.1 := by
  unfold candidates
  rw [pairwise_flatMap]
  refine ⟨fun peer _ => ?_, ?_⟩
  · rw [pairwise_map]
    exact pairwise_of_forall fun _ _ => le_rfl
  · have hsr : c.peers.zipIdx.Pairwise fun a b => a.2 < b.2 := by
      rw [← pairwise_map (f := Prod.snd), zipIdx_map_snd]
      exact pairwise_lt_range'
    refine hsr.imp fun hlt a ha b hb => ?_
    obtain ⟨_, -, rfl⟩ := mem_map.mp ha
    obtain ⟨_, -, rfl⟩ := mem_map.mp hb
    exact hlt.le

def Owns (destination index length : ℕ) : Prop :=
  ∃ peer, c.peers[index]? = some peer ∧
    ∃ p ∈ peer.allowedPrefixes, p.Matches destination ∧ p.prefixLength = length

variable {c destination}
  (hc : ∀ peer ∈ c.peers, ∀ p ∈ peer.allowedPrefixes, p.prefixLength ≤ 32)
  (hds : destination < 2 ^ 32)

include hc hds in
/-- What counts is what matches, but for the prefixes that say nothing and are
not of the exit. -/
theorem mem_candidates (exitNode : Option ℕ) (idx len : ℕ) :
    (idx, len) ∈ c.candidates destination exitNode ↔
      c.Owns destination idx len ∧ (len = 0 → exitNode = some idx) := by
  have hcn : ∀ peer ∈ c.peers, ∀ p ∈ peer.allowedPrefixes,
      counts destination exitNode idx p = true ↔
        p.Matches destination ∧ (p.prefixLength = 0 → exitNode = some idx) := by
    intro peer hpr p hp
    rw [← Ipv4Prefix.contains_iff (hc peer hpr p hp) hds]
    simp [counts, imp_iff_not_or, and_comm]
  unfold candidates Owns
  simp only [mem_flatMap, mem_map, mem_filter, Prod.exists, Prod.mk.injEq, mem_zipIdx_iff_getElem?]
  constructor
  · rintro ⟨peer, _, hpr, p, ⟨hp, hct⟩, rfl, rfl⟩
    obtain ⟨hma, hex⟩ := (hcn peer (mem_of_getElem? hpr) p hp).mp hct
    exact ⟨⟨peer, hpr, p, hp, hma, rfl⟩, hex⟩
  · rintro ⟨⟨peer, hpr, p, hp, hma, rfl⟩, hex⟩
    have hct := (hcn peer (mem_of_getElem? hpr) p hp).mpr ⟨hma, hex⟩
    exact ⟨peer, idx, hpr, p, ⟨hp, hct⟩, rfl, rfl⟩

/-- In a list in the order of the peers, what comes first is of an earlier
peer. -/
theorem le_of_idxOf_le {α : Type} [DecidableEq α] {f : α → ℕ} {l : List α}
    (hl : l.Pairwise fun a b => f a ≤ f b) {a b : α} (ha : a ∈ l) (hb : b ∈ l)
    (h : l.idxOf a ≤ l.idxOf b) : f a ≤ f b := by
  obtain heq | hlt := h.eq_or_lt
  · rw [idxOf_inj ha] at heq
    rw [heq]
  · have hle := pairwise_iff_getElem.mp hl (l.idxOf a) (l.idxOf b)
      (idxOf_lt_length_of_mem ha) (idxOf_lt_length_of_mem hb) hlt
    rwa [getElem_idxOf, getElem_idxOf] at hle

theorem findRoute_eq (c : NetworkConfig) (destination : ℕ) (exitNode : Option ℕ) :
    c.findRoute destination exitNode =
      match (c.candidates destination exitNode).argmax Prod.snd with
      | some (idx, _) => some idx
      | none => exitNode.filter fun idx => c.peers[idx]?.any PeerConfig.exitNodeOption :=
  congrArg (fun best => match best with
    | some (idx, _) => some idx
    | none => exitNode.filter fun idx => c.peers[idx]?.any PeerConfig.exitNodeOption)
    (foldl_considerPeer c destination exitNode)

variable {exitNode}

include hc hds in
/-- **The best candidate** owns a prefix that no prefix which says something is
longer than, and none of its length is of an earlier peer. -/
theorem longest_of_argmax {rt longest : ℕ}
    (hbs : (c.candidates destination exitNode).argmax Prod.snd = some (rt, longest)) :
    c.Owns destination rt longest ∧ (longest = 0 → exitNode = some rt) ∧
      ∀ i l, 0 < l → c.Owns destination i l → l ≤ longest ∧ (l = longest → rt ≤ i) := by
  obtain ⟨hin, hmax, hfi⟩ := mem_argmax_iff.mp hbs
  obtain ⟨how, hex⟩ := (mem_candidates hc hds exitNode rt longest).mp hin
  refine ⟨how, hex, fun i l hl hi => ?_⟩
  have hcn : (i, l) ∈ c.candidates destination exitNode :=
    (mem_candidates hc hds exitNode i l).mpr ⟨hi, fun h => by omega⟩
  refine ⟨hmax _ hcn, ?_⟩
  rintro rfl
  exact le_of_idxOf_le (pairwise_candidates c destination exitNode) hin hcn (hfi _ hcn le_rfl)

include hc hds in
/-- Without a candidate, nobody owns a prefix that says something, and the exit
owns none. -/
theorem not_owns_of_argmax
    (hbs : (c.candidates destination exitNode).argmax Prod.snd = none) (i l : ℕ)
    (hex : l = 0 → exitNode = some i) : ¬c.Owns destination i l := by
  intro how
  have hcn := (mem_candidates hc hds exitNode i l).mpr ⟨how, hex⟩
  rw [argmax_eq_none.mp hbs] at hcn
  exact not_mem_nil hcn

/-- **Routes are selected by the longest prefix.** If a prefix that says
something matches, the route is the first peer that owns one of the greatest
length. If none does, it is the exit, provided that there is such a peer and
it owns a prefix that says nothing or is an exit by itself. -/
theorem findRoute_longest_match {c : NetworkConfig} {destination : ℕ}
    (hc : ∀ peer ∈ c.peers, ∀ p ∈ peer.allowedPrefixes, p.prefixLength ≤ 32)
    (hdestination : destination < 2 ^ 32) (exitNode : Option ℕ) :
    (∀ index length, 0 < length → c.Owns destination index length →
      ∃ route longest, c.findRoute destination exitNode = some route ∧
        c.Owns destination route longest ∧
        (∀ i l, c.Owns destination i l → l ≤ longest) ∧
        ∀ i, c.Owns destination i longest → route ≤ i) ∧
    ((∀ index length, c.Owns destination index length → length = 0) →
      ∀ route, c.findRoute destination exitNode = some route ↔
        exitNode = some route ∧ route < c.peers.length ∧
          (c.Owns destination route 0 ∨ c.peers[route]?.any (·.exitNodeOption))) := by
  have hrt := c.findRoute_eq destination exitNode
  cases hbs : (c.candidates destination exitNode).argmax Prod.snd with
  | none =>
    rw [hbs] at hrt
    have hno := not_owns_of_argmax hc hdestination hbs
    refine ⟨fun index length hlen how => ?_, fun _ route => ?_⟩
    · exact absurd how (hno index length fun h => by omega)
    · rw [hrt, Option.filter_eq_some_iff]
      refine and_congr_right fun hex => ⟨fun h => ⟨?_, .inr h⟩, fun ⟨_, h⟩ => ?_⟩
      · by_contra hlt
        rw [List.getElem?_eq_none (by omega)] at h
        cases h
      · exact h.resolve_left (hno route 0 fun _ => hex)
  | some best =>
    obtain ⟨route, longest⟩ := best
    rw [hbs] at hrt
    obtain ⟨how, hex, hln⟩ := longest_of_argmax hc hdestination hbs
    constructor
    · intro index length hlen hix
      have hpos : 0 < longest := hlen.trans_le (hln index length hlen hix).1
      refine ⟨route, longest, hrt, how, fun i l hi => ?_, fun i hi => ?_⟩
      · obtain rfl | hl := Nat.eq_zero_or_pos l
        · exact zero_le _
        · exact (hln i l hl hi).1
      · exact (hln i longest hpos hi).2 rfl
    · -- The best candidate says nothing, so it is the exit's.
      intro hzero _
      have hlen : longest = 0 := hzero route longest how
      subst hlen
      rw [hrt, hex rfl]
      refine ⟨fun h => ⟨h, ?_, .inl ?_⟩, fun h => h.1⟩
      · obtain ⟨_, hpr, -⟩ := how
        rw [← Option.some.inj h]
        exact (List.getElem?_eq_some_iff.mp hpr).1
      · rw [← Option.some.inj h]
        exact how

/-- A configuration with a subnet, a part of it at another peer, and an
exit. -/
def threePeers : NetworkConfig where
  peers := [
    { allowedPrefixes := [⟨ofOctets [10, 0, 0, 0], 8⟩] },
    { allowedPrefixes := [⟨ofOctets [10, 1, 0, 0], 16⟩] },
    { allowedPrefixes := [⟨0, 0⟩], exitNodeOption := true }]

/-- The second peer owns a prefix for an address of the part, so there is a
route. -/
theorem threePeers_longest_match : threePeers.Owns (ofOctets [10, 1, 2, 3]) 1 16 ∧ ∃ route longest,
        threePeers.findRoute (ofOctets [10, 1, 2, 3]) (some 2) = some route ∧
          threePeers.Owns (ofOctets [10, 1, 2, 3]) route longest ∧
          (∀ i l, threePeers.Owns (ofOctets [10, 1, 2, 3]) i l → l ≤ longest) ∧
          ∀ i, threePeers.Owns (ofOctets [10, 1, 2, 3]) i longest → route ≤ i := by
  have how : threePeers.Owns (ofOctets [10, 1, 2, 3]) 1 16 :=
    ⟨_, rfl, _, mem_singleton_self _, by decide, rfl⟩
  exact ⟨how, (findRoute_longest_match (by decide) (by decide) (some 2)).1 1 16 (by decide) how⟩

end NetworkConfig

end Tailgate
