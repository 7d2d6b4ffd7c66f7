import Tailgate.RelayCodec

/-!
# Routes that come over a relay

Packets are routed by the prefixes of the peers in the maps that a relay session
carries. A prefix has a number of eight bits there, and its mask is made by a
shift by the difference to 32. `findRoute?` has no result once it has come to a
shift that is not defined. Whether lookups are defined is a matter of the text
alone: `decoded_lookups_defined`.
-/

namespace Tailgate

open Throwing List

/-! ## Shifts -/

/-- How far a mask is shifted. The difference is one of numbers of 32 bits. -/
def prefixShift (prefixLength : ℕ) : ℕ := ((32 - prefixLength : ℤ) % 2 ^ 32).toNat

namespace Ipv4Prefix

/-- The mask of a prefix is defined: nothing is shifted, or by less than the
width of an address. -/
def MaskDefined (p : Ipv4Prefix) : Prop := p.prefixLength = 0 ∨ prefixShift p.prefixLength < 32

instance (p : Ipv4Prefix) : Decidable p.MaskDefined := inferInstanceAs (Decidable (_ ∨ _))

def contains? (p : Ipv4Prefix) (address : ℕ) : Option Bool :=
  if p.MaskDefined then some (p.contains address) else none

/-- **A mask is defined for no more than 32 bits.** -/
theorem maskDefined_iff {p : Ipv4Prefix} (h : p.prefixLength < 2 ^ 8) :
    p.MaskDefined ↔ p.prefixLength ≤ 32 := by
  unfold MaskDefined prefixShift
  constructor
  · intro _
    by_contra hln
    -- a longer prefix leaves a negative difference, which wraps around
    omega
  · intro _
    omega

end Ipv4Prefix

/-! ## Lookups -/

namespace NetworkConfig

/-- Consider a prefix of a peer, if its mask is defined. One that says nothing
is not looked at except at the exit. -/
def considerPrefix? (destination : ℕ) (exitNode : Option ℕ) (index : ℕ)
    (best : Option (ℕ × ℕ)) (p : Ipv4Prefix) : Option (Option (ℕ × ℕ)) :=
  if p.prefixLength = 0 ∧ exitNode ≠ some index then some best
  else do
    let fits ← p.contains? destination
    if fits ∧ best.all (fun b => b.2 < p.prefixLength) then
      some (some (index, p.prefixLength))
    else
      some best

def considerPeer? (destination : ℕ) (exitNode : Option ℕ) (best : Option (ℕ × ℕ))
    (peer : PeerConfig × ℕ) : Option (Option (ℕ × ℕ)) :=
  peer.1.allowedPrefixes.foldlM (considerPrefix? destination exitNode peer.2) best

/-- **The peer an IPv4 address is behind**, if every shift on the way is
defined. -/
def findRoute? (c : NetworkConfig) (destination : ℕ) (exitNode : Option ℕ) :
    Option (Option ℕ) := do
  match ← c.peers.zipIdx.foldlM (considerPeer? destination exitNode) none with
  | some (index, _) => some (some index)
  | none => some (exitNode.filter fun index => c.peers[index]?.any (·.exitNodeOption))

def Short (c : NetworkConfig) : Prop :=
  ∀ peer ∈ c.peers, ∀ p ∈ peer.allowedPrefixes, p.prefixLength ≤ 32

section

variable {destination index : ℕ} {exitNode : Option ℕ} {best : Option (ℕ × ℕ)} {p : Ipv4Prefix}

theorem considerPrefix?_of_le (h : p.prefixLength ≤ 32) :
    considerPrefix? destination exitNode index best p
      = some (considerPrefix destination exitNode index best p) := by
  have hdf : p.MaskDefined := (Ipv4Prefix.maskDefined_iff (by omega)).mpr h
  unfold considerPrefix? considerPrefix Ipv4Prefix.contains?
  split
  · rfl
  · show (if _ then _ else _ : Option (Option (ℕ × ℕ))) = _
    split <;> rfl

theorem considerPrefix?_of_lt (h : 32 < p.prefixLength) (hwd : p.prefixLength < 2 ^ 8) :
    considerPrefix? destination exitNode index best p = none := by
  have hun : ¬p.MaskDefined := by
    rw [Ipv4Prefix.maskDefined_iff hwd]
    omega
  unfold considerPrefix? Ipv4Prefix.contains?
  rw [if_neg (by omega), if_neg hun]
  rfl

end

section Folds

variable {α β : Type} {f : β → α → Option β} {as : List α}

theorem foldlM_of_some {g : β → α → β} (h : ∀ a ∈ as, ∀ b, f b a = some (g b a))
    (b : β) : as.foldlM f b = some (as.foldl g b) := by
  induction as generalizing b with
  | nil => rfl
  | cons a _ ih =>
    rw [foldlM_cons, h a mem_cons_self, foldl_cons]
    exact ih (fun a' ha' => h a' (mem_cons_of_mem a ha')) (g b a)

theorem foldlM_of_none {a : α} (ha : a ∈ as) (h : ∀ b, f b a = none) (b : β) :
    as.foldlM f b = none := by
  induction as generalizing b with
  | nil => cases ha
  | cons a' _ ih =>
    rw [foldlM_cons]
    rcases mem_cons.mp ha with rfl | ha
    · rw [h b]
      rfl
    · cases hf : f b a' with
      | none => rfl
      | some b' => exact ih ha b'

end Folds

variable {c : NetworkConfig}

/-- **With short prefixes every lookup is defined**, and is the one of the
program. -/
theorem Short.findRoute? (h : c.Short) (destination : ℕ) (exitNode : Option ℕ) :
    c.findRoute? destination exitNode = some (c.findRoute destination exitNode) := by
  have hfl : c.peers.zipIdx.foldlM (considerPeer? destination exitNode) none
      = some (c.peers.zipIdx.foldl (considerPeer destination exitNode) none) := by
    refine foldlM_of_some (fun peer hpr best => ?_) none
    have hmem : peer.1 ∈ c.peers := fst_mem_of_mem_zipIdx hpr
    exact foldlM_of_some (fun p hp best => considerPrefix?_of_le (h peer.1 hmem p hp)) best
  unfold NetworkConfig.findRoute? findRoute
  rw [hfl]
  cases c.peers.zipIdx.foldl (considerPeer destination exitNode) none <;> rfl

/-- **With a prefix that is too long no lookup is defined.** -/
theorem findRoute?_eq_none {peer : PeerConfig} {p : Ipv4Prefix}
    (hpr : peer ∈ c.peers) (hp : p ∈ peer.allowedPrefixes) (h : 32 < p.prefixLength)
    (hwd : p.prefixLength < 2 ^ 8) (destination : ℕ) (exitNode : Option ℕ) :
    c.findRoute? destination exitNode = none := by
  obtain ⟨index, hget⟩ := getElem?_of_mem hpr
  have hix : (peer, index) ∈ c.peers.zipIdx := mem_zipIdx_iff_getElem?.mpr hget
  have hfl : c.peers.zipIdx.foldlM (considerPeer? destination exitNode) none = none :=
    foldlM_of_none hix
      (fun best => foldlM_of_none hp (fun _ => considerPrefix?_of_lt h hwd) best) none
  unfold NetworkConfig.findRoute?
  rw [hfl]
  rfl

end NetworkConfig

/-! ## What is read of a text -/

namespace ProtocolCodec

/-- **The numbers of bits in a text are small**: under `Bits` of every prefix
of every peer stands a number that is at most 32, of eight bits. -/
def BitsWithin (value : Json) : Prop :=
  ∀ peers, value.field "Peers" = .ok peers → ∀ source ∈ peers.elements,
    ∀ prefixes, source.value "AllowedPrefixes" pure (.array []) = .ok prefixes →
      ∀ p ∈ prefixes.elements, ∀ bits, p.value "Bits" (Json.asWidth 8) 0 = .ok bits → bits ≤ 32

theorem lt_of_asWidth {bits n : ℕ} {value : Json} (hbt : 0 < bits)
    (h : value.asWidth bits = .ok n) : n < 2 ^ bits := by
  have hpos : (0 : ℤ) < 2 ^ bits := by positivity
  cases value with
  | number m =>
    cases h
    have hlt := Int.emod_lt_of_pos m hpos
    have hng := Int.emod_nonneg m hpos.ne'
    zify
    rwa [Int.toNat_of_nonneg hng]
  | bool b =>
    cases h
    exact (Bool.toNat_lt b).trans_le (Nat.le_self_pow hbt.ne' 2)
  | null | string | array | object => cases h

/-- Where what is read from the value under a key, and the default, are of one
kind, so is what is returned. -/
theorem returns_value {α : Type} {Q : α → Prop} {j : Json} {key : String}
    {read : Json → Except JsonError α} {default : α} (hdf : Q default)
    (hrd : ∀ value, Returns Q (read value)) : Returns Q (j.value key read default) := by
  intro a h
  cases j with
  | object fields =>
    unfold Json.value at h
    dsimp only at h
    cases hlk : fields.lookup key with
    | none =>
      rw [hlk] at h
      cases h
      exact hdf
    | some value =>
      rw [hlk] at h
      exact hrd value a h
  | null | bool | number | string | array => cases h

theorem returns_decodePrefix (src : Json) :
    Returns (fun p => src.value "Bits" (Json.asWidth 8) 0 = .ok p.prefixLength)
      (decodePrefix src) := by
  refine Returns.skip fun net => ?_
  refine .bind (R := fun bits => src.value "Bits" (Json.asWidth 8) 0 = .ok bits)
    (fun bits h => h) fun bits hbt => ?_
  exact .pure hbt

theorem returns_decodePeer (src : Json) :
    Returns (fun peer => ∃ prefixes, src.value "AllowedPrefixes" pure (.array []) = .ok prefixes
      ∧ prefixes.elements.mapM decodePrefix = .ok peer.allowedPrefixes) (decodePeer src) := by
  -- nineteen fields come first
  iterate 19 refine Returns.skip fun _ => ?_
  refine .bind (fun prefixes h => h) fun prefixes hpr => ?_
  refine .bind (fun allowed h => h) fun allowed hal => ?_
  exact .pure ⟨prefixes, hpr, hal⟩

theorem returns_networkConfigOfJson (value : Json) :
    Returns (fun c => ∃ ps, value.field "Peers" = .ok ps
      ∧ ps.elements.mapM decodePeer = .ok c.peers) (networkConfigOfJson value) := by
  iterate 22 refine Returns.skip fun _ => ?_
  refine .bind (fun ps h => h) fun ps hps => ?_
  refine .bind (fun decoded h => h) fun decoded hdc => ?_
  exact .pure ⟨ps, hps, hdc⟩

theorem networkConfigOfJson_of_decode {lib : RelayLibrary} {payload : Bytes} {value : Json}
    {c : NetworkConfig} (hpa : lib.parse payload = some value)
    (h : decodeNetworkConfig lib payload = .ok c) : networkConfigOfJson value = .ok c := by
  obtain ⟨value', hvl, h⟩ := of_bind_ok h
  obtain rfl : value = value' := by
    unfold parseJson at hvl
    split at hvl
    · cases hvl
    · rw [hpa] at hvl
      exact Except.ok.inj hvl
  obtain ⟨_, hcf, h⟩ := of_bind_ok h
  split at h
  · cases h
  · cases h
    cases hrd : networkConfigOfJson value with
    | error =>
      rw [hrd] at hcf
      cases hcf
    | ok =>
      rw [hrd] at hcf
      cases hcf
      rfl

section Accepted

variable {value : Json} {c : NetworkConfig} {peer : PeerConfig} {p : Ipv4Prefix}

/-- The prefixes of an accepted network map, and where they stand in the
text. -/
theorem bits_of_mem (h : networkConfigOfJson value = .ok c)
    (hpr : peer ∈ c.peers) (hp : p ∈ peer.allowedPrefixes) :
    ∃ ps, value.field "Peers" = .ok ps ∧ ∃ src ∈ ps.elements,
      ∃ prefixes, src.value "AllowedPrefixes" pure (.array []) = .ok prefixes ∧
        ∃ q ∈ prefixes.elements, q.value "Bits" (Json.asWidth 8) 0 = .ok p.prefixLength := by
  obtain ⟨ps, hps, hdc⟩ := returns_networkConfigOfJson value c h
  obtain ⟨src, hsr, hrd⟩ := exists_of_mem_mapM hdc hpr
  obtain ⟨prefixes, hprf, hal⟩ := returns_decodePeer src peer hrd
  obtain ⟨q, hq, hft⟩ := exists_of_mem_mapM hal hp
  exact ⟨ps, hps, src, hsr, prefixes, hprf, q, hq, returns_decodePrefix q p hft⟩

theorem prefixLength_lt (h : networkConfigOfJson value = .ok c)
    (hpr : peer ∈ c.peers) (hp : p ∈ peer.allowedPrefixes) : p.prefixLength < 2 ^ 8 := by
  obtain ⟨-, -, -, -, -, -, _, -, hbt⟩ := bits_of_mem h hpr hp
  exact returns_value (Q := fun n => n < 2 ^ 8) (by decide)
    (fun value n hn => lt_of_asWidth (by decide) hn) _ hbt

/-- **The prefixes of an accepted network map are short where the numbers in
the text are small.** -/
theorem short_iff_bitsWithin (h : networkConfigOfJson value = .ok c) :
    c.Short ↔ BitsWithin value := by
  constructor
  · intro hsh _ hps source hsr _ hpr q hq _ hbt
    obtain ⟨_, hps', hdc⟩ := returns_networkConfigOfJson value c h
    cases hps.symm.trans hps'
    obtain ⟨peer, hpe, hrd⟩ := exists_mapM_of_mem hdc hsr
    obtain ⟨_, hpr', hal⟩ := returns_decodePeer source peer hrd
    cases hpr.symm.trans hpr'
    obtain ⟨p, hp, hft⟩ := exists_mapM_of_mem hal hq
    have hlen := returns_decodePrefix q p hft
    rw [Except.ok.inj (hbt.symm.trans hlen)]
    exact hsh peer hpe p hp
  · intro hbt _ hpe _ hp
    obtain ⟨peers, hps, source, hsr, prefixes, hpr, q, hq, hlen⟩ :=
      bits_of_mem h hpe hp
    exact hbt peers hps source hsr prefixes hpr q hq _ hlen

/-- **Where a prefix is not short, no lookup is defined.** -/
theorem findRoute?_of_not_short (h : networkConfigOfJson value = .ok c) (hln : ¬c.Short)
    (destination : ℕ) (exitNode : Option ℕ) : c.findRoute? destination exitNode = none := by
  unfold NetworkConfig.Short at hln
  push Not at hln
  obtain ⟨_, hpr, _, hp, hlt⟩ := hln
  exact NetworkConfig.findRoute?_eq_none hpr hp hlt (prefixLength_lt h hpr hp) destination exitNode

end Accepted

/-! ## Network maps that are accepted -/

/-- **When the routes of an accepted network map can be looked up.** If the
numbers of bits in the text are at most 32, so are the prefixes, and every
lookup is defined and gives the route. If they are not, none is. -/
theorem decoded_lookups_defined {lib : RelayLibrary} {payload : Bytes} {value : Json}
    {c : NetworkConfig} (hparse : lib.parse payload = some value)
    (h : decodeNetworkConfig lib payload = .ok c) :
    (BitsWithin value → (∀ peer ∈ c.peers, ∀ p ∈ peer.allowedPrefixes, p.prefixLength ≤ 32)
        ∧ ∀ destination exitNode,
          c.findRoute? destination exitNode = some (c.findRoute destination exitNode))
      ∧ (¬BitsWithin value → ∀ destination exitNode, c.findRoute? destination exitNode = none) := by
  have hrd := networkConfigOfJson_of_decode hparse h
  rw [← short_iff_bitsWithin hrd]
  exact ⟨fun hsh => ⟨hsh, hsh.findRoute?⟩, findRoute?_of_not_short hrd⟩

def mapWithBits (bits : ℤ) : Json :=
  let allowed : Json := .object [("Bits", .number bits), ("Network", .number 0x64400000)]
  .object [("Domain", .string "example.com"),
    ("Peers", .array [.object [("AllowedPrefixes", .array [allowed])]]),
    ("SelfAddress", .string "100.64.0.1"), ("SelfKey", .string "nodekey:00"),
    ("SelfName", .string "self"), ("SelfNodeId", .number 1)]

def configWithBits (bits : ℕ) : NetworkConfig :=
  { selfNodeId := 1, selfKey := "nodekey:00", selfAddress := "100.64.0.1", selfName := "self",
    domain := "example.com",
    peers := [{ allowedPrefixes := [{ network := 0x64400000, prefixLength := bits }] }] }

theorem parse_mapWithBits (bits : ℤ) : (RelayLibrary.knowing [mapWithBits bits]).parse
    (mapWithBits bits).text = some (mapWithBits bits) := by
  simp [RelayLibrary.knowing]

theorem decode_mapWithBits : ∀ bits ∈ [10, 33],
    decodeNetworkConfig (.knowing [mapWithBits bits]) (mapWithBits bits).text
      = .ok (configWithBits bits.toNat) := by
  have hne : ∀ bits ∈ [10, 33], (mapWithBits bits).text ≠ [] := by decide +kernel
  intro bits hbt
  unfold decodeNetworkConfig parseJson
  rw [parse_mapWithBits, if_neg (hne bits hbt)]
  simp only [mem_cons, not_mem_nil, or_false] at hbt
  obtain rfl | rfl := hbt
  all_goals rfl

theorem decoded_lookups_defined_tailnet : ∃ c, decodeNetworkConfig (.knowing [mapWithBits 10])
        (mapWithBits 10).text = .ok c ∧
      (∀ peer ∈ c.peers, ∀ p ∈ peer.allowedPrefixes, p.prefixLength ≤ 32) ∧ ∀ destination exitNode,
          c.findRoute? destination exitNode = some (c.findRoute destination exitNode) := by
  have hdc := decode_mapWithBits 10 (by decide)
  refine ⟨_, hdc, (decoded_lookups_defined (parse_mapWithBits 10) hdc).1 ?_⟩
  intro _ hps _ hsr _ hpr _ hq _ hbt
  cases hps
  obtain rfl := mem_singleton.mp hsr
  cases hpr
  obtain rfl := mem_singleton.mp hq
  cases hbt
  decide

/-- **A prefix of 33 bits is accepted**, and then no lookup is defined. -/
theorem long_prefix_accepted : ∃ (lib : RelayLibrary) (payload : Bytes) (c : NetworkConfig),
      decodeNetworkConfig lib payload = .ok c ∧
        (∃ peer ∈ c.peers, ∃ p ∈ peer.allowedPrefixes, ¬p.prefixLength ≤ 32) ∧
        ∀ destination exitNode, c.findRoute? destination exitNode = none := by
  refine ⟨_, _, configWithBits 33, decode_mapWithBits 33 (by decide), ?_, ?_⟩
  · exact ⟨_, mem_singleton_self _, _, mem_singleton_self _, by decide⟩
  · exact NetworkConfig.findRoute?_eq_none (mem_singleton_self _) (mem_singleton_self _)
      (by decide) (by decide)

end ProtocolCodec

end Tailgate
