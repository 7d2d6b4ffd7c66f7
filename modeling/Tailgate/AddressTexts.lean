import Tailgate.Addresses

/-!
# Addresses as texts

Tables of the program are kept under the texts of addresses. That is as good
as keeping them under the addresses: an address is known by its text. For an
IPv4 address the program's own reader gives it back. An IPv6 address is
written by a library, `ntoa`, of which `Ipv6Texts` says what is needed.
-/

namespace Tailgate

open List Ipv4Address

namespace Ipv4Address

def toText (value : ℕ) : String :=
  String.ofList (intercalate ['.'] ((octets value).map fun octet => (Nat.repr octet).toList))

theorem octet_repr : ∀ n < 256, octet (Nat.repr n).toList = some n := by
  decide +kernel

theorem mem_repr : ∀ n < 256, '.' ∉ (Nat.repr n).toList ∧ ':' ∉ (Nat.repr n).toList := by
  decide +kernel

variable {value : ℕ} {bytes : List ℕ}

theorem lt_of_mem_octets {n : ℕ} (h : n ∈ octets value) : n < 256 := by
  simp only [octets, mem_cons, not_mem_nil, or_false] at h
  omega

theorem ofOctets_octets (h : value < 2 ^ 32) : ofOctets (octets value) = value := by
  simp only [ofOctets, octets, foldl_cons, foldl_nil]
  omega

theorem octets_ofOctets (hlen : bytes.length = 4) (hby : ∀ b ∈ bytes, b < 256) :
    octets (ofOctets bytes) = bytes ∧ ofOctets bytes < 2 ^ 32 := by
  match bytes, hlen with
  | [a, b, c, d], _ =>
    simp only [mem_cons, not_mem_nil, or_false, forall_eq_or_imp, forall_eq] at hby
    constructor
    · simp only [octets, ofOctets, foldl_cons, foldl_nil, cons.injEq, and_true]
      omega
    · simp only [ofOctets, foldl_cons, foldl_nil]
      omega

theorem mapM_octet (h : ∀ b ∈ bytes, b < 256) :
    (bytes.map fun b => (Nat.repr b).toList).mapM octet = some bytes := by
  induction bytes with
  | nil => rfl
  | cons b _ ih =>
    rw [map_cons, mapM_cons, octet_repr b (h b mem_cons_self),
      ih fun c hc => h c (mem_cons_of_mem b hc)]
    rfl

/-- **The text of an address is read back.** -/
theorem tryParse_toText (h : value < 2 ^ 32) : tryParse (toText value) = some value := by
  have hsp : (toText value).toList.splitOn '.'
      = (octets value).map fun octet => (Nat.repr octet).toList := by
    unfold toText
    rw [String.toList_ofList, splitOn_intercalate]
    · intro _ hcm
      obtain ⟨n, hn, rfl⟩ := mem_map.mp hcm
      exact (mem_repr n (lt_of_mem_octets hn)).1
    · simp [octets]
  unfold tryParse
  rw [hsp]
  rw [if_pos (by simp [octets]), mapM_octet fun n hn => lt_of_mem_octets hn, Option.map_some,
    ofOctets_octets h]

theorem colon_notMem_toText (value : ℕ) : ':' ∉ (toText value).toList := by
  have hoc : ∀ n ∈ octets value, ':' ∉ (Nat.repr n).toList :=
    fun n hn => (mem_repr n (lt_of_mem_octets hn)).2
  simpa [toText, octets, intercalate, intersperse] using hoc

end Ipv4Address

/-! ## Either family -/

/-- What the library for IPv6 addresses does: what it reads is an address, and
it writes every address differently, with colons. -/
structure Ipv6Texts (aton : Aton) (ntoa : List ℕ → String) : Prop where
  /-- What is read has sixteen bytes. -/
  bytes_of_aton : ∀ text bytes, aton text = some bytes → bytes.length = 16 ∧ ∀ b ∈ bytes, b < 256
  /-- What is written tells the address. -/
  ntoa_injective : ∀ bytes bytes', bytes.length = 16 → (∀ b ∈ bytes, b < 256) →
    bytes'.length = 16 → (∀ b ∈ bytes', b < 256) → ntoa bytes = ntoa bytes' → bytes = bytes'
  /-- There is a colon in what is written. -/
  colon_mem_ntoa : ∀ bytes, ':' ∈ (ntoa bytes).toList

namespace IpAddress

def toText (ntoa : List ℕ → String) (a : IpAddress) : String :=
  match a.family with
  | .ipv4 => Ipv4Address.toText (Ipv4Address.ofOctets a.bytes)
  | .ipv6 => ntoa a.bytes

def isUnspecified (a : IpAddress) : Bool := a.bytes.all (· == 0)

def WellFormed (a : IpAddress) : Prop :=
  a.bytes.length = (match a.family with
    | .ipv4 => 4
    | .ipv6 => 16) ∧ ∀ b ∈ a.bytes, b < 256

variable {aton : Aton} {ntoa : List ℕ → String} {a : IpAddress}

/-- **An address is known by its text.** -/
theorem toText_injective (hlib : Ipv6Texts aton ntoa) {b : IpAddress} (ha : a.WellFormed)
    (hb : b.WellFormed) (h : a.toText ntoa = b.toText ntoa) : a = b := by
  obtain ⟨family, bytes⟩ := a
  obtain ⟨family', bytes'⟩ := b
  have hcl : ∀ value bytes, Ipv4Address.toText value ≠ ntoa bytes := by
    intro value bytes heq
    exact Ipv4Address.colon_notMem_toText value (heq ▸ hlib.colon_mem_ntoa bytes)
  cases family <;> cases family'
  · obtain ⟨hoc, hlt⟩ := octets_ofOctets ha.1 ha.2
    obtain ⟨hoc', hlt'⟩ := octets_ofOctets hb.1 hb.2
    have hvl : some (Ipv4Address.ofOctets bytes) = some (Ipv4Address.ofOctets bytes') := by
      rw [← tryParse_toText hlt, ← tryParse_toText hlt']
      exact congrArg Ipv4Address.tryParse h
    have hby : bytes = bytes' :=
      hoc.symm.trans ((congrArg Ipv4Address.octets (Option.some.inj hvl)).trans hoc')
    rw [hby]
  · exact absurd h (hcl _ _)
  · exact absurd h.symm (hcl _ _)
  · rw [hlib.ntoa_injective bytes bytes' ha.1 ha.2 hb.1 hb.2 h]

theorem wellFormed_of_tryParse (hlib : Ipv6Texts aton ntoa) {text : String}
    (h : tryParse aton text = some a) : a.WellFormed := by
  unfold tryParse at h
  split at h
  · cases h
    exact ⟨rfl, fun b hb => lt_of_mem_octets hb⟩
  · split at h
    · obtain ⟨bytes, hby, rfl⟩ := Option.map_eq_some_iff.mp h
      exact hlib.bytes_of_aton text bytes hby
    · cases h

end IpAddress

end Tailgate
