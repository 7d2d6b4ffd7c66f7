import Tailgate.BigEndian
import Tailgate.NetworkConfig

/-!
# The resolver of a query

A query for a name goes to the resolver of the route with the longest suffix of
the name, and to a default one otherwise. The program compares the lengths of
suffixes with or without a dot at the end. That does not matter: of two suffixes
of one name the longer has one label more, and so two bytes.
-/

namespace Tailgate

def textBytes (text : String) : Bytes := text.toList.flatMap String.utf8EncodeChar

def toLower (byte : UInt8) : UInt8 := if 65 ≤ byte ∧ byte ≤ 90 then byte + 32 else byte

namespace DnsQuery

def headerSize : ℕ := 12

def maximumLabelLength : ℕ := 63

/-- Read the labels from an offset on, behind those that have been read. The
answer is the name and where it ends. There are no more labels than bytes. -/
def readLabels (message : Bytes) : ℕ → ℕ → Bytes → Option (Bytes × ℕ)
  | 0, offset, result => some (result, offset)
  | turns + 1, offset, result =>
    if offset < message.length ∧ message.getD offset 0 ≠ 0 then
      let length := (message.getD offset 0).toNat
      if maximumLabelLength < length ∨ message.length < offset + 1 + length then
        none
      else
        let dot : Bytes := if result = [] then [] else [0x2e]
        readLabels message turns (offset + 1 + length)
          (result ++ dot ++ (message.drop (offset + 1)).take length)
    else
      some (result, offset)

/-- **The name a query asks for.** -/
def name (message : Bytes) : Option Bytes :=
  if message.length < headerSize ∨
      (message.getD 4 0).toNat * 256 + (message.getD 5 0).toNat = 0 then
    none
  else do
    let (result, offset) ← readLabels message message.length headerSize []
    if message.length ≤ offset ∨ message.length < offset + 5 then none
    else some (result.map toLower)

end DnsQuery

def normalizeName (name : Bytes) : Bytes :=
  (if name.getLast? = some 0x2e then name.dropLast else name).map toLower

def dnsNameHasSuffix (name suffix : Bytes) : Bool :=
  let name := normalizeName name
  let suffix := normalizeName suffix
  name == suffix ||
    decide (suffix.length < name.length) && name.drop (name.length - suffix.length) == suffix &&
      name.getD (name.length - suffix.length - 1) 0 == 0x2e

structure ResolverSelection where
  address : String
  routeMatched : Bool

namespace ResolverSelection

def considerRoute (name : Option Bytes) (selected : Option (List String) × ℕ)
    (route : DnsRoute) : Option (List String) × ℕ :=
  let suffix := textBytes route.suffix
  if name.any fun name => decide (selected.2 ≤ suffix.length) && dnsNameHasSuffix name suffix then
    (some route.resolvers, suffix.length)
  else
    selected

/-- **The resolver of a query.** -/
def selectResolver (query : Bytes) (primaryResolver : String) (routes : List DnsRoute)
    (defaultResolvers : List String) : Option ResolverSelection :=
  match (routes.foldl (considerRoute (DnsQuery.name query)) (none, 0)).1 with
  | some resolvers =>
    let address := resolvers.headD primaryResolver
    if address = "" then none else some { address, routeMatched := true }
  | none =>
    let address := defaultResolvers.headD primaryResolver
    if address = "" then none else some { address, routeMatched := false }

open List

/-! ## The longest suffix -/

variable (route : DnsRoute)

def suffixOf : Bytes := normalizeName (textBytes route.suffix)

variable (name : Option Bytes)

def Matches (route : DnsRoute) : Prop :=
  ∃ asked ∈ name, dnsNameHasSuffix asked (textBytes route.suffix) = true

def Longest (routes : List DnsRoute) (route : DnsRoute) : Prop :=
  route ∈ routes ∧ Matches name route ∧ ∀ other ∈ routes, Matches name other →
      (textBytes other.suffix).length ≤ (textBytes route.suffix).length

def OnBoundary (name suffix : Bytes) : Prop :=
  name = suffix ∨ ∃ front, name = front ++ 0x2e :: suffix

def NonemptyLabels (name : Bytes) : Prop := name = [] ∨ [] ∉ name.splitOn 0x2e

theorem considerRoute_eq (selected : Option (List String) × ℕ)
    (route : DnsRoute) [Decidable (Matches name route)] :
    considerRoute name selected route
      = if selected.2 ≤ (textBytes route.suffix).length ∧ Matches name route then
          (some route.resolvers, (textBytes route.suffix).length)
        else selected := by
  unfold considerRoute Matches
  cases name <;> simp

open Classical in
/-- **The longest route is selected**, if there is one at all. -/
theorem considerRoutes_cases (routes : List DnsRoute) :
    (routes.foldl (considerRoute name) (none, 0) = (none, 0)
      ∧ ∀ route ∈ routes, ¬Matches name route)
    ∨ ∃ route, routes.foldl (considerRoute name) (none, 0)
        = (some route.resolvers, (textBytes route.suffix).length) ∧ Longest name routes route := by
  induction routes using reverseRecOn with
  | nil => exact .inl ⟨rfl, nofun⟩
  | append_singleton _ route ih =>
    rw [foldl_concat, considerRoute_eq]
    simp only [Longest, mem_append, mem_singleton, or_imp, forall_and, forall_eq]
    obtain ⟨hfl, hno⟩ | ⟨best, hfl, hbs, hmt, hln⟩ := ih
    · rw [hfl]
      by_cases h : Matches name route
      · rw [if_pos ⟨Nat.zero_le _, h⟩]
        exact .inr ⟨route, rfl, .inr rfl, h, fun other ho hm => absurd hm (hno other ho),
          fun _ => le_rfl⟩
      · rw [if_neg fun hbt => h hbt.2]
        exact .inl ⟨rfl, hno, h⟩
    · rw [hfl]
      by_cases h : (textBytes best.suffix).length ≤ (textBytes route.suffix).length
          ∧ Matches name route
      · rw [if_pos h]
        exact .inr ⟨route, rfl, .inr rfl, h.2, fun other ho hm => (hln other ho hm).trans h.1,
          fun _ => le_rfl⟩
      · rw [if_neg h]
        refine .inr ⟨best, rfl, .inl hbs, hmt, hln, fun hm => ?_⟩
        exact (not_le.mp fun hle => h ⟨hle, hm⟩).le

variable {name front rest : Bytes}

theorem splitOn_dot (front rest : Bytes) :
    (front ++ 0x2e :: rest).splitOn 0x2e = front.splitOn 0x2e ++ rest.splitOn 0x2e :=
  splitOnP_append_cons front rest rfl

theorem NonemptyLabels.split (h : NonemptyLabels (front ++ 0x2e :: rest)) :
    [] ∉ front.splitOn 0x2e ∧ [] ∉ rest.splitOn 0x2e := by
  have hno := h.resolve_left (by simp)
  rw [splitOn_dot, mem_append, not_or] at hno
  exact hno

theorem NonemptyLabels.getLast (h : NonemptyLabels name) : name.getLast? ≠ some 0x2e :=
  fun hla => by
    obtain ⟨_, rfl⟩ := getLast?_eq_some_iff.mp hla
    exact h.split.2 mem_cons_self

theorem toLower_toLower (byte : UInt8) : toLower (toLower byte) = toLower byte := by
  have hall : ∀ n : Fin 256, toLower (toLower (.ofFin n)) = toLower (.ofFin n) := by decide +kernel
  exact hall byte.toFin

theorem normalizeName_of_name {qry : Bytes} (hnm : DnsQuery.name qry = some name)
    (h : NonemptyLabels name) : normalizeName name = name := by
  unfold normalizeName
  rw [if_neg h.getLast]
  unfold DnsQuery.name at hnm
  split at hnm
  · cases hnm
  · obtain ⟨⟨_, _⟩, -, hnm⟩ := Option.bind_eq_some_iff.mp hnm
    dsimp only at hnm
    split at hnm
    · cases hnm
    · rw [← Option.some_inj.mp hnm, map_map]
      exact map_congr_left fun byte _ => toLower_toLower byte

theorem dotted_iff (name suffix : Bytes) :
    (suffix.length < name.length ∧ name.drop (name.length - suffix.length) = suffix)
      ∧ name.getD (name.length - suffix.length - 1) 0 = 0x2e
      ↔ ∃ front, name = front ++ 0x2e :: suffix := by
  constructor
  · rintro ⟨⟨_, hdr⟩, hdot⟩
    have hk : name.length - suffix.length - 1 < name.length := by omega
    have hget := drop_eq_getElem_cons hk
    rw [getD_eq_getElem?_getD, getElem?_eq_getElem hk, Option.getD_some] at hdot
    rw [hdot, Nat.sub_add_cancel (by omega), hdr] at hget
    exact ⟨_, (hget ▸ take_append_drop _ name).symm⟩
  · rintro ⟨front, rfl⟩
    have hlen : (front ++ 0x2e :: suffix).length - suffix.length = front.length + 1 := by
      rw [length_append, length_cons]
      omega
    rw [hlen]
    simp
    omega

theorem matches_iff (h : normalizeName name = name) :
    Matches (some name) route ↔ OnBoundary name (suffixOf route) := by
  unfold Matches dnsNameHasSuffix OnBoundary
  rw [← dotted_iff name (suffixOf route)]
  simp only [Option.mem_some_iff, exists_eq_left', h, Bool.or_eq_true, Bool.and_eq_true,
    decide_eq_true_eq, beq_iff_eq, suffixOf]

theorem OnBoundary.suffix {suffix : Bytes} (h : OnBoundary name suffix) : suffix <:+ name := by
  rcases h with heq | ⟨front, heq⟩
  · exact heq ▸ suffix_refl _
  · exact ⟨front ++ [0x2e], by rw [heq, append_assoc]; rfl⟩

/-- The longer of two suffixes has one more label. -/
theorem OnBoundary.length_add_two {suffix longer : Bytes} (h : NonemptyLabels name)
    (hs : OnBoundary name suffix) (hl : OnBoundary name longer)
    (hlt : suffix.length < longer.length) : suffix.length + 2 ≤ longer.length := by
  have hle := hl.suffix.length_le
  rcases hs with heq | ⟨front, heq⟩
  · rw [heq] at hle
    omega
  · have hdot : 0x2e :: suffix <:+ name := ⟨front, heq.symm⟩
    obtain ⟨labels, hlb⟩ := suffix_of_suffix_length_le hdot hl.suffix hlt
    have hne : labels ≠ [] := by
      rintro rfl
      rcases hl with hall | ⟨_, hall⟩
      · rw [hall, ← hlb] at h
        exact h.split.1 mem_cons_self
      · rw [hall, ← hlb] at h
        exact (NonemptyLabels.split (.inr h.split.2)).1 mem_cons_self
    rw [← hlb, length_append, length_cons]
    have := length_pos_of_ne_nil hne
    omega

theorem length_suffixOf : (suffixOf route).length ≤ (textBytes route.suffix).length
      ∧ (textBytes route.suffix).length ≤ (suffixOf route).length + 1 := by
  unfold suffixOf normalizeName
  rw [length_map]
  split
  · rw [length_dropLast]
    omega
  · omega

def answer (resolvers : List String) (primaryResolver : String) (routeMatched : Bool) :
    Option ResolverSelection :=
  let address := resolvers.headD primaryResolver
  if address = "" then none else some { address, routeMatched }

/-- **The route with the longest suffix** is used, if there is one whose suffix matches. -/
theorem selectResolver_longest (query name : Bytes) (primaryResolver : String)
    (routes : List DnsRoute) (defaultResolvers : List String)
    (hname : DnsQuery.name query = some name) (hlabels : NonemptyLabels name) :
    ((∀ route ∈ routes, ¬OnBoundary name (suffixOf route))
      ∧ selectResolver query primaryResolver routes defaultResolvers
        = answer defaultResolvers primaryResolver false)
    ∨ ∃ route ∈ routes, OnBoundary name (suffixOf route)
      ∧ (∀ other ∈ routes, OnBoundary name (suffixOf other) →
        (suffixOf other).length ≤ (suffixOf route).length)
      ∧ selectResolver query primaryResolver routes defaultResolvers
        = answer route.resolvers primaryResolver true := by
  have hiff (route : DnsRoute) := matches_iff route (normalizeName_of_name hname hlabels)
  unfold selectResolver
  rw [hname]
  obtain ⟨hfold, hno⟩ | ⟨route, hfold, hmem, hroute, hmax⟩ :=
    considerRoutes_cases (some name) routes
  · rw [hfold]
    exact .inl ⟨fun route hmem => (hiff route).not.mp (hno route hmem), rfl⟩
  · rw [hfold]
    refine .inr ⟨route, hmem, (hiff route).mp hroute, fun other hin hother => ?_, rfl⟩
    refine Nat.le_of_not_lt fun hlt => ?_
    have htwo := OnBoundary.length_add_two hlabels ((hiff route).mp hroute) hother hlt
    have hle := hmax other hin ((hiff other).mpr hother)
    have := length_suffixOf route
    have := length_suffixOf other
    omega

/-- A query for `a.b`. -/
def abQuery : Bytes := replicate 5 0 ++ [1] ++ replicate 6 0 ++ [1, 97, 1, 98, 0, 0, 1, 0, 1]

theorem selectResolver_longest_ab :
    selectResolver abQuery "" [⟨"A.B", ["1"]⟩, ⟨"b.", ["2"]⟩] [] = some ⟨"1", true⟩ := by
  rcases selectResolver_longest abQuery [97, 0x2e, 98] "" [⟨"A.B", ["1"]⟩, ⟨"b.", ["2"]⟩] []
    (by decide) (.inr (by decide)) with ⟨hno, -⟩ | ⟨route, hmem, -, hmax, heq⟩
  · exact absurd (.inl (by decide)) (hno ⟨"A.B", ["1"]⟩ mem_cons_self)
  · have hle := hmax ⟨"A.B", ["1"]⟩ mem_cons_self (.inl (by decide))
    rcases mem_cons.mp hmem with rfl | hmem
    · exact heq
    · rw [mem_singleton.mp hmem] at hle
      exact absurd hle (by decide)

end ResolverSelection

end Tailgate
