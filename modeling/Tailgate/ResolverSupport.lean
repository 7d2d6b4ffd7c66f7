import Tailgate.DnsForwarder

/-!
# Resolvers that are not supported

A query goes to the first resolver of the list that applies to it, and the node stops if
that resolver has no IPv4 address. The lists are as the network map has them, with
addresses of other kinds, and no resolver behind the first is looked at.
-/

namespace Tailgate

open Ipv4Address Option

namespace ResolverSelection

def applicable (payload : Bytes) (network : NetworkConfig) (originalResolvers : List String) :
    List String :=
  (network.dnsRoutes.foldl (considerRoute (DnsQuery.name payload)) (none, 0)).1.getD
    (if network.dnsDefaultResolvers = [] then originalResolvers else network.dnsDefaultResolvers)

end ResolverSelection

namespace DnsForwarder

open ResolverSelection

theorem applicable_cases (payload : Bytes) (network : NetworkConfig)
    (originalResolvers : List String) :
    (∃ route, Longest (DnsQuery.name payload) network.dnsRoutes route
      ∧ applicable payload network originalResolvers = route.resolvers)
    ∨ (∀ route ∈ network.dnsRoutes, ¬Matches (DnsQuery.name payload) route)
      ∧ applicable payload network originalResolvers = (if network.dnsDefaultResolvers = [] then
        originalResolvers else network.dnsDefaultResolvers) := by
  unfold applicable
  obtain ⟨hfl, hno⟩ | ⟨route, hfl, hln⟩ :=
    considerRoutes_cases (DnsQuery.name payload) network.dnsRoutes
  · rw [hfl]
    exact .inr ⟨hno, rfl⟩
  · rw [hfl]
    exact .inl ⟨route, hln, rfl⟩

/-- The first resolver of the list is taken, or the one of the network map if it is empty. -/
theorem route_eq (pl : Bytes) (net : NetworkConfig) (orig : List String) :
    route pl net orig = (do
      let resolver ← tryParse ((applicable pl net orig).headD net.dnsResolver)
      let self ← tryParse net.selfAddress
      some (resolver, self)) := by
  have hem : tryParse "" = none := by decide
  unfold route selectResolver applicable
  cases (net.dnsRoutes.foldl (considerRoute (DnsQuery.name pl)) (none, 0)).1 with
  | none =>
    dsimp only [getD_none]
    generalize (if net.dnsDefaultResolvers = [] then orig
      else net.dnsDefaultResolvers) = rs
    split_ifs with had
    · rw [had, hem]
      rfl
    · rfl
  | some =>
    dsimp only [getD_some]
    split_ifs with had
    · rw [had, hem]
      rfl
    · rfl

/-- **A query stops the node just when the first resolver of the list that applies to it has
no IPv4 address.** The list is that of the longest route, and otherwise the default one. -/
theorem unsupportedResolver_iff {client : Endpoint} {payload : Bytes}
    {policy : NetworkPolicy} {originalResolvers : List String} {now : ℕ} {randomId : UInt16}
    {s : DnsForwarder} (hquery : idSize ≤ payload.length)
    (hself : (tryParse policy.network.selfAddress).isSome) :
    ((∃ route, Longest (DnsQuery.name payload) policy.network.dnsRoutes route
        ∧ applicable payload policy.network originalResolvers = route.resolvers)
      ∨ (∀ route ∈ policy.network.dnsRoutes, ¬Matches (DnsQuery.name payload) route)
        ∧ applicable payload policy.network originalResolvers =
          (if policy.network.dnsDefaultResolvers = [] then originalResolvers
            else policy.network.dnsDefaultResolvers))
    ∧ ((∃ result ∈ s.begin client payload policy originalResolvers now randomId,
        result.1.status = .unsupportedResolver)
      ↔ tryParse ((applicable payload policy.network originalResolvers).headD
        policy.network.dnsResolver) = none) := by
  refine ⟨applicable_cases payload policy.network originalResolvers, ?_⟩
  obtain ⟨_, hself⟩ := isSome_iff_exists.mp hself
  unfold begin
  rw [if_neg (not_lt.mpr hquery), route_eq, hself]
  cases tryParse ((applicable payload policy.network originalResolvers).headD
    policy.network.dnsResolver) with
  | none => exact iff_of_true ⟨_, rfl, rfl⟩ rfl
  | some =>
    refine iff_of_false ?_ nofun
    rintro ⟨_, hrt, hss⟩
    dsimp only [bind_eq_bind, bind_some] at hrt
    split_ifs at hrt
    · cases hrt
      cases hss
    · obtain ⟨_, -, rfl⟩ := map_eq_some_iff.mp hrt
      cases hss

/-- The default resolvers are one with an IPv6 address and one with an IPv4 address. -/
def mixedMap (resolvers : List String) : Json :=
  .object [("DERPMap", .object [("Regions", .object [("1", .object [("RegionCode", .string "nyc"),
          ("Nodes", .array [.object [("HostName", .string "derp1.example.com")]])])])]),
      ("DNSConfig", .object [("Resolvers", .array (resolvers.map fun address =>
        .object [("Addr", .string address)])), ("Routes", .object
          [("example.ts.net", .array [.object [("Addr", .string "100.64.0.2")]])])]),
      ("Node", .object [("ID", .number 1), ("Addresses", .array [.string "100.64.0.1/32"])]),
      ("Peers", .array [.object [("ID", .number 2), ("DERP", .string "127.3.3.40:1"),
        ("Addresses", .array [.string "100.64.0.2/32"])]])]

def mixedPolicy (resolvers : List String) : NetworkPolicy where
  network := match NetworkMapParser.parse (fun _ => none) (mixedMap resolvers) with
    | .ok c => c
    | .error _ => {}

/-- **An IPv6 resolver stops the node** although there is an IPv4 resolver behind it. -/
theorem mixed_unsupported :
    NetworkMapParser.parse (fun _ => none) (mixedMap ["2001:db8::1", "8.8.8.8"])
        = .ok (mixedPolicy ["2001:db8::1", "8.8.8.8"]).network
      ∧ (tryParse (mixedPolicy ["2001:db8::1", "8.8.8.8"]).network.selfAddress).isSome
      ∧ "8.8.8.8" ∈ applicable [0, 7] (mixedPolicy ["2001:db8::1", "8.8.8.8"]).network []
      ∧ (tryParse "8.8.8.8").isSome
      ∧ ({} : DnsForwarder).begin {} [0, 7] (mixedPolicy ["2001:db8::1", "8.8.8.8"]) [] 0 0
        = some ({ status := .unsupportedResolver }, {}) :=
  ⟨by rfl, by decide +kernel, by decide +kernel, by decide +kernel, by decide +kernel⟩

theorem unsupportedResolver_iff_mixed :
    (tryParse (mixedPolicy ["8.8.8.8", "2001:db8::1"]).network.selfAddress).isSome
      ∧ ¬∃ result ∈ ({} : DnsForwarder).begin {} [0, 7] (mixedPolicy ["8.8.8.8", "2001:db8::1"])
          [] 0 0, result.1.status = .unsupportedResolver := by
  have hsl : (tryParse (mixedPolicy ["8.8.8.8", "2001:db8::1"]).network.selfAddress).isSome := by
    decide +kernel
  exact ⟨hsl, mt (unsupportedResolver_iff (by decide) hsl).2.mp (by decide +kernel)⟩

end DnsForwarder

end Tailgate
