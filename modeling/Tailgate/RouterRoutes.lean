import Tailgate.RouteSelection

/-!
# The routes of the operating system

The engine only sees the packets that the operating system gives it: those for
the tailnet, for the prefixes of the peers, and everything if an exit has been
chosen. `routes_cover` says that every destination that the engine has a peer for
is in one of the routes.
-/

namespace Tailgate

open List Ipv4Address

/-! ## Building the routes -/

namespace Ipv4Prefix

def Less (left right : Ipv4Prefix) : Prop :=
  left.network < right.network ∨
    left.network = right.network ∧ left.prefixLength < right.prefixLength

instance : DecidableRel Less := fun left right =>
  inferInstanceAs (Decidable (left.network < right.network ∨
    left.network = right.network ∧ left.prefixLength < right.prefixLength))

def NotAfter (left right : Ipv4Prefix) : Prop := ¬Less right left

instance : DecidableRel NotAfter := fun left right =>
  inferInstanceAs (Decidable ¬Less right left)

instance : Std.Total NotAfter where
  total left right := by
    unfold NotAfter Less
    omega

instance : IsTrans Ipv4Prefix NotAfter where
  trans a b c hab hbc := by
    unfold NotAfter Less at *
    omega

theorem NotAfter.less {left right : Ipv4Prefix} (h : NotAfter left right) (hne : left ≠ right) :
    Less left right := by
  have hne' : ¬(left.network = right.network ∧ left.prefixLength = right.prefixLength) := by
    rintro ⟨_, _⟩
    cases left
    cases right
    exact hne (by simp_all)
  unfold NotAfter Less at *
  omega

end Ipv4Prefix

structure RouterConfig where
  localAddresses : List String := []
  routes : List Ipv4Prefix := []

namespace RouterConfig

structure Options where
  additionalRoutes : List Ipv4Prefix := []
  routeAllTraffic : Bool := false

def tailnetRoute : Ipv4Prefix := ⟨ofOctets [100, 64, 0, 0], 10⟩

def lowerDefaultRoute : Ipv4Prefix := ⟨ofOctets [0, 0, 0, 0], 1⟩

def upperDefaultRoute : Ipv4Prefix := ⟨ofOctets [128, 0, 0, 0], 1⟩

def appendAddress (addresses : List String) (address : String) : List String :=
  if address ≠ "" ∧ address ∉ addresses then addresses ++ [address] else addresses

def appendRoute (routes : List Ipv4Prefix) (route : Ipv4Prefix) : List Ipv4Prefix :=
  if route.prefixLength ≤ 32 ∧ route ∉ routes then routes ++ [route] else routes

def covered (route : Ipv4Prefix) : Prop :=
  route.prefixLength = 0 ∨
    tailnetRoute.prefixLength ≤ route.prefixLength ∧ tailnetRoute.contains route.network

instance : DecidablePred covered := fun route =>
  inferInstanceAs (Decidable (route.prefixLength = 0 ∨
    tailnetRoute.prefixLength ≤ route.prefixLength ∧ tailnetRoute.contains route.network))

def appendPrefix (routes : List Ipv4Prefix) (route : Ipv4Prefix) : List Ipv4Prefix :=
  if covered route then routes else appendRoute routes route

def collectRoutes (networkMap : NetworkConfig) (options : Options) : List Ipv4Prefix :=
  let routes := appendRoute [] tailnetRoute
  let routes :=
    if options.routeAllTraffic then
      appendRoute (appendRoute routes lowerDefaultRoute) upperDefaultRoute
    else
      routes
  let routes :=
    match tryParse networkMap.dnsResolver with
    | some resolver => appendRoute routes ⟨resolver, 32⟩
    | none => routes
  let routes := networkMap.peers.foldl
    (fun routes peer => peer.allowedPrefixes.foldl appendPrefix routes) routes
  options.additionalRoutes.foldl appendRoute routes

/-- **The router configuration of a network map.** -/
def build (networkMap : NetworkConfig) (options : Options) : RouterConfig where
  localAddresses := (networkMap.selfAddress :: networkMap.selfAddresses).foldl appendAddress []
  routes := (collectRoutes networkMap options).insertionSort Ipv4Prefix.NotAfter

end RouterConfig

/-! ## The policy of a node -/

structure PolicyChange where
  previousRoutes : RouterConfig
  dnsChanged : Bool

/-- **The policy of a node**: its network map, and what follows from it. -/
structure NetworkPolicy where
  exitNode : String := ""
  network : NetworkConfig := {}
  routes : RouterConfig := {}
  exitPeer : Option ℕ := none

/-- **A new network map.** -/
def NetworkPolicy.apply (config : NetworkConfig) (policy : NetworkPolicy) :
    PolicyChange × NetworkPolicy :=
  let exitPeer := if policy.exitNode = "" then none else config.findExitNode policy.exitNode true
  let routes := .build config { routeAllTraffic := exitPeer.isSome }
  ({ previousRoutes := policy.routes
     dnsChanged := policy.network.dnsResolver != config.dnsResolver ||
      policy.network.dnsDomains != config.dnsDomains },
    { policy with network := config, routes, exitPeer })

/-! ## What is appended stays -/

namespace RouterConfig

variable {routes : List Ipv4Prefix}

theorem nodup_appendRoute (h : routes.Nodup) (route : Ipv4Prefix) :
    (appendRoute routes route).Nodup := by
  unfold appendRoute
  split
  · rename_i hrt
    exact h.append (nodup_singleton route) (by simpa using hrt.2)
  · exact h

theorem subset_appendRoute (routes : List Ipv4Prefix) (route : Ipv4Prefix) :
    routes ⊆ appendRoute routes route := by
  unfold appendRoute
  split
  · exact subset_append_left _ _
  · exact .refl _

theorem mem_appendRoute {route : Ipv4Prefix} (h : route.prefixLength ≤ 32)
    (routes : List Ipv4Prefix) : route ∈ appendRoute routes route := by
  unfold appendRoute
  split
  · exact mem_append_right _ (mem_singleton_self route)
  · rename_i hrt
    by_contra hmem
    exact hrt ⟨h, hmem⟩

theorem nodup_appendPrefix (h : routes.Nodup) (route : Ipv4Prefix) :
    (appendPrefix routes route).Nodup := by
  unfold appendPrefix
  split
  · exact h
  · exact nodup_appendRoute h route

theorem subset_appendPrefix (routes : List Ipv4Prefix) (route : Ipv4Prefix) :
    routes ⊆ appendPrefix routes route := by
  unfold appendPrefix
  split
  · exact .refl _
  · exact subset_appendRoute routes route

section

variable {α : Type} {f : List Ipv4Prefix → α → List Ipv4Prefix}

theorem nodup_foldl (hf : ∀ routes a, routes.Nodup → (f routes a).Nodup) (as : List α)
    {routes : List Ipv4Prefix} (h : routes.Nodup) : (as.foldl f routes).Nodup :=
  foldlRecOn as f h fun routes h a _ => hf routes a h

theorem subset_foldl (hf : ∀ routes a, routes ⊆ f routes a) (as : List α)
    (routes : List Ipv4Prefix) : routes ⊆ as.foldl f routes :=
  foldlRecOn as f (.refl _) fun routes h a _ => List.Subset.trans h (hf routes a)

theorem mem_foldl {route : Ipv4Prefix} {a : α} {as : List α}
    (hf : ∀ routes a, routes ⊆ f routes a) (ha : a ∈ as) (h : ∀ routes, route ∈ f routes a)
    (routes : List Ipv4Prefix) : route ∈ as.foldl f routes := by
  induction as generalizing routes with
  | nil => exact absurd ha not_mem_nil
  | cons _ as ih =>
    obtain rfl | ha := mem_cons.mp ha
    · exact subset_foldl hf as _ (h routes)
    · exact ih ha _

end

/-! ## What is in the routes -/

theorem subset_peer (routes : List Ipv4Prefix) (peer : PeerConfig) :
    routes ⊆ peer.allowedPrefixes.foldl appendPrefix routes :=
  subset_foldl subset_appendPrefix _ routes

section

variable (networkMap : NetworkConfig) (options : Options)

theorem subset_collectRoutes {routes : List Ipv4Prefix} :
    routes ⊆ options.additionalRoutes.foldl appendRoute (networkMap.peers.foldl
      (fun routes peer => peer.allowedPrefixes.foldl appendPrefix routes) routes) :=
  List.Subset.trans (subset_foldl subset_peer _ routes) (subset_foldl subset_appendRoute _ _)

theorem subset_resolver (routes : List Ipv4Prefix) :
    routes ⊆ match tryParse networkMap.dnsResolver with
      | some resolver => appendRoute routes ⟨resolver, 32⟩
      | none => routes := by
  split
  · exact subset_appendRoute _ _
  · exact .refl _

theorem tailnetRoute_mem_collectRoutes : tailnetRoute ∈ collectRoutes networkMap options := by
  refine subset_collectRoutes networkMap options (subset_resolver networkMap _ ?_)
  split
  · exact subset_appendRoute _ _ (subset_appendRoute _ _ (mem_appendRoute (by decide) []))
  · exact mem_appendRoute (by decide) []

theorem defaultRoutes_mem_collectRoutes (h : options.routeAllTraffic) :
    lowerDefaultRoute ∈ collectRoutes networkMap options ∧
      upperDefaultRoute ∈ collectRoutes networkMap options := by
  constructor <;> refine subset_collectRoutes networkMap options (subset_resolver networkMap _ ?_)
  · rw [if_pos h]
    exact subset_appendRoute _ _ (mem_appendRoute (by decide) _)
  · rw [if_pos h]
    exact mem_appendRoute (by decide) _

theorem prefix_mem_collectRoutes {peer : PeerConfig} {p : Ipv4Prefix}
    (hpr : peer ∈ networkMap.peers) (hp : p ∈ peer.allowedPrefixes)
    (hlen : p.prefixLength ≤ 32)
    (hcv : ¬covered p) : p ∈ collectRoutes networkMap options := by
  have hsp : ∀ routes, p ∈ appendPrefix routes p := by
    intro routes
    unfold appendPrefix
    rw [if_neg hcv]
    exact mem_appendRoute hlen routes
  exact subset_foldl subset_appendRoute _ _ (mem_foldl subset_peer hpr
    (fun routes => mem_foldl subset_appendPrefix hp hsp routes) _)

theorem nodup_collectRoutes : (collectRoutes networkMap options).Nodup := by
  refine nodup_foldl (fun _ a h => nodup_appendRoute h a) _ (nodup_foldl (fun _ peer h =>
    nodup_foldl (fun _ a h => nodup_appendPrefix h a) peer.allowedPrefixes h) _ ?_)
  have htl := nodup_appendRoute nodup_nil tailnetRoute
  split
  · refine nodup_appendRoute ?_ _
    split
    · exact nodup_appendRoute (nodup_appendRoute htl _) _
    · exact htl
  · split
    · exact nodup_appendRoute (nodup_appendRoute htl _) _
    · exact htl

/-- **The routes are in strict order.** -/
theorem pairwise_routes : (build networkMap options).routes.Pairwise Ipv4Prefix.Less := by
  have hsr := pairwise_insertionSort Ipv4Prefix.NotAfter (collectRoutes networkMap options)
  have hnd : (build networkMap options).routes.Nodup :=
    (perm_insertionSort _ _).nodup_iff.mpr (nodup_collectRoutes networkMap options)
  exact (hsr.and hnd).imp fun h => h.1.less h.2

end

end RouterConfig

/-! ## The two agree -/

/-- A route of the engine's is of a prefix that says something, or is the
exit. -/
theorem NetworkConfig.owns_or_exit {c : NetworkConfig} {destination : ℕ}
    (hc : ∀ peer ∈ c.peers, ∀ p ∈ peer.allowedPrefixes, p.prefixLength ≤ 32)
    (hds : destination < 2 ^ 32) {exitNode : Option ℕ} {route : ℕ}
    (h : c.findRoute destination exitNode = some route) :
    (∃ length, 0 < length ∧ c.Owns destination route length) ∨ exitNode = some route := by
  unfold findRoute at h
  rw [foldl_considerPeer] at h
  split at h
  · rename_i index length hbs
    obtain rfl := Option.some.inj h
    obtain ⟨how, hex⟩ := (mem_candidates hc hds exitNode index length).mp (argmax_mem hbs)
    obtain rfl | hlen := Nat.eq_zero_or_pos length
    · exact .inr (hex rfl)
    · exact .inl ⟨length, hlen, how⟩
  · exact .inr (Option.filter_eq_some_iff.mp h).1

namespace Ipv4Prefix

variable {destination : ℕ}

theorem matches_default (h : destination < 2 ^ 32) :
    RouterConfig.lowerDefaultRoute.Matches destination ∨
      RouterConfig.upperDefaultRoute.Matches destination := by
  unfold Matches
  show destination / 2 ^ 31 * 2 ^ 31 = 0 ∨ destination / 2 ^ 31 * 2 ^ 31 = 2 ^ 31
  omega

/-- What matches a longer prefix matches a shorter one that its network
matches. -/
theorem Matches.trans {p q : Ipv4Prefix}
    (hlen : q.prefixLength ≤ p.prefixLength) (hp : p.Matches destination)
    (hq : q.Matches p.network) : q.Matches destination := by
  unfold Matches at *
  rw [← hq, ← hp]
  obtain ⟨_, hk⟩ := Nat.exists_eq_add_of_le
    (show 32 - p.prefixLength ≤ 32 - q.prefixLength by omega)
  rw [hk, pow_add, ← Nat.div_div_eq_div_mul, ← Nat.div_div_eq_div_mul,
    Nat.mul_div_cancel _ (by positivity)]

end Ipv4Prefix

namespace NetworkPolicy

open RouterConfig

/-- **What the engine can carry it is given.** After a network map with masked
prefixes has been applied, every destination that the engine has a peer for
matches one of the routes, and the routes are in strict order. -/
theorem routes_cover {config : NetworkConfig}
    (hconfig : ∀ peer ∈ config.peers, ∀ p ∈ peer.allowedPrefixes,
      p.prefixLength ≤ 32 ∧ p.network < 2 ^ 32 ∧ p.Matches p.network)
    (policy : NetworkPolicy) :
    (∀ destination route, destination < 2 ^ 32 →
      (policy.apply config).2.network.findRoute destination (policy.apply config).2.exitPeer
        = some route →
      ∃ r ∈ (policy.apply config).2.routes.routes, r.Matches destination) ∧
    (policy.apply config).2.routes.routes.Pairwise Ipv4Prefix.Less := by
  refine ⟨fun destination route hds hrt => ?_, pairwise_routes _ _⟩
  have hmem : ∀ r, r ∈ (policy.apply config).2.routes.routes ↔ r ∈ collectRoutes config
        { routeAllTraffic := (policy.apply config).2.exitPeer.isSome } :=
    fun r => mem_insertionSort _
  obtain ⟨length, hlen, how⟩ | hex := NetworkConfig.owns_or_exit
    (fun peer hpr p hp => (hconfig peer hpr p hp).1) hds hrt
  · obtain ⟨peer, hpr, p, hp, hma, rfl⟩ := how
    have hpr' : peer ∈ config.peers := mem_of_getElem? hpr
    obtain ⟨hle, hnt, -⟩ := hconfig peer hpr' p hp
    by_cases hcv : covered p
    · obtain hzero | ⟨hln, hcn⟩ := hcv
      · omega
      · refine ⟨_, (hmem _).mpr (tailnetRoute_mem_collectRoutes _ _), ?_⟩
        exact hma.trans hln ((Ipv4Prefix.contains_iff (by decide) hnt).mp hcn)
    · exact ⟨p, (hmem p).mpr (prefix_mem_collectRoutes _ _ hpr' hp hle hcv), hma⟩
  · obtain ⟨hlw, hup⟩ := defaultRoutes_mem_collectRoutes config
      { routeAllTraffic := (policy.apply config).2.exitPeer.isSome } (by rw [hex]; rfl)
    obtain h | h := Ipv4Prefix.matches_default hds
    · exact ⟨_, (hmem _).mpr hlw, h⟩
    · exact ⟨_, (hmem _).mpr hup, h⟩

/-- A node behind which there is a network, and one through which everything
else may leave. -/
def withExit : NetworkConfig where
  peers := [
    { allowedPrefixes := [⟨ofOctets [10, 0, 0, 0], 8⟩] },
    { name := "exit", online := true, allowedPrefixes := [⟨0, 0⟩], exitNodeOption := true }]

theorem routes_cover_withExit :
    (({ exitNode := "exit" } : NetworkPolicy).apply withExit).2.exitPeer = some 1 ∧
      ∃ r ∈ (({ exitNode := "exit" } : NetworkPolicy).apply withExit).2.routes.routes,
        r.Matches (ofOctets [8, 8, 8, 8]) :=
  ⟨by decide +kernel, (routes_cover (by decide) { exitNode := "exit" }).1 _ 1 (by decide)
    (by decide +kernel)⟩

end NetworkPolicy

end Tailgate
