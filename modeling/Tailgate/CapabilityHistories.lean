import Tailgate.CapabilityFilters
import Tailgate.TransitionSystem

/-!
# Capabilities and the filters of all messages

What a peer may do at this node follows from the filters of all messages so far:
it has the names of the grants that apply between one of its addresses and the
node's first address of the same family. A message that keeps the connection
alive revokes nothing.
-/

namespace Tailgate

open Procedure
open List hiding after

namespace NetworkMapParser

variable {aton : Aton} {F : FilterSets}

/-! ## Full maps and updates -/

theorem leaves_applyHostInfoMetadata (node : Json) :
    Leaves peersAndFilters (applyHostInfoMetadata node) := by
  unfold applyHostInfoMetadata
  split
  · exact leaves_read fun _ =>
      leaves_read fun _ =>
        leaves_read fun _ =>
          .bind (leaves_liftJson _) fun _ => .modify fun _ => rfl
  · exact .pure ()

theorem leaves_applySelf (map node : Json) : Leaves peersAndFilters (applySelf map node) :=
  leaves_read fun _ =>
    leaves_read fun _ =>
      leaves_read fun _ =>
        leaves_read fun _ =>
          .bind (leaves_applyHostInfoMetadata node) fun _ => leaves_applySelfAddresses node

theorem leaves_readSelf (map : Json) : Leaves peersAndFilters (readSelf map) :=
  leaves_read fun _ =>
    .bind (leaves_mergeUserProfiles map) fun _ =>
      .bind (leaves_applyAccountMetadata map) fun _ =>
        .bind (leaves_liftJson _) fun node => .bind (leaves_applySelf map node) fun _ =>
          .bind (leaves_liftJson _) fun dns =>
            .bind (leaves_applyDnsConfig dns) fun _ => .pure dns

variable {map : Json} {c : NetworkConfig}

/-- **A map that is accepted** has the filters it carries, and no others. -/
theorem represents_of_parse (h : parse aton map = .ok c) :
    Represents (FilterSets.none.taking aton map) c.capabilityFilters := by
  obtain ⟨dns, c₀, ps, _, c₁, hsl, -, htk, h⟩ := parse_parts h
  -- Only what is in between writes the table, which starts out empty.
  have hfl₀ : c₀.capabilityFilters = [] :=
    ((leaves_readSelf map).comp Prod.snd).of_ok hsl
  have hfl := ((leaves_basis_chooseRegion map dns).comp fun b => b.2.2.2).of_ok h
  change c.capabilityFilters = c₁.capabilityFilters at hfl
  rw [hfl]
  have hrp : Represents .none ({ c₀ with peers := ps } : NetworkConfig).capabilityFilters := by
    rw [hfl₀]
    exact represents_nil
  have haf := hrp.applyCapabilityFilterUpdate aton map
  rw [after_of_ok htk] at haf
  exact haf

/-- What an update makes of the filters: whatever a message says that keeps
the connection alive is not looked at. -/
noncomputable def FilterSets.updated (aton : Aton) (map : Json)
    (F : FilterSets) : FilterSets :=
  match map.value "KeepAlive" Json.asBool false with
  | .ok false => F.taking aton map
  | _ => F

theorem exists_applyUpdate_eq (aton : Aton)
    (hke : map.value "KeepAlive" Json.asBool false = .ok false) (now : String) :
    ∃ rest : Unit → Configuring Bool, (∀ u, Leaves NetworkConfig.capabilityFilters (rest u)) ∧
      ∀ c, applyUpdate aton map now c =
        (updateConfig aton map >>= rest) { c with removedPeerNodeIds := [] } := by
  refine ⟨fun _ => do
    let c ← get
    let r ← updatePeers map now c.userProfiles c.peers
    modify fun c =>
      refreshPeerCapabilities aton { c with peers := r.2.1, removedPeerNodeIds := r.1 }
    whenever ((arrayUnder map "UserProfiles").isSome = true) (modify refreshPeerOwners)
    pure (concernsConfig map || map.contains "PeersRemoved" || map.contains "PeersChanged" ||
      r.2.2), fun _ => ?_, fun c => ?_⟩
  · exact .bind Leaves.get fun _ => .bind (Leaves.lift _) fun _ =>
      Leaves.bind (.modify fun _ => rfl) fun _ =>
        Leaves.bind (.whenever (.modify fun _ => rfl)) fun _ => .pure _
  · have hmd : applyUpdate aton map now c =
        (liftM (map.value "KeepAlive" Json.asBool false) >>= fun keepAlive =>
          if keepAlive then pure false else _ : Configuring Bool)
            { c with removedPeerNodeIds := [] } := rfl
    rw [hmd, hke]
    rfl

/-- **The table follows the updates**, whether they return or throw. -/
theorem Represents.applyUpdate (h : Represents F c.capabilityFilters)
    (aton : Aton) (map : Json) (now : String) :
    Represents (F.updated aton map) (after (applyUpdate aton map now) c).capabilityFilters := by
  have hmd : ∃ rest : Configuring Bool, NetworkMapParser.applyUpdate aton map now c =
      (liftM (map.value "KeepAlive" Json.asBool false) >>= fun keepAlive =>
        if keepAlive then pure false else rest : Configuring Bool)
          { c with removedPeerNodeIds := [] } := ⟨_, rfl⟩
  unfold FilterSets.updated
  cases hke : map.value "KeepAlive" Json.asBool false with
  | error =>
    obtain ⟨_, hrun⟩ := hmd
    rw [hke] at hrun
    unfold after
    rw [hrun]
    exact h
  | ok keepAlive =>
    cases keepAlive with
    | true =>
      obtain ⟨_, hrun⟩ := hmd
      rw [hke] at hrun
      unfold after
      rw [hrun]
      exact h
    | false =>
      obtain ⟨rest, hrs, hrun⟩ := exists_applyUpdate_eq aton hke now
      obtain ⟨_, hcf, heq⟩ := updateConfig_eq aton map
      -- Of all that follows, nothing writes the table.
      have haf : after (NetworkMapParser.applyUpdate aton map now) c =
          after (updateConfig aton map >>= rest) { c with removedPeerNodeIds := [] } := by
        unfold after
        rw [hrun c]
      rw [haf, Leaves.after_bind (f := NetworkConfig.capabilityFilters) hrs, heq,
        Leaves.after_bind (f := NetworkConfig.capabilityFilters) fun _ => hcf.comp Prod.snd]
      exact .applyCapabilityFilterUpdate (c := { c with removedPeerNodeIds := [] }) h aton map

/-! ## Who is granted what -/

/-- **The filters grant a peer a capability**: one of their grants names it,
whose sources contain an address of the peer and whose destinations contain
the node's first address of the same family. -/
def Granted (aton : Aton) (F : FilterSets) (c : NetworkConfig)
    (peer : PeerConfig) (name : String) : Prop :=
  ∃ key grants, F key = some grants ∧ ∃ grant ∈ grants, name ∈ grant.names ∧
    ∃ source ∈ addressesOf aton peer.addresses peer.address, ∃ destination,
      (addressesOf aton c.selfAddresses c.selfAddress).find? (·.family == source.family) =
          some destination ∧
        (∃ range ∈ grant.sources, range.contains source = true) ∧
          ∃ range ∈ grant.destinations, range.contains destination = true

/-- **The capabilities reflect the filters**: those of each peer are in order,
none twice, and they are just what the filters grant it. -/
def Reflects (aton : Aton) (F : FilterSets) (c : NetworkConfig) : Prop :=
  ∀ peer ∈ c.peers, peer.capabilities.Pairwise (· < ·) ∧
    ∀ name, name ∈ peer.capabilities ↔ Granted aton F c peer name

theorem grantApplies_iff {destinations : List IpAddress} {grant : CapabilityPresenceGrant}
    {src : IpAddress} :
    grantApplies destinations grant src = true ↔
      ∃ dst, destinations.find? (·.family == src.family) = some dst ∧
        (∃ range ∈ grant.sources, range.contains src = true) ∧
          ∃ range ∈ grant.destinations, range.contains dst = true := by
  unfold grantApplies
  cases destinations.find? fun val => val.family == src.family with
  | none =>
    constructor
    · exact fun h => absurd h Bool.false_ne_true
    · rintro ⟨_, hfo, -⟩
      cases hfo
  | some dst =>
    rw [Bool.and_eq_true, any_eq_true, any_eq_true]
    constructor
    · exact fun h => ⟨dst, rfl, h⟩
    · rintro ⟨_, hfo, h⟩
      cases hfo
      exact h

theorem mem_grantedCapabilities (h : Represents F c.capabilityFilters)
    {peer : PeerConfig} {name : String} :
    name ∈ grantedCapabilities aton c peer ↔ Granted aton F c peer name := by
  unfold grantedCapabilities Granted
  rw [mem_sortUnique, mem_flatMap]
  constructor
  · rintro ⟨grant, hgr, hnm⟩
    obtain ⟨hgr, hap⟩ := mem_filter.mp hgr
    obtain ⟨⟨key, grants⟩, hey, hgr⟩ := mem_flatMap.mp hgr
    obtain ⟨src, hsr, hap⟩ := any_eq_true.mp hap
    exact ⟨key, grants, h.mem_iff.mp hey, grant, hgr, hnm, src, hsr, grantApplies_iff.mp hap⟩
  · rintro ⟨_, _, hkey, grant, hgr, hnm, src, hsr, hap⟩
    refine ⟨grant, mem_filter.mpr ⟨mem_flatMap.mpr ⟨_, h.mem_iff.mpr hkey, hgr⟩, ?_⟩, hnm⟩
    exact any_eq_true.mpr ⟨src, hsr, grantApplies_iff.mpr hap⟩

theorem Refreshed.reflects (h : Refreshed aton c)
    (hfl : Represents F c.capabilityFilters) : Reflects aton F c := by
  intro peer hpr
  rw [h peer hpr]
  exact ⟨pairwise_lt_sortUnique _, fun name => mem_grantedCapabilities hfl⟩

/-! ## Histories -/

inductive MapCall
  | parse (map : Json)
  | applyUpdate (map : Json) (now : String)

/-- The current configuration, and what the messages so far have made of the
filters. -/
structure MapHistory where
  config : NetworkConfig
  filters : FilterSets

/-- **All histories of calls.** A full map that is accepted takes the place of
the configuration there was. An update changes it in place, also where it
throws. -/
def histories (aton : Aton) : TransitionSystem MapHistory MapCall where
  init s := s = ⟨{}, .none⟩
  step s call s' :=
    match call with
    | .parse map =>
      match parse aton map with
      | .ok c => s' = ⟨c, FilterSets.none.taking aton map⟩
      | .error _ => s' = s
    | .applyUpdate map now =>
      s' = ⟨after (applyUpdate aton map now) s.config, s.filters.updated aton map⟩

theorem represents_of_reachable {s : MapHistory} (h : (histories aton).Reachable s) :
    Represents s.filters s.config.capabilityFilters := by
  refine TransitionSystem.invariant
    (P := fun s : MapHistory => Represents s.filters s.config.capabilityFilters) ?_ ?_ h
  · rintro s rfl
    exact represents_nil
  · intro _ call _ hs hsp
    cases call with
    | parse map =>
      unfold histories at hsp
      dsimp only at hsp
      cases hpa : parse aton map with
      | ok =>
        rw [hpa] at hsp
        subst hsp
        exact represents_of_parse hpa
      | error =>
        rw [hpa] at hsp
        subst hsp
        exact hs
    | applyUpdate map now =>
      subst hsp
      exact hs.applyUpdate aton map now

/-- **Capabilities reflect the filters of all messages** after every full map
that is accepted and after every update that returns, whatever calls came
before. A message that keeps the connection alive leaves the configuration as
it is. -/
theorem capabilities_reflect_filters {s : MapHistory} (h : (histories aton).Reachable s) :
    (∀ map c, parse aton map = .ok c → Reflects aton (FilterSets.none.taking aton map) c) ∧
      ∀ map now changed c, applyUpdate aton map now s.config = .ok changed c →
        (map.value "KeepAlive" Json.asBool false = .ok false ∧
            Reflects aton (s.filters.taking aton map) c) ∨
          (map.value "KeepAlive" Json.asBool false = .ok true ∧
            c = { s.config with removedPeerNodeIds := [] } ∧
              (Reflects aton s.filters s.config → Reflects aton s.filters c)) := by
  constructor
  · intro _ _ hpa
    exact (parse_cases hpa).1.reflects (represents_of_parse hpa)
  · intro map now _ _ hup
    have hfl := (represents_of_reachable h).applyUpdate aton map now
    rw [after_of_ok hup] at hfl
    rcases applyUpdate_cases hup with
      ⟨hke, rfl⟩ | ⟨hke, c₁, removed, ps, found, -, -, -, rfl⟩
    · exact .inr ⟨hke, rfl, fun hrf => hrf⟩
    · unfold FilterSets.updated at hfl
      rw [hke] at hfl
      exact .inl ⟨hke, (refreshed_finish map removed ps c₁).reflects hfl⟩

/-! ## Filters that are cleared -/

def grantingMap : Json :=
  .object [("DERPMap", .object [("Regions", .object [("1", .object [("RegionCode", .string "nyc"),
          ("Nodes", .array [.object [("HostName", .string "derp1.example.com")]])])])]),
      ("DNSConfig", .object [("Routes", .object
        [("example.ts.net", .array [.object [("Addr", .string "100.64.0.2")]])])]),
      ("Node", .object [("ID", .number 1), ("Addresses", .array [.string "100.64.0.1/32"])]),
      ("PacketFilter", .array [.object [("SrcIPs", .array [.string "*"]),
        ("CapGrant", .array [.object [("Dsts", .array [.string "100.64.0.1"]),
          ("Caps", .array [.string "drive"])]])]]),
      ("Peers", .array [.object [("ID", .number 2), ("DERP", .string "127.3.3.40:1"),
        ("Addresses", .array [.string "100.64.0.2/32"])]])]

def grantingConfig : NetworkConfig :=
  match parse (fun _ => none) grantingMap with
  | .ok c => c
  | .error _ => {}

theorem parse_grantingMap : parse (fun _ => none) grantingMap = .ok grantingConfig := by
  rfl

/-- All filters are cleared, by a message that may keep the connection
alive. -/
def clearingMap (keepAlive : Bool) : Json :=
  .object [("KeepAlive", .bool keepAlive), ("PacketFilters", .object [("*", .null)])]

theorem taking_clearingMap (ka : Bool) (F : FilterSets) :
    F.taking aton (clearingMap ka) = FilterSets.none := by
  have hrd : Readable aton (clearingMap ka) := by
    refine ⟨fun rules hfo => ?_, fun val hfo => ?_⟩
    · cases hfo
    cases hfo
    refine ⟨_, rfl, fun upd hup hnm => ?_⟩
    rw [mem_singleton.mp hup] at hnm
    exact absurd rfl hnm
  unfold FilterSets.taking
  rw [if_pos hrd]
  funext name
  have hlu : lastUnder [("*", Json.null)] name = none := by
    unfold lastUnder
    by_cases hnm : name = "*"
    · rw [if_pos hnm]
    · rw [if_neg hnm, reverse_singleton, lookup_cons, beq_eq_false_iff_ne.mpr hnm]
      rfl
  have hfd : findPresent (clearingMap ka) "PacketFilters" = some (.object [("*", .null)]) := rfl
  unfold FilterSets.withNamed
  rw [hfd]
  dsimp only
  rw [hlu]
  rfl

def clearedConfig (keepAlive : Bool) : NetworkConfig :=
  after (applyUpdate (fun _ => none) (clearingMap keepAlive) "2026-01-01T00:01:00Z") grantingConfig

theorem capabilities_reflect_filters_cleared :
    grantingConfig.peers.map PeerConfig.capabilities = [["drive"]] ∧
      Reflects (fun _ => none) .none (clearedConfig false) ∧
        (clearedConfig false).peers.map PeerConfig.capabilities = [[]] := by
  refine ⟨by decide +kernel, ?_, by decide +kernel⟩
  have hrc : (histories fun _ => none).Reachable
      ⟨grantingConfig, FilterSets.none.taking (fun _ => none) grantingMap⟩ := by
    refine .step (e := .parse grantingMap) (.init rfl) ?_
    unfold histories
    dsimp only
    rw [parse_grantingMap]
  have hup : applyUpdate (fun _ => none) (clearingMap false) "2026-01-01T00:01:00Z"
      grantingConfig = .ok true (clearedConfig false) := by rfl
  rcases (capabilities_reflect_filters hrc).2 _ _ _ _ hup with
    ⟨-, hrf⟩ | ⟨hke, -⟩
  · rw [taking_clearingMap] at hrf
    exact hrf
  · cases hke

/-- **Filters that a message clears which keeps the connection alive** are
still in force once it has been applied. -/
theorem cleared_filters_in_force : parse (fun _ => none) grantingMap = .ok grantingConfig ∧
      applyUpdate (fun _ => none) (clearingMap true) "2026-01-01T00:01:00Z" grantingConfig =
          .ok false (clearedConfig true) ∧
        (FilterSets.none.taking (fun _ => none) grantingMap).taking (fun _ => none)
            (clearingMap true) = FilterSets.none ∧
          (clearedConfig true).peers.map PeerConfig.capabilities = [["drive"]] ∧
            ¬Reflects (fun _ => none) .none (clearedConfig true) := by
  have hcp : (clearedConfig true).peers.map PeerConfig.capabilities = [["drive"]] := by
    decide +kernel
  refine ⟨parse_grantingMap, by rfl, taking_clearingMap true _, hcp, fun hrf => ?_⟩
  have hmem : ["drive"] ∈ (clearedConfig true).peers.map PeerConfig.capabilities := by
    exact mem_singleton_self _
  obtain ⟨peer, hpr, hdr⟩ := mem_map.mp hmem
  have hnm : "drive" ∈ peer.capabilities := by
    rw [hdr]
    exact mem_singleton_self _
  obtain ⟨_, _, hkey, -⟩ := ((hrf peer hpr).2 "drive").mp hnm
  cases hkey

end NetworkMapParser

end Tailgate
