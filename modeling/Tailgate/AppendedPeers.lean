import Tailgate.CapabilityHistories
import Tailgate.DerpMetadata
import Tailgate.PeerDeltas

/-!
# A peer of a full map and a peer of an update

A peer may come with a full map, or on its own with a later update. It ends up
as the same peer, and last, if the update also carries the DERP map. But a full
map skips a node that has no address, and an update takes it in.
-/

namespace Tailgate

open Procedure DerpMetadata Throwing List

namespace NetworkMapParser

def appendPeer (map node : Json) : Json :=
  match map with
  | .object fields => .object (fields.map fun field =>
      if field.1 = "Peers" then (field.1, .array (field.2.elements ++ [node])) else field)
  | other => other

/-- The update that brings a node, with the DERP map of a full map. -/
def increment (map node : Json) : Json :=
  .object [("DERPMap", (map.find "DERPMap").getD .null), ("PeersChanged", .array [node])]

/-! ## The longer map -/

section Longer

variable {map node : Json} {key : String}

theorem lookup_appended (flds : List (String × Json)) (node : Json) (key : String) :
    (flds.map fun field =>
      if field.1 = "Peers" then (field.1, .array (field.2.elements ++ [node]))
      else field).lookup key = if key = "Peers" then (flds.lookup key).map fun val =>
          .array (val.elements ++ [node]) else flds.lookup key := by
  induction flds with
  | nil => simp
  | cons => grind

theorem find_appendPeer (hkey : key ≠ "Peers") : (appendPeer map node).find key = map.find key := by
  cases map with
  | object => simp [appendPeer, Json.find, lookup_appended, hkey]
  | _ => rfl

theorem field_appendPeer (hkey : key ≠ "Peers") :
    (appendPeer map node).field key = map.field key := by
  cases map with
  | object => simp [appendPeer, Json.field, lookup_appended, hkey]
  | _ => rfl

theorem value_appendPeer {α : Type} {read : Json → Except JsonError α} {default : α}
    (hkey : key ≠ "Peers") :
    (appendPeer map node).value key read default = map.value key read default := by
  cases map with
  | object => simp [appendPeer, Json.value, lookup_appended, hkey]
  | _ => rfl

theorem field_peers_appendPeer {nodes : Json} (h : map.field "Peers" = .ok nodes) :
    (appendPeer map node).field "Peers" = .ok (.array (nodes.elements ++ [node])) := by
  have hfd := Json.find_of_field h
  cases map with
  | object flds =>
    have hlk : flds.lookup "Peers" = some nodes := hfd
    simp [appendPeer, Json.field, lookup_appended, hlk]
  | _ => cases h

theorem capMap_appendPeer : capMap (appendPeer map node) = capMap map := by
  unfold capMap
  rw [find_appendPeer (by decide)]

theorem arrayUnder_appendPeer (hkey : key ≠ "Peers") :
    arrayUnder (appendPeer map node) key = arrayUnder map key := by
  unfold arrayUnder
  rw [find_appendPeer hkey]

theorem readSelf_appendPeer : readSelf (appendPeer map node) = readSelf map := by
  have hpr : arrayUnder (appendPeer map node) "UserProfiles" =
    arrayUnder map "UserProfiles" := arrayUnder_appendPeer (by decide)
  have hnm : tailnetDisplayName (appendPeer map node) = tailnetDisplayName map := by
    unfold tailnetDisplayName
    rw [capMap_appendPeer]
  have hmr : mergeUserProfiles (appendPeer map node) = mergeUserProfiles map := by
    unfold mergeUserProfiles
    rw [hpr]
  have hac : applyAccountMetadata (appendPeer map node) = applyAccountMetadata map := by
    unfold applyAccountMetadata nodeUser findUserProfile
    rw [hpr, hnm, find_appendPeer (by decide)]
  have hsl : applySelf (appendPeer map node) = applySelf map := by
    unfold applySelf capabilities
    rw [capMap_appendPeer]
  unfold readSelf
  rw [value_appendPeer (by decide), hmr, hac, hsl,
    field_appendPeer (show "Node" ≠ "Peers" by decide),
    field_appendPeer (show "DNSConfig" ≠ "Peers" by decide)]

theorem findPresent_appendPeer (hkey : key ≠ "Peers") :
    findPresent (appendPeer map node) key = findPresent map key := by
  unfold findPresent
  rw [find_appendPeer hkey]

theorem applyCapabilityFilterUpdate_appendPeer (aton : Aton) :
    applyCapabilityFilterUpdate aton (appendPeer map node) =
      applyCapabilityFilterUpdate aton map := by
  unfold applyCapabilityFilterUpdate updateBaseFilter updateNamedFilters
  rw [findPresent_appendPeer (show "PacketFilter" ≠ "Peers" by decide),
    findPresent_appendPeer (show "PacketFilters" ≠ "Peers" by decide)]

end Longer

variable {aton : Aton} {map node dns : Json} {profiles : List UserProfile}
  {ps qs : List PeerConfig} {p : PeerConfig} {c c' c₁ c₂ : NetworkConfig} {changed : Bool}

/-- The peers of the longer map are those of the map and one more, if it has an address. -/
theorem peers_appendPeer (h : peers map profiles = .ok ps)
    (h' : peers (appendPeer map node) profiles = .ok qs) :
    stringArray node "Addresses" = .ok [] ∧ qs = ps ∨ stringArray node "Addresses" ≠ .ok [] ∧
      ∃ p, peer node (updateRegions map) profiles = .ok p ∧ qs = ps ++ [p] := by
  obtain ⟨_, hdr, h⟩ := of_bind_ok h
  obtain ⟨_, hrg, h⟩ := of_bind_ok h
  obtain ⟨nodes, hno, h⟩ := of_bind_ok h
  obtain ⟨_, hfo, h⟩ := of_bind_ok h
  cases h
  rw [updateRegions_of_field (of_liftMap_ok hdr) (of_liftMap_ok hrg)]
  obtain ⟨_, hdr', h'⟩ := of_bind_ok h'
  rw [field_appendPeer (by decide), hdr] at hdr'
  cases hdr'
  obtain ⟨_, hrg', h'⟩ := of_bind_ok h'
  cases hrg.symm.trans hrg'
  obtain ⟨_, hnd', h'⟩ := of_bind_ok h'
  rw [field_peers_appendPeer (of_liftMap_ok hno)] at hnd'
  cases hnd'
  obtain ⟨_, hfo', h'⟩ := of_bind_ok h'
  cases h'
  rw [show Json.elements (.array (nodes.elements ++ [node])) = nodes.elements ++ [node] from rfl,
    mapM_append, hfo] at hfo'
  obtain ⟨_, hsm, hfo'⟩ := of_bind_ok hfo'
  cases hsm
  obtain ⟨_, hla, hfo'⟩ := of_bind_ok hfo'
  cases hfo'
  obtain ⟨_, hey, hla⟩ := of_bind_ok hla
  cases hla
  obtain ⟨addresses, had, hey⟩ := of_bind_ok hey
  have had := of_liftMap_ok had
  by_cases hno : addresses = []
  · rw [if_pos hno] at hey
    cases hey
    exact .inl ⟨hno ▸ had, by simp⟩
  · rw [if_neg hno] at hey
    obtain ⟨p, hp, hey⟩ := of_bind_ok hey
    cases hey
    exact .inr ⟨fun h => hno (Except.ok.inj (had.symm.trans h)), p, hp, by simp⟩

/-- The filters are read alike whatever peers there are. -/
theorem applyCapabilityFilterUpdate_withPeers
    (h : applyCapabilityFilterUpdate aton map c = .ok changed c') (ps : List PeerConfig) :
    applyCapabilityFilterUpdate aton map { c with peers := ps } =
      .ok changed { c' with peers := ps } := by
  rw [applyCapabilityFilterUpdate_eq] at h ⊢
  cases htn : takenFilters aton map c.capabilityFilters with
  | error =>
    rw [htn] at h
    cases h
  | ok filters =>
    rw [htn] at h
    show writeFilters map filters { c with peers := ps } = _
    unfold writeFilters whenever at h ⊢
    split at h
    · next hhas =>
      rw [if_pos hhas]
      cases h
      rfl
    · next hhas =>
      rw [if_neg hhas]
      cases h
      rfl

/-! ## The update -/

theorem updateRegions_increment : updateRegions (increment map node) = updateRegions map := by
  unfold updateRegions
  show ((some ((map.find "DERPMap").getD .null)).bind (·.find "Regions")).getD _ = _
  cases map.find "DERPMap" with
  | none | some => rfl

/-- The region that a map has chosen can be looked up again. -/
theorem updateHomeRegion_of_chooseRegion (h : chooseRegion map dns c₁ = .ok () c)
    (hrg : c₂.derpRegion = c.derpRegion) :
    ∃ c₃, updateHomeRegion (updateRegions map) c₂ = .ok () c₃ := by
  obtain ⟨_, _, -, h⟩ := of_bind_ok h
  obtain ⟨_, c₄, -, h⟩ := of_bind_ok h
  obtain ⟨_, _, hget, h⟩ := of_bind_ok h
  cases hget
  obtain ⟨r, _, hlk, h⟩ := of_bind_ok h
  obtain ⟨hfo, rfl⟩ := of_liftJson_ok hlk
  obtain ⟨_, c₅, hset, h⟩ := of_bind_ok h
  have hc : c = c₅ := by
    obtain ⟨_, _, hget, h⟩ := of_bind_ok h
    cases hget
    split at h
    · cases h
    · cases h
      rfl
  -- the region is the one that was looked up, and it could be read
  have hsm : c₅.derpRegion = c₄.derpRegion := (leaves_setHomeRegion
    (fun _ _ _ _ _ => rfl) r : Leaves NetworkConfig.derpRegion _).of_ok hset
  obtain ⟨_, hdr, hfo⟩ := of_bind_ok hfo
  obtain ⟨_, hre, hfo⟩ := of_bind_ok hfo
  obtain ⟨_, _, hget, hset⟩ := of_bind_ok hset
  cases hget
  obtain ⟨_, _, hco, hset⟩ := of_bind_ok hset
  obtain ⟨_, _, -, hset⟩ := of_bind_ok hset
  obtain ⟨_, _, hhs, hset⟩ := of_bind_ok hset
  obtain ⟨_, _, -, hset⟩ := of_bind_ok hset
  obtain ⟨_, _, hsn, -⟩ := of_bind_ok hset
  unfold updateHomeRegion setHomeRegion
  rw [get_bind, hrg, hc, hsm, updateRegions_of_field hdr hre, Json.find_of_field hfo]
  dsimp only
  rw [get_bind, hrg, hc, hsm, (of_liftJson_ok hco).1, (of_liftJson_ok hhs).1,
    (of_liftJson_ok hsn).1]
  exact ⟨_, rfl⟩

variable {now : String}

theorem updatePeers_increment (hds : ∀ p ∈ ps, applyDerpMetadata (updateRegions map) p = .ok p)
    (hpr : peer node (updateRegions map) profiles = .ok p) (hnew : p.nodeId ∉ ids ps) :
    updatePeers (increment map node) now profiles ps = .ok ([], ps ++ [p], false) := by
  have hfd : findPeer ps p.nodeId = none := by
    refine find?_eq_none.mpr fun q hq => ?_
    simpa using fun heq => hnew (mem_map.mpr ⟨q, hq, heq⟩)
  have hkp : keptPeers (increment map node) ps = .ok ([], ps) := by
    unfold keptPeers
    rw [updateRegions_increment, mapM_eq_self hds]
    show Except.ok _ = _
    simp
  have hcd : changePeers (increment map node) profiles ps = .ok (ps ++ [p]) := by
    show [node].foldlM (changePeer (updateRegions (increment map node)) profiles) ps = _
    rw [updateRegions_increment, foldlM_cons, changePeer, hpr]
    dsimp only [bind, Except.bind]
    rw [hfd]
    rfl
  unfold updatePeers
  rw [hkp]
  show changePeers (increment map node) profiles ps >>= _ = _
  rw [hcd]
  rfl

theorem applyDerpMetadata_of_described (h : Described [updateRegions map] p) :
    applyDerpMetadata (updateRegions map) p = .ok p := by
  unfold applyDerpMetadata
  split
  · rfl
  · next hrg =>
    cases hfd : (updateRegions map).find (toString p.derpRegion) with
    | none => rfl
    | some r =>
      obtain ⟨hco, hhs⟩ := h hrg r (by rw [named_cons, hfd]; rfl)
      dsimp only
      rw [hco, hhs]
      rfl

variable (aton) in
/-- What is left of an update that brings a node, once the region has been looked up. -/
theorem applyUpdate_increment_eq {c₃ : NetworkConfig}
    (hrg : updateHomeRegion (updateRegions map) { c with removedPeerNodeIds := [] } =
      .ok () c₃)
    (hps : updatePeers (increment map node) now c₃.userProfiles c₃.peers = .ok ([], qs, false)) :
    ∃ changed, applyUpdate aton (increment map node) now c = .ok changed
      (refreshPeerCapabilities aton { c₃ with peers := qs, removedPeerNodeIds := [] }) := by
  refine ⟨concernsConfig (increment map node) || (increment map node).contains "PeersRemoved" ||
    (increment map node).contains "PeersChanged" || false, ?_⟩
  show (updateHomeRegion (updateRegions (increment map node)) >>= fun _ => _)
    { c with removedPeerNodeIds := [] } = _
  rw [updateRegions_increment, bind_ok hrg, get_bind, hps]
  rfl

/-- An update takes its node in, with or without an address. -/
theorem mem_ids_increment (h : applyUpdate aton (increment map node) now c = .ok changed c') :
    ∃ id, nodeId node = .ok id ∧ id ∈ ids c'.peers := by
  rcases applyUpdate_cases h with ⟨hke, -⟩ | ⟨-, c₁, removed, ps, _, -, -, hps, rfl⟩
  · cases hke
  · have hdl := delta_updatePeers hps
    obtain ⟨_, -, hps⟩ := of_bind_ok hps
    obtain ⟨_, hcd, -⟩ := of_bind_ok hps
    obtain ⟨_, hcd, -⟩ := of_bind_ok hcd
    obtain ⟨p, hp, -⟩ := of_bind_ok hcd
    have hid := nodeId_of_peer hp
    refine ⟨p.nodeId, hid, ?_⟩
    rw [(framed_finish (S := ∅) aton (increment map node) removed ps c₁).ids_eq]
    exact (hdl.mem_iff p.nodeId).mpr (.inr ⟨_, node, rfl, mem_singleton_self node, hid⟩)

/-- **A peer comes with an update as it comes with a full map exactly if it has an address.** -/
theorem applyUpdate_increment (now : String) (h : parse aton map = .ok c)
    (h' : parse aton (appendPeer map node) = .ok c')
    (hnew : ∀ id, nodeId node = .ok id → id ∉ ids c.peers) :
    (∃ changed c'', applyUpdate aton (increment map node) now c = .ok changed c''
      ∧ c''.peers = c'.peers) ↔ stringArray node "Addresses" ≠ .ok [] := by
  have hds := allDescribed_of_parse h
  obtain ⟨dns, c₀, ps, _, c₁, hsl, hps, hfl, hcs⟩ := parse_parts h
  obtain ⟨_, _, _, _, _, hsl', hqs, hfl', hch'⟩ := parse_parts h'
  -- the two maps differ in their peers only
  rw [readSelf_appendPeer, hsl] at hsl'
  cases hsl'
  rw [applyCapabilityFilterUpdate_appendPeer, applyCapabilityFilterUpdate_withPeers hfl _] at hfl'
  cases hfl'
  -- so the peers are the same but for the last, and the capabilities follow from the same data
  let known (c : NetworkConfig) := (basis c, c.userProfiles)
  have hkn : known c = known (refreshPeerCapabilities aton c₁) :=
    (leaves_chooseRegion (fun _ _ _ _ _ => rfl) map dns fun _ _ _ => rfl : Leaves known _).of_ok hcs
  have hrd := (leaves_applyCapabilityFilterUpdate aton map fun _ _ => rfl :
    Leaves (fun c => (c.peers, c.userProfiles)) _).of_ok hfl
  obtain ⟨hpr, hprf⟩ := Prod.mk.inj hrd
  have hps' : c'.peers = _ := congrArg Prod.fst
    ((leaves_basis_chooseRegion (appendPeer map node) dns).of_ok hch')
  have hc : c.peers = ps.map fun q => { q with capabilities := grantedCapabilities aton c₁ q } := by
    rw [← show c₁.peers = ps from hpr]
    exact congrArg (fun k => k.1.1) hkn
  obtain ⟨hno, rfl⟩ | ⟨hno, p, hp, rfl⟩ := peers_appendPeer hps hqs
  · -- the full map skips the node, and the update does not
    refine iff_of_false ?_ (not_not.mpr hno)
    rintro ⟨_, c'', hrun, heq⟩
    obtain ⟨id, hid, hmem⟩ := mem_ids_increment hrun
    rw [heq, show c'.peers = c.peers from hps'.trans hc.symm] at hmem
    exact hnew id hid hmem
  refine iff_of_true ?_ hno
  obtain ⟨c₃, hrg⟩ : ∃ c₃, updateHomeRegion (updateRegions map)
      { c with removedPeerNodeIds := [] } = .ok () c₃ :=
    updateHomeRegion_of_chooseRegion hcs rfl
  have hsm := (leaves_updateHomeRegion (fun _ _ _ _ _ => rfl) _ : Leaves known _).of_ok hrg
  have hps₃ : c₃.peers = c.peers := congrArg (fun k => k.1.1) hsm
  obtain ⟨hbs, hpr₃⟩ := Prod.mk.inj (hsm.trans hkn)
  have hup : updatePeers (increment map node) now c₃.userProfiles c₃.peers =
      .ok ([], c.peers ++ [p], false) := by
    rw [hps₃, show c₃.userProfiles = c₀.userProfiles from hpr₃.trans hprf]
    exact updatePeers_increment (fun q hq => applyDerpMetadata_of_described (hds q hq)) hp
      (hnew _ (nodeId_of_peer hp))
  obtain ⟨changed, hrun⟩ := applyUpdate_increment_eq aton hrg hup
  refine ⟨changed, _, hrun, ?_⟩
  have hgr (q : PeerConfig) : grantedCapabilities aton { c₃ with
      peers := c.peers ++ [p], removedPeerNodeIds := [] } q = grantedCapabilities aton c₁ q := by
    simp only [basis, Prod.mk.injEq] at hbs
    obtain ⟨-, had, has, hfl⟩ := hbs
    unfold grantedCapabilities
    rw [had, has, hfl]
    rfl
  rw [hps']
  show (c.peers ++ [p]).map _ = (ps ++ [p]).map _
  simp only [hgr]
  rw [hc, map_append, map_append, map_map]
  rfl

/-- A node that may come on its own, with or without an address. -/
def newcomer (addresses : List Json) : Json :=
  .object [("ID", .number 3), ("Addresses", .array addresses)]

theorem applyUpdate_increment_newcomer : ∃ c' changed c'',
    parse (fun _ => none) (appendPeer grantingMap (newcomer [.string "100.64.0.3/32"])) = .ok c'
      ∧ applyUpdate (fun _ => none) (increment grantingMap (newcomer [.string "100.64.0.3/32"])) ""
        grantingConfig = .ok changed c''
      ∧ c''.peers = c'.peers := by
  have hpa : parse (fun _ => none)
      (appendPeer grantingMap (newcomer [.string "100.64.0.3/32"])) = .ok _ := rfl
  obtain ⟨changed, c'', hrun, hps⟩ := (applyUpdate_increment "" parse_grantingMap hpa
    (fun id hid => by cases hid; decide +kernel)).mpr (by decide)
  exact ⟨_, changed, c'', hpa, hrun, hps⟩

/-- **A node without an address** comes with an update but not with a full map. -/
theorem newcomer_without_address : ∃ c' changed c'',
    parse (fun _ => none) (appendPeer grantingMap (newcomer [])) = .ok c'
      ∧ applyUpdate (fun _ => none) (increment grantingMap (newcomer [])) "" grantingConfig
        = .ok changed c''
      ∧ ids c'.peers = [2] ∧ ids c''.peers = [2, 3] :=
  ⟨_, _, _, rfl, rfl, by decide +kernel, by decide +kernel⟩

end NetworkMapParser

end Tailgate
