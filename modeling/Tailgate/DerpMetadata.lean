import Tailgate.ControlMaps
import Tailgate.TransitionSystem

/-!
# What the peers know of their DERP regions

A peer carries the host and the code of its region. They come from the DERP map,
which the program does not keep: it writes what the map says to the peers that
are in a region at the time.

`Described` is what a peer is to know, what the last DERP map to name its region
said. An update keeps it where every peer that is added or moved comes with its
region, or is already in it, or where no DERP map has named it
(`peers_described`).
-/

namespace Tailgate

open Procedure NetworkMapParser List Throwing

namespace DerpMetadata

open ControlClient (MapMessage)

/-! ## What the DERP maps have said -/

variable (history : List Json)

def named (region : ℤ) : Option Json :=
  history.findSome? fun regions => regions.find (toString region)

/-- **A peer knows what the last DERP map to name its region said.** -/
def Described (peer : PeerConfig) : Prop :=
  peer.derpRegion ≠ 0 → ∀ region, named history peer.derpRegion = some region →
    regionCode region peer.derpRegion = .ok peer.derpCode ∧ derpHost region = .ok peer.derpHost

/-- A region comes with its description, or nothing is known of it, or it is
none. -/
def Told (regions : Json) (region : ℤ) : Prop :=
  region = 0 ∨ regions.contains (toString region) = true ∨ named history region = none

variable {history} {regions : Json} {p q : PeerConfig} {r : ℤ} {node : Json}
  {new : PeerConfig} {c : NetworkConfig}

theorem named_cons :
    named (regions :: history) r = (regions.find (toString r)).or (named history r) :=
  findSome?_cons.trans (by cases regions.find (toString r) <;> rfl)

theorem Described.congr (h : Described history p) (hrg : q.derpRegion = p.derpRegion)
    (hco : q.derpCode = p.derpCode) (hhs : q.derpHost = p.derpHost) :
    Described history q := by
  unfold Described
  rw [hrg, hco, hhs]
  exact h

theorem Told.described (h : Told history regions p.derpRegion) :
    regions.contains (toString p.derpRegion) = true ∨ Described history p := by
  rcases h with hzero | hcn | hno
  · exact .inr fun hne => absurd hzero hne
  · exact .inl hcn
  · refine .inr fun _ region hrg => ?_
    rw [hno] at hrg
    cases hrg

/-! ## One peer -/

/-- Either a DERP map does not name the region of a peer, or the peer is given
what it says. -/
theorem applyDerpMetadata_cases (h : applyDerpMetadata regions p = .ok q) :
    (p.derpRegion = 0 ∨ regions.find (toString p.derpRegion) = none) ∧ q = p ∨
      ∃ region, regions.find (toString p.derpRegion) = some region ∧
        ∃ code host, regionCode region p.derpRegion = .ok code ∧ derpHost region = .ok host ∧
          q = { p with derpCode := code, derpHost := host } := by
  unfold applyDerpMetadata at h
  by_cases hzero : p.derpRegion = 0
  · rw [if_pos hzero] at h
    cases h
    exact .inl ⟨.inl hzero, rfl⟩
  · rw [if_neg hzero] at h
    cases hfd : regions.find (toString p.derpRegion) with
    | none =>
      rw [hfd] at h
      cases h
      exact .inl ⟨.inr rfl, rfl⟩
    | some region =>
      rw [hfd] at h
      obtain ⟨code, hco, h⟩ := of_bind_ok h
      obtain ⟨host, hhs, h⟩ := of_bind_ok h
      cases h
      exact .inr ⟨region, rfl, code, host, of_liftMap_ok hco, of_liftMap_ok hhs, rfl⟩

theorem described_of_applyDerpMetadata (h : applyDerpMetadata regions p = .ok q)
    (hp : regions.contains (toString p.derpRegion) = true ∨ Described history p) :
    Described (regions :: history) q := by
  rcases applyDerpMetadata_cases h with
    ⟨hno, rfl⟩ | ⟨region, hfd, code, host, hco, hhs, rfl⟩
  · intro hne
    have hfd : regions.find (toString q.derpRegion) = none := hno.resolve_left hne
    rw [named_cons, hfd]
    refine (hp.resolve_left fun hcn => ?_) hne
    unfold Json.contains at hcn
    rw [hfd] at hcn
    cases hcn
  · intro _ _ hfo
    rw [named_cons, hfd] at hfo
    cases hfo
    exact ⟨hco, hhs⟩

theorem derpRegion_of_applyDerpMetadata (h : applyDerpMetadata regions p = .ok q) :
    q.derpRegion = p.derpRegion := by
  rcases applyDerpMetadata_cases h with ⟨-, rfl⟩ | ⟨_, -, _, _, -, -, rfl⟩
  · rfl
  · rfl

structure Unlocated (p : PeerConfig) : Prop where
  region : p.derpRegion = 0
  code : p.derpCode = ""
  host : p.derpHost = ""

theorem unlocated_peerIdentity (node : Json) (profiles : List UserProfile) :
    Throwing.Returns Unlocated (peerIdentity node profiles) := by
  refine .skip fun _ => .skip fun _ => .skip fun _ => .skip fun _ => .skip fun _ => .skip fun _ =>
    .skip fun _ => .skip fun _ => .skip fun _ => ?_
  unfold applyPeerHostInfo
  split
  · exact .skip fun _ => .skip fun _ => .skip fun _ => .skip fun _ => .skip fun _ =>
      .pure ⟨rfl, rfl, rfl⟩
  · exact .pure ⟨rfl, rfl, rfl⟩

/-- A peer that has just been read knows of its region what it is told, and
has a code only if it is told one. -/
structure Located (history : List Json) (regions : Json) (q : PeerConfig) : Prop where
  described : Told history regions q.derpRegion → Described (regions :: history) q
  contains : q.derpCode ≠ "" → regions.contains (toString q.derpRegion) = true

theorem located_applyPeerRegion (hp : Unlocated p) :
    Throwing.Returns (Located history regions) (applyPeerRegion node regions p) := by
  refine .skip fun region => ?_
  cases region with
  | none =>
    refine .pure ⟨fun _ hne => absurd hp.region hne, fun hne => absurd hp.code hne⟩
  | some =>
    intro _ hq
    have hrg := derpRegion_of_applyDerpMetadata hq
    constructor
    · intro htl
      rw [hrg] at htl
      exact described_of_applyDerpMetadata hq htl.described
    · intro hne
      rcases applyDerpMetadata_cases hq with ⟨-, rfl⟩ | ⟨_, hfd, _, _, -, -, rfl⟩
      · exact absurd hp.code hne
      · unfold Json.contains
        rw [hfd]
        rfl

/-- **A peer that has just been read** knows of its region what it is told. -/
theorem located_peer (history : List Json) (node : Json) (profiles : List UserProfile) :
    Throwing.Returns (Located history regions) (peer node regions profiles) :=
  .bind (unlocated_peerIdentity node profiles) fun _ hiy =>
    .bind (located_applyPeerRegion hiy) fun _ hlc =>
      .skip fun _ => .skip fun _ => .skip fun _ => .pure ⟨hlc.described, hlc.contains⟩

/-- A peer that replaces another one in its region knows what that one did. -/
theorem described_keepKnown {old : PeerConfig} (hex : Described (regions :: history) old)
    (hnew : Located history regions new)
    (h : Told history regions new.derpRegion ∨ old.derpRegion = new.derpRegion) :
    Described (regions :: history) (keepKnown old new) := by
  have hrg : Described (regions :: history) (keepRegion old new) := by
    unfold keepRegion
    by_cases hsm : new.derpRegion = old.derpRegion ∧ new.derpCode = ""
    · rw [if_pos hsm]
      exact hex.congr hsm.1 rfl rfl
    · rw [if_neg hsm]
      refine hnew.described (h.elim id fun hrg => .inr (.inl (hnew.contains fun hco => ?_)))
      exact hsm ⟨hrg.symm, hco⟩
  unfold keepKnown keepOwner
  split
  · exact hrg.congr rfl rfl rfl
  · exact hrg

/-! ## All peers -/

def AllDescribed (history : List Json) (peers : List PeerConfig) : Prop :=
  ∀ p ∈ peers, Described history p

theorem mem_or_eq_of_mem_modifyPeer {id : ℕ} {peers : List PeerConfig}
    (h : q ∈ modifyPeer id (fun _ => new) peers) : q ∈ peers ∨ q = new := by
  induction peers with
  | nil => cases h
  | cons p _ ih =>
    unfold modifyPeer at h
    by_cases hid : p.nodeId = id
    · rw [if_pos hid] at h
      rcases mem_cons.mp h with rfl | hmem
      · exact .inr rfl
      · exact .inl (mem_cons_of_mem p hmem)
    · rw [if_neg hid] at h
      rcases mem_cons.mp h with rfl | hmem
      · exact .inl mem_cons_self
      · exact (ih hmem).imp_left (mem_cons_of_mem p)

theorem AllDescribed.modifyPeer {peers : List PeerConfig} {id : ℕ}
    (h : AllDescribed history peers) (hnew : Described history new) :
    AllDescribed history (modifyPeer id (fun _ => new) peers) := by
  intro q hq
  rcases mem_or_eq_of_mem_modifyPeer hq with hmem | rfl
  · exact h q hmem
  · exact hnew

/-- Each node of an update is told of its region, or replaces a peer that is
in it by then. -/
def ChangesTold (history : List Json) (regions : Json) (profiles : List UserProfile) :
    List PeerConfig → List Json → Prop
  | _, [] => True
  | peers, node :: nodes =>
    (∀ new, peer node regions profiles = .ok new → Told history regions new.derpRegion ∨
        ∃ existing, findPeer peers new.nodeId = some existing ∧
          existing.derpRegion = new.derpRegion) ∧
    ∀ peers', changePeer regions profiles peers node = .ok peers' →
      ChangesTold history regions profiles peers' nodes

theorem AllDescribed.changePeer {peers peers' : List PeerConfig}
    {profiles : List UserProfile} (h : AllDescribed (regions :: history) peers)
    (htl : ∀ new, peer node regions profiles = .ok new → Told history regions new.derpRegion ∨
        ∃ old, findPeer peers new.nodeId = some old ∧ old.derpRegion = new.derpRegion)
    (hcg : changePeer regions profiles peers node = .ok peers') :
    AllDescribed (regions :: history) peers' := by
  obtain ⟨new, hnew, hcg⟩ := of_bind_ok hcg
  have hds := located_peer history node profiles new hnew
  cases hfd : findPeer peers new.nodeId with
  | none =>
    rw [hfd] at hcg
    cases hcg
    refine forall_mem_append.mpr ⟨h, forall_mem_singleton.mpr ?_⟩
    refine hds.described ((htl new hnew).resolve_right ?_)
    rintro ⟨_, hex, -⟩
    rw [hfd] at hex
    cases hex
  | some old =>
    rw [hfd] at hcg
    cases hcg
    have hex := h old (mem_of_find?_eq_some hfd)
    refine h.modifyPeer (described_keepKnown hex hds ?_)
    refine (htl new hnew).imp_right ?_
    rintro ⟨_, hfo, hrg⟩
    rw [hfd] at hfo
    cases hfo
    exact hrg

theorem AllDescribed.changeFound {state state' : List PeerConfig × Bool} {id : ℕ}
    {f : PeerConfig → Except MapError PeerConfig} (h : AllDescribed history state.1)
    (hf : ∀ p q, f p = .ok q → Described history p → Described history q)
    (hcg : changeFound id f state = .ok state') : AllDescribed history state'.1 := by
  unfold NetworkMapParser.changeFound at hcg
  cases hfd : findPeer state.1 id with
  | none =>
    rw [hfd] at hcg
    cases hcg
    exact h
  | some peer =>
    rw [hfd] at hcg
    obtain ⟨new, hnew, hcg⟩ := of_bind_ok hcg
    cases hcg
    exact h.modifyPeer (hf peer new hnew (h peer (mem_of_find?_eq_some hfd)))

def PatchesTold (history : List Json) (regions : Json) (patches : List Json) : Prop :=
  ∀ patch ∈ patches, ∀ value r, patch.find "DERPRegion" = some value → value.asInt = .ok r →
    Told history regions r

/-- A patch that is told of the region it sets leaves a peer that knows of
it. -/
theorem described_patchPeer {patch : Json}
    (htl : ∀ val r, patch.find "DERPRegion" = some val → val.asInt = .ok r → Told history regions r)
    (hp : Described (regions :: history) p) (h : patchPeer patch regions p = .ok q) :
    Described (regions :: history) q := by
  obtain ⟨located, hlc, h⟩ := of_bind_ok h
  obtain ⟨reached, hrc, h⟩ := of_bind_ok h
  cases h
  have hrg : Described (regions :: history) located := by
    unfold patchRegion at hlc
    cases hfd : patch.find "DERPRegion" with
    | none =>
      rw [hfd] at hlc
      cases hlc
      exact hp
    | some val =>
      rw [hfd] at hlc
      obtain ⟨r, hr, hlc⟩ := of_bind_ok hlc
      exact described_of_applyDerpMetadata hlc (htl val r hfd (of_liftMap_ok hr)).described
  have hes : Described (regions :: history) reached := by
    unfold patchEndpoints at hrc
    cases hfd : patch.find "Endpoints" with
    | none =>
      rw [hfd] at hrc
      cases hrc
      exact hrg
    | some =>
      rw [hfd] at hrc
      obtain ⟨_, -, hrc⟩ := of_bind_ok hrc
      cases hrc
      exact hrg.congr rfl rfl rfl
  exact hes.congr rfl rfl rfl

/-! ## Updates -/

def changedNodes (map : Json) : List Json := ((map.find "PeersChanged").map Json.elements).getD []

def patches (map : Json) : List Json := ((map.find "PeersChangedPatch").map Json.elements).getD []

section Peers

variable {map : Json} {peers peers' kept : List PeerConfig} {removed : List ℕ}

theorem AllDescribed.keptPeers (h : AllDescribed history peers)
    (hkp : keptPeers map peers = .ok (removed, kept)) :
    AllDescribed (updateRegions map :: history) kept := by
  obtain ⟨_, hds, hkp⟩ := of_bind_ok hkp
  obtain ⟨_, -, hkp⟩ := of_bind_ok hkp
  cases hkp
  intro _ hq
  obtain ⟨p, hp, hmt⟩ :=
    exists_of_mem_mapM hds (mem_of_mem_filter hq)
  exact described_of_applyDerpMetadata hmt (.inr (h p hp))

variable {profiles : List UserProfile} {state state' : List PeerConfig × Bool}

theorem AllDescribed.changePeers (h : AllDescribed (updateRegions map :: history) peers)
    (htl : ChangesTold history (updateRegions map) profiles peers (changedNodes map))
    (hcg : changePeers map profiles peers = .ok peers') :
    AllDescribed (updateRegions map :: history) peers' := by
  unfold NetworkMapParser.changePeers at hcg
  unfold changedNodes at htl
  cases hfd : map.find "PeersChanged" with
  | none =>
    rw [hfd] at hcg
    cases hcg
    exact h
  | some nodes =>
    rw [hfd] at hcg htl
    refine (foldlM_induction (L := fun nodes peers =>
      AllDescribed (updateRegions map :: history) peers ∧
        ChangesTold history (updateRegions map) profiles peers nodes) ?_ ⟨h, htl⟩ hcg).1
    rintro _ _ _ peers' ⟨hps, hnd, hno⟩ hsp
    exact ⟨hps.changePeer hnd hsp, hno peers' hsp⟩

theorem AllDescribed.eachItem {key : String}
    {f : String × Json → PeerConfig → Except MapError PeerConfig} (h : AllDescribed history state.1)
    (hf : ∀ change p q, f change p = .ok q → Described history p → Described history q)
    (hec : eachItem map key (fun state change => do
      let id ← stoull change.1
      NetworkMapParser.changeFound id (f change) state) state = .ok state') :
    AllDescribed history state'.1 := by
  unfold NetworkMapParser.eachItem at hec
  cases hfd : map.find key with
  | none =>
    rw [hfd] at hec
    cases hec
    exact h
  | some =>
    rw [hfd] at hec
    refine foldlM_induction (L := fun _ state => AllDescribed history state.1) ?_ h hec
    intro change _ _ _ hsta hsp
    obtain ⟨_, -, hsp⟩ := of_bind_ok hsp
    exact hsta.changeFound (hf change) hsp

theorem AllDescribed.patchPeers (h : AllDescribed (updateRegions map :: history) state.1)
    (htl : PatchesTold history (updateRegions map) (patches map))
    (hpt : patchPeers map state = .ok state') :
    AllDescribed (updateRegions map :: history) state'.1 := by
  unfold NetworkMapParser.patchPeers at hpt
  unfold patches at htl
  cases hfd : map.find "PeersChangedPatch" with
  | none =>
    rw [hfd] at hpt
    cases hpt
    exact h
  | some =>
    rw [hfd] at hpt htl
    refine (foldlM_induction (L := fun left state =>
      AllDescribed (updateRegions map :: history) state.1 ∧
        PatchesTold history (updateRegions map) left) ?_ ⟨h, htl⟩ hpt).1
    rintro patch _ _ _ ⟨hsta, hlf⟩ hsp
    obtain ⟨_, -, hsp⟩ := of_bind_ok hsp
    refine ⟨hsta.changeFound (fun p q hq hp => ?_) hsp,
      fun other hot => hlf other (mem_cons_of_mem patch hot)⟩
    exact described_patchPeer (hlf patch mem_cons_self) hp hq

/-- **The peers of an update know of their regions** where the update tells
them. -/
theorem AllDescribed.updatePeers {now : String} {found : Bool} (h : AllDescribed history peers)
    (hcs : ∀ removed kept, NetworkMapParser.keptPeers map peers = .ok (removed, kept) →
      ChangesTold history (updateRegions map) profiles kept (changedNodes map))
    (hpt : PatchesTold history (updateRegions map) (patches map))
    (hup : updatePeers map now profiles peers = .ok (removed, peers', found)) :
    AllDescribed (updateRegions map :: history) peers' := by
  obtain ⟨⟨_, kept⟩, hkp, hup⟩ := of_bind_ok hup
  obtain ⟨_, hcd, hup⟩ := of_bind_ok hup
  obtain ⟨online, hon, hup⟩ := of_bind_ok hup
  obtain ⟨seen, hsn, hup⟩ := of_bind_ok hup
  obtain ⟨_, hpa, hup⟩ := of_bind_ok hup
  cases hup
  have hds := (h.keptPeers hkp).changePeers (hcs _ kept hkp) hcd
  have hds : AllDescribed (updateRegions map :: history) online.1 := by
    refine AllDescribed.eachItem hds (fun change p q hq hp => ?_) hon
    obtain ⟨_, -, hq⟩ := of_bind_ok hq
    cases hq
    exact hp.congr rfl rfl rfl
  have hds : AllDescribed (updateRegions map :: history) seen.1 := by
    refine AllDescribed.eachItem hds (fun change p q hq hp => ?_) hsn
    obtain ⟨_, -, hq⟩ := of_bind_ok hq
    cases hq
    exact hp.congr rfl rfl rfl
  exact hds.patchPeers hpt hpa

end Peers

/-! ## Runs -/

structure Followed where
  config : NetworkConfig
  /-- The regions of the DERP maps, those of the last map first. -/
  history : List Json

variable (aton : Aton)

def updates : TransitionSystem Followed MapMessage where
  init s := ∃ map, parse aton map = .ok s.config ∧ s.history = [updateRegions map]
  step s message s' :=
    (∃ changed, applyUpdate aton message.json message.now s.config = .ok changed s'.config) ∧
      s'.history = updateRegions message.json :: s.history

/-- **What an update must be**: it does not only keep the connection alive if
it has a DERP map; each node it adds or replaces is told of its region, or is
in it already; and each patch of a region is told of it. -/
structure RegionsTold (s : Followed) (message : MapMessage) : Prop where
  /-- A message that keeps the connection alive describes no region. -/
  alive : message.json.value "KeepAlive" Json.asBool false = .ok true →
    updateRegions message.json = .object []
  /-- A node is told of its region or is in it. -/
  changes : ∀ removed kept profiles, keptPeers message.json s.config.peers = .ok (removed, kept) →
    ChangesTold s.history (updateRegions message.json) profiles kept (changedNodes message.json)
  /-- A patch is told of the region it sets. -/
  patches : PatchesTold s.history (updateRegions message.json) (patches message.json)

variable {aton}

theorem AllDescribed.refreshPeerCapabilities (h : AllDescribed history c.peers) :
    AllDescribed history (refreshPeerCapabilities aton c).peers := by
  intro _ hq
  obtain ⟨p, hp, rfl⟩ := mem_map.mp hq
  exact (h p hp).congr rfl rfl rfl

theorem AllDescribed.finish {map : Json} {removed : List ℕ} {peers : List PeerConfig}
    (h : AllDescribed history peers) :
    AllDescribed history (finish aton map removed peers c).peers := by
  have hrf : AllDescribed history (NetworkMapParser.refreshPeerCapabilities aton
      { c with peers, removedPeerNodeIds := removed }).peers := h.refreshPeerCapabilities
  unfold NetworkMapParser.finish
  split
  · intro _ hq
    obtain ⟨p, hp, rfl⟩ := mem_map.mp hq
    dsimp only
    split
    · exact hrf p hp
    · exact (hrf p hp).congr rfl rfl rfl
  · exact hrf

theorem updateRegions_of_field {map derpMap : Json} (hdr : map.field "DERPMap" = .ok derpMap)
    (hrg : derpMap.field "Regions" = .ok regions) : updateRegions map = regions := by
  unfold updateRegions
  rw [Json.find_of_field hdr]
  show (derpMap.find "Regions").getD _ = regions
  rw [Json.find_of_field hrg]
  rfl

/-- **The peers of a full map know of their regions.** -/
theorem allDescribed_of_parse {map : Json} (h : parse aton map = .ok c) :
    AllDescribed [updateRegions map] c.peers := by
  obtain ⟨-, profiles, _, _, hps, hc₁, heq⟩ := parse_cases h
  obtain ⟨_, hdr, hps⟩ := of_bind_ok hps
  obtain ⟨_, hrg, hps⟩ := of_bind_ok hps
  obtain ⟨_, -, hps⟩ := of_bind_ok hps
  obtain ⟨_, hfo, hps⟩ := of_bind_ok hps
  cases hps
  rw [heq, updateRegions_of_field (of_liftMap_ok hdr) (of_liftMap_ok hrg)]
  refine .refreshPeerCapabilities ?_
  rw [hc₁]
  intro q hq
  obtain ⟨_, hey, hso⟩ := mem_filterMap.mp hq
  obtain ⟨node, -, hnd⟩ := exists_of_mem_mapM hfo hey
  subst hso
  obtain ⟨_, -, hnd⟩ := of_bind_ok hnd
  split at hnd
  · cases hnd
  · obtain ⟨_, hp, hnd⟩ := of_bind_ok hnd
    cases hnd
    exact (located_peer [] node profiles q hp).described (.inr (.inr rfl))

/-- **One update** that tells of regions keeps what the peers know. -/
theorem AllDescribed.applyUpdate {s : Followed} {message : MapMessage} {c' : NetworkConfig}
    {changed : Bool} (h : AllDescribed s.history s.config.peers) (htl : RegionsTold s message)
    (hap : applyUpdate aton message.json message.now s.config = .ok changed c') :
    AllDescribed (updateRegions message.json :: s.history) c'.peers := by
  rcases applyUpdate_cases hap with
    ⟨hke, rfl⟩ | ⟨-, c₁, removed, peers, found, -, -, hps, rfl⟩
  · rw [htl.alive hke]
    intro p hp hne
    exact h p hp hne
  · refine AllDescribed.finish (h.updatePeers ?_ htl.patches hps)
    exact fun removed kept hkp => htl.changes removed kept c₁.userProfiles hkp

/-- **Every peer has the code and the host that the last DERP map to name its
region gave**, in every state that a full map and updates that tell of
regions lead to. -/
theorem peers_described {s : Followed} (h : ((updates aton).restrict RegionsTold).Reachable s) :
    ∀ p ∈ s.config.peers, p.derpRegion ≠ 0 → ∀ region, named s.history p.derpRegion = some region →
        regionCode region p.derpRegion = .ok p.derpCode ∧ derpHost region = .ok p.derpHost := by
  refine TransitionSystem.invariant
    (P := fun s : Followed => AllDescribed s.history s.config.peers) ?_ ?_ h
  · rintro ⟨_, _⟩ ⟨_, hpa, hhs⟩
    subst hhs
    exact allDescribed_of_parse hpa
  · rintro _ _ ⟨_, _⟩ hs ⟨htl, ⟨_, hap⟩, hhs⟩
    subst hhs
    exact hs.applyUpdate htl hap

/-! ## A peer that moves -/

def sampleRegion (code host : String) : Json :=
  .object [("RegionCode", .string code), ("Nodes", .array [.object [("HostName", .string host)]])]

def twoRegions : Json :=
  .object [("DERPMap", .object [("Regions", .object [("1", sampleRegion "nyc" "derp1.example.com"),
          ("2", sampleRegion "fra" "derp2.example.com")])]),
      ("DNSConfig", .object [("Routes", .object
        [("example.ts.net", .array [.object [("Addr", .string "100.64.0.2")]])])]),
      ("Node", .object [("ID", .number 1)]),
      ("Peers", .array [.object [("ID", .number 2), ("DERP", .string "127.3.3.40:1"),
        ("Addresses", .array [.string "100.64.0.2/32"])]])]

def move : String × Json :=
  ("PeersChangedPatch", .array [.object [("NodeID", .number 2), ("DERPRegion", .number 2)]])

def bareMove : MapMessage where
  now := "2026-01-01T00:00:00Z"
  json := .object [move]

def toldMove : MapMessage where
  now := "2026-01-01T00:00:00Z"
  json := .object [("DERPMap", .object [("Regions", .object
    [("2", sampleRegion "fra" "derp2.example.com")])]), move]

def start (map : Json) : Followed where
  config := match parse (fun _ => none) map with
    | .ok c => c
    | .error _ => {}
  history := [updateRegions map]

def Followed.next (s : Followed) (message : MapMessage) : Followed where
  config := match applyUpdate (fun _ => none) message.json message.now s.config with
    | .ok _ c => c
    | .error _ c => c
  history := updateRegions message.json :: s.history

theorem start_twoRegions : (updates fun _ => none).init (start twoRegions) :=
  ⟨twoRegions, by rfl, rfl⟩

/-- A peer that moves to a region that comes with the move has its code and
its host. -/
theorem told_move_described :
    (∃ p ∈ ((start twoRegions).next toldMove).config.peers, p.derpRegion = 2) ∧
      ∀ p ∈ ((start twoRegions).next toldMove).config.peers, p.derpRegion ≠ 0 →
        ∀ region, named ((start twoRegions).next toldMove).history p.derpRegion = some region →
          regionCode region p.derpRegion = .ok p.derpCode ∧ derpHost region = .ok p.derpHost := by
  refine ⟨by decide +kernel, peers_described
    (.step (e := toldMove) (.init start_twoRegions) ⟨⟨?_, ?_, ?_⟩, ⟨true, by rfl⟩, rfl⟩)⟩
  · exact nofun
  · exact fun _ _ _ _ => .intro
  · intro _ hpt _ _ hvl hr
    rw [mem_singleton.mp hpt] at hvl
    cases hvl
    cases hr
    exact .inr (.inl (by decide +kernel))

/-- **A peer that moves to a region whose description came before is left
without host and code**, although the last DERP map to name the region gives
both. -/
theorem bare_move_forgets : ∃ s, (updates fun _ => none).Reachable s ∧
      named s.history 2 = some (sampleRegion "fra" "derp2.example.com") ∧
        derpHost (sampleRegion "fra" "derp2.example.com") = .ok "derp2.example.com" ∧
          ∃ p ∈ s.config.peers, p.derpRegion = 2 ∧ p.derpHost = "" ∧ p.derpCode = "" :=
  ⟨(start twoRegions).next bareMove,
    .step (e := bareMove) (.init start_twoRegions) ⟨⟨true, by rfl⟩, rfl⟩, by rfl, by rfl,
    by decide +kernel⟩

end DerpMetadata

end Tailgate
