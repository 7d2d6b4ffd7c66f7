import Tailgate.MapUpdates

/-!
# The peers an update does not mention

An update removes peers, replaces or adds others, and then changes some fields of
a few more, by identifier and in this order. Identifiers stay distinct. A peer
that no part mentions keeps its place among the others of its kind and what it
had, but for what follows from data of its own: its region's host and code, the
name of its owner and its capabilities.
-/

namespace Tailgate

namespace NetworkMapParser

open Throwing List

/-! ## The identifiers of an update -/

variable (map : Json)

def removedIds : Set ℕ := {id | ∃ ids, removedPeers map = .ok ids ∧ id ∈ ids}

def changedIds : Set ℕ :=
  {id | ∃ nodes node, map.find "PeersChanged" = some nodes ∧ node ∈ nodes.elements
    ∧ nodeId node = .ok id}

def keyedIds (key : String) : Set ℕ :=
  {id | ∃ changes change, map.find key = some changes ∧ change ∈ changes.items
    ∧ stoull change.1 = .ok id}

def patchedIds : Set ℕ :=
  {id | ∃ patches patch, map.find "PeersChangedPatch" = some patches ∧ patch ∈ patches.elements
    ∧ patch.value "NodeID" Json.asUnsigned 0 = .ok id}

/-- **Every identifier an update mentions**, in whichever of its parts. -/
def mentionedIds : Set ℕ :=
  removedIds map ∪ changedIds map ∪ keyedIds map "OnlineChange" ∪ keyedIds map "PeerSeenChange"
    ∪ patchedIds map

/-! ## Peers but for what follows from other data -/

/-- A peer without what the regions, the profiles and the filters say of it. -/
def bare (p : PeerConfig) : PeerConfig :=
  { p with derpCode := "", derpHost := "", owner := "", capabilities := [] }

open Classical in
/-- The peers outside some set, in their order. -/
noncomputable def others (S : Set ℕ) (ps : List PeerConfig) : List PeerConfig :=
  (ps.filter fun p => p.nodeId ∉ S).map bare

def ids (ps : List PeerConfig) : List ℕ := ps.map PeerConfig.nodeId

/-- The peer stays who it is, and outside the set what it is. -/
def Same (S : Set ℕ) (p q : PeerConfig) : Prop :=
  q.nodeId = p.nodeId ∧ (p.nodeId ∉ S → bare q = bare p)

def Framed (S : Set ℕ) : List PeerConfig → List PeerConfig → Prop := List.Forall₂ (Same S)

variable {S : Set ℕ} {ps qs rs : List PeerConfig} {p q : PeerConfig} {id : ℕ}

theorem Framed.refl (ps : List PeerConfig) : Framed S ps ps :=
  forall₂_same.mpr fun _ _ => ⟨rfl, fun _ => rfl⟩

theorem Framed.trans (h : Framed S ps qs) (h' : Framed S qs rs) : Framed S ps rs := by
  induction h generalizing rs with
  | nil => exact h'
  | cons hpq _ ih =>
    cases h' with
    | cons hqr h' =>
      refine .cons ⟨hqr.1.trans hpq.1, fun hp => ?_⟩ (ih h')
      exact (hqr.2 (hpq.1 ▸ hp)).trans (hpq.2 hp)

theorem Framed.ids_eq (h : Framed S ps qs) : ids qs = ids ps := by
  induction h with
  | nil => rfl
  | cons hpq _ ih => exact congrArg₂ cons hpq.1 ih

theorem Framed.others_eq (h : Framed S ps qs) : others S qs = others S ps := by
  induction h with
  | nil => rfl
  | @cons p q ps qs hpq h ih =>
    unfold others at ih ⊢
    by_cases hp : p.nodeId ∈ S
    · simpa [hpq.1, hp] using ih
    · simpa [hpq.1, hp, hpq.2 hp] using ih

theorem Framed.of_mapM {f : PeerConfig → Except MapError PeerConfig}
    (hf : ∀ p, Returns (Same S p) (f p)) (h : ps.mapM f = .ok qs) : Framed S ps qs :=
  (forall₂_of_mapM_ok h).imp fun p q => hf p q

theorem Framed.of_map {f : PeerConfig → PeerConfig} (hf : ∀ p, Same S p (f p)) :
    Framed S ps (ps.map f) :=
  forall₂_map_right_iff.mpr (forall₂_same.mpr fun p _ => hf p)

/-! ## The steps of an update -/

theorem same_applyDerpMetadata (regions : Json) (p : PeerConfig) :
    Returns (Same S p) (applyDerpMetadata regions p) := by
  unfold applyDerpMetadata
  split
  · exact .pure ⟨rfl, fun _ => rfl⟩
  · split
    · exact .pure ⟨rfl, fun _ => rfl⟩
    · exact .skip fun _ => .skip fun _ => .pure ⟨rfl, fun _ => rfl⟩

theorem framed_modifyPeer (hid : id ∈ S) (hq : q.nodeId = id) (ps : List PeerConfig) :
    Framed S ps (modifyPeer id (fun _ => q) ps) := by
  induction ps with
  | nil => exact .nil
  | cons _ ps ih =>
    unfold modifyPeer
    split
    · next hp => exact .cons ⟨hq.trans hp.symm, fun hno => absurd (hp ▸ hid) hno⟩ (Framed.refl ps)
    · exact .cons ⟨rfl, fun _ => rfl⟩ ih

theorem nodeId_of_findPeer (h : findPeer ps id = some p) : p.nodeId = id := by
  simpa using find?_some h

theorem not_mem_ids_of_findPeer (h : findPeer ps id = none) : id ∉ ids ps := by
  intro hmem
  obtain ⟨p, hp, rfl⟩ := mem_map.mp hmem
  simpa using find?_eq_none.mp h p hp

variable {found : Bool} {key : String} {node : Json} {removed : List ℕ}

/-- A peer that is found is replaced by one with its identifier. -/
theorem framed_changeFound {f : PeerConfig → Except MapError PeerConfig}
    (hf : ∀ p, Returns (fun q => q.nodeId = p.nodeId) (f p)) (hid : id ∈ S)
    {found' : Bool} (h : changeFound id f (ps, found) = .ok (qs, found')) : Framed S ps qs := by
  unfold changeFound at h
  cases hfd : findPeer ps id with
  | none =>
    simp only [hfd] at h
    cases h
    exact .refl ps
  | some p =>
    simp only [hfd] at h
    obtain ⟨q, hq, h⟩ := of_bind_ok h
    cases h
    exact framed_modifyPeer hid ((hf p q hq).trans (nodeId_of_findPeer hfd)) ps

variable {state state' : List PeerConfig × Bool} {regions : Json} {profiles : List UserProfile}

/-- The parts of an update under a key, each of which changes a peer it mentions. -/
theorem framed_each {α : Type} {parts : Json → List α} {map : Json}
    {f : List PeerConfig × Bool → α → Except MapError (List PeerConfig × Bool)}
    (hf : ∀ found, map.find key = some found → ∀ a ∈ parts found, ∀ s s', f s a = .ok s' →
      Framed S s.1 s'.1) (h : (match map.find key with
      | none => Except.ok state
      | some found => (parts found).foldlM f state) = .ok state') : Framed S state.1 state'.1 := by
  cases hfd : map.find key with
  | none =>
    simp only [hfd] at h
    cases h
    exact .refl _
  | some found =>
    simp only [hfd] at h
    refine (foldlM_induction (L := fun left s => left ⊆ parts found ∧ Framed S state.1 s.1) ?_
      ⟨.refl _, .refl _⟩ h).2
    intro a _ s s' hs hsp
    obtain ⟨ha, hlf⟩ := cons_subset.mp hs.1
    exact ⟨hlf, hs.2.trans (hf found hfd a ha s s' hsp)⟩

theorem framed_eachItem {g : Json → PeerConfig → Except MapError PeerConfig} {map : Json}
    (hg : ∀ val p, Returns (fun q => q.nodeId = p.nodeId) (g val p))
    (hky : keyedIds map key ⊆ S) (h : eachItem map key (fun s change => do
      let id ← stoull change.1
      changeFound id (g change.2) s) state = .ok state') : Framed S state.1 state'.1 := by
  refine framed_each (fun changes hfd change hcg s s' hsp => ?_) h
  obtain ⟨_, hid, hsp⟩ := of_bind_ok hsp
  exact framed_changeFound (hg change.2) (hky ⟨changes, change, hfd, hcg, hid⟩) hsp

theorem nodeId_of_patchPeer (patch regions : Json) (p : PeerConfig) :
    Returns (fun q => q.nodeId = p.nodeId) (patchPeer patch regions p) := by
  have hrg : Returns (fun q => q.nodeId = p.nodeId) (patchRegion patch regions p) := by
    unfold patchRegion
    split
    · exact .pure rfl
    · exact .skip fun _ q hq => (same_applyDerpMetadata (S := ∅) regions _ q hq).1
  refine .bind hrg fun q hq => .bind (R := fun q => q.nodeId = p.nodeId) ?_ fun r hr => .pure hr
  unfold patchEndpoints
  split
  · exact .pure hq
  · exact .skip fun _ => .pure hq

theorem framed_patchPeers {map : Json} (hids : patchedIds map ⊆ S)
    (h : patchPeers map state = .ok state') : Framed S state.1 state'.1 := by
  refine framed_each (fun patches hfd patch hpt s s' hsp => ?_) h
  obtain ⟨_, hid, hsp⟩ := of_bind_ok hsp
  exact framed_changeFound (nodeId_of_patchPeer patch _)
    (hids ⟨patches, patch, hfd, hpt, of_liftMap_ok hid⟩) hsp

/-! ## Peers that are new or replaced -/

theorem nodeId_of_peer (h : peer node regions profiles = .ok p) : nodeId node = .ok p.nodeId := by
  obtain ⟨idn, hiy, h⟩ := of_bind_ok h
  obtain ⟨located, hlc, h⟩ := of_bind_ok h
  have hrt : Returns (fun q => q.nodeId = located.nodeId) (applyPeerRoutes node located) :=
    .skip fun _ => .skip fun _ => .skip fun _ => .pure rfl
  have hrg : Returns (fun q => q.nodeId = idn.nodeId) (applyPeerRegion node regions idn) := by
    refine .skip fun r => ?_
    cases r with
    | none => exact .pure rfl
    | some => exact fun q hq => (same_applyDerpMetadata (S := ∅) regions _ q hq).1
  have hhs (peer : PeerConfig) : Returns (fun q => q.nodeId = peer.nodeId)
      (applyPeerHostInfo node peer) := by
    unfold applyPeerHostInfo
    split
    · exact .skip fun _ => .skip fun _ => .skip fun _ => .skip fun _ =>
        .skip fun _ => .pure rfl
    · exact .pure rfl
  have hid : Returns (fun q => nodeId node = .ok q.nodeId) (peerIdentity node profiles) := by
    refine .skip fun _ => .bind (R := fun id => nodeId node = .ok id)
      (fun id hid => of_liftMap_ok hid) fun id hid => ?_
    refine .skip fun _ => .skip fun _ => .skip fun _ => .skip fun _ =>
      .skip fun _ => .skip fun _ => .skip fun _ q hq => ?_
    rw [hid, hhs _ q hq]
  rw [hrt p h, hrg located hlc]
  exact hid idn hiy

/-- Some peers may be new, all others are as they were. -/
structure Changed (S new : Set ℕ) (ps qs : List PeerConfig) : Prop where
  nodup : (ids ps).Nodup → (ids qs).Nodup
  mem_iff : ∀ id, id ∈ ids qs ↔ id ∈ ids ps ∨ id ∈ new
  others : others S qs = others S ps

theorem changed_changePeer (hid : ∀ id, nodeId node = .ok id → id ∈ S)
    (h : changePeer regions profiles ps node = .ok qs) :
    Changed S {id | nodeId node = .ok id} ps qs := by
  obtain ⟨new, hnew, h⟩ := of_bind_ok h
  have hnd := nodeId_of_peer hnew
  have hnew (id : ℕ) : nodeId node = .ok id ↔ id = new.nodeId := by
    rw [hnd]
    exact ⟨fun h => (Except.ok.inj h).symm, fun h => h ▸ rfl⟩
  cases hfd : findPeer ps new.nodeId with
  | none =>
    simp only [hfd] at h
    cases h
    have hfh := not_mem_ids_of_findPeer hfd
    have hids : ids (ps ++ [new]) = ids ps ++ [new.nodeId] := map_append
    refine ⟨fun hno => ?_, fun id => ?_, ?_⟩
    · rw [hids]
      exact hno.append (nodup_singleton _) (disjoint_singleton.mpr hfh)
    · rw [hids, mem_append, mem_singleton, Set.mem_ofPred_eq, hnew]
    · unfold NetworkMapParser.others
      simp [hid _ hnd]
  | some old =>
    simp only [hfd] at h
    cases h
    have hkp : (keepKnown old new).nodeId = new.nodeId := by
      unfold keepKnown keepOwner keepRegion
      grind
    have hfr := framed_modifyPeer (hid _ hnd) hkp ps
    refine ⟨fun hno => ?_, fun id => ?_, hfr.others_eq⟩
    · rwa [hfr.ids_eq]
    · rw [hfr.ids_eq, Set.mem_ofPred_eq, hnew, iff_self_or]
      rintro rfl
      exact mem_map.mpr ⟨old, mem_of_find?_eq_some hfd, nodeId_of_findPeer hfd⟩

theorem changed_foldlM {nodes : List Json}
    (hid : ∀ node ∈ nodes, ∀ id, nodeId node = .ok id → id ∈ S)
    (h : nodes.foldlM (changePeer regions profiles) ps = .ok qs) :
    Changed S {id | ∃ node ∈ nodes, nodeId node = .ok id} ps qs := by
  induction nodes generalizing ps with
  | nil =>
    cases h
    exact ⟨fun hnd => hnd, by simp, rfl⟩
  | cons node _ ih =>
    obtain ⟨_, hrs, h⟩ := of_bind_ok h
    have hfi := changed_changePeer (hid node mem_cons_self) hrs
    have hre := ih (fun n hn => hid n (mem_cons_of_mem node hn)) h
    refine ⟨fun hnd => hre.nodup (hfi.nodup hnd), fun id => ?_, hre.others.trans hfi.others⟩
    rw [hre.mem_iff, hfi.mem_iff]
    simp only [Set.mem_ofPred_eq, mem_cons, exists_eq_or_imp]
    tauto

theorem changed_changePeers {map : Json}
    (hids : changedIds map ⊆ S) (h : changePeers map profiles ps = .ok qs) :
    Changed S (changedIds map) ps qs := by
  unfold changePeers at h
  cases hfd : map.find "PeersChanged" with
  | none =>
    simp only [hfd] at h
    cases h
    refine ⟨fun hnd => hnd, fun id => ?_, rfl⟩
    simp [changedIds, hfd]
  | some nodes =>
    simp only [hfd] at h
    have hset : changedIds map = {id | ∃ node ∈ nodes.elements, nodeId node = .ok id} := by
      simp [changedIds, hfd]
    rw [hset] at hids ⊢
    exact changed_foldlM (fun node hno id hid => hids ⟨node, hno, hid⟩) h

/-! ## Whole updates -/

theorem others_filter (h : ∀ id ∈ removed, id ∈ S) (ps : List PeerConfig) :
    others S (ps.filter fun p => p.nodeId ∉ removed) = others S ps := by
  unfold others
  rw [filter_filter]
  refine congrArg (map bare) (filter_congr fun p _ => ?_)
  grind

theorem framed_finish (aton : Aton) (map : Json) (removed : List ℕ)
    (ps : List PeerConfig) (c : NetworkConfig) :
    Framed S ps (finish aton map removed ps c).peers := by
  have hrf : Framed S ps
      (refreshPeerCapabilities aton { c with peers := ps, removedPeerNodeIds := removed }).peers :=
    .of_map fun p => ⟨rfl, fun _ => rfl⟩
  unfold finish
  split
  · refine hrf.trans (.of_map fun p => ?_)
    dsimp only
    split
    all_goals exact ⟨rfl, fun _ => rfl⟩
  · exact hrf

/-- **What an update makes of the peers.** -/
structure Delta (map : Json) (ps qs : List PeerConfig) : Prop where
  nodup : (ids ps).Nodup → (ids qs).Nodup
  mem_iff : ∀ id, id ∈ ids qs ↔ id ∈ ids ps ∧ id ∉ removedIds map ∨ id ∈ changedIds map
  others : others (mentionedIds map) qs = others (mentionedIds map) ps

theorem delta_updatePeers {map : Json} {now : String}
    (h : updatePeers map now profiles ps = .ok (removed, qs, found)) : Delta map ps qs := by
  obtain ⟨⟨removed, _⟩, hkp, h⟩ := of_bind_ok h
  obtain ⟨changed, hcd, h⟩ := of_bind_ok h
  obtain ⟨online, hon, h⟩ := of_bind_ok h
  obtain ⟨seen, hsn, h⟩ := of_bind_ok h
  obtain ⟨_, hpt, h⟩ := of_bind_ok h
  cases h
  obtain ⟨described, hds, hkp⟩ := of_bind_ok hkp
  obtain ⟨_, hrm, hkp⟩ := of_bind_ok hkp
  cases hkp
  have hrm := of_liftMap_ok hrm
  have hids (id : ℕ) : id ∈ removedIds map ↔ id ∈ removed := by simp [removedIds, hrm]
  have hds : Framed (mentionedIds map) ps described :=
    .of_mapM (same_applyDerpMetadata _) hds
  have hcd := changed_changePeers (S := mentionedIds map)
    (fun id hid => .inl (.inl (.inl (.inr hid)))) hcd
  have hon : Framed (mentionedIds map) changed online.1 :=
    framed_eachItem (g := fun val peer => do
      let online ← val.asBool
      pure { peer with online }) (fun _ _ => .skip fun _ => .pure rfl)
      (fun id hid => .inl (.inl (.inr hid))) hon
  have hsn : Framed (mentionedIds map) online.1 seen.1 :=
    framed_eachItem (g := fun val peer => do
      let seen ← val.asBool
      pure { peer with lastSeen := if seen then now else "" })
      (fun _ _ => .skip fun _ => .pure rfl) (fun id hid => .inl (.inr hid)) hsn
  have hrs : Framed (mentionedIds map) changed qs :=
    (hon.trans hsn).trans (framed_patchPeers (fun id hid => .inr hid) hpt)
  refine ⟨fun hnd => ?_, fun id => ?_, ?_⟩
  · rw [hrs.ids_eq]
    rw [← hds.ids_eq] at hnd
    exact hcd.nodup (hnd.sublist (filter_sublist.map _))
  · rw [hrs.ids_eq, hcd.mem_iff, ← hds.ids_eq, hids]
    simp only [ids, mem_map, mem_filter]
    grind
  · rw [hrs.others_eq, hcd.others, others_filter, hds.others_eq]
    exact fun id hid => .inl (.inl (.inl (.inl ((hids id).mpr hid))))

variable {aton : Aton} {map : Json} {now : String} {changed : Bool}
  {c c' : NetworkConfig}

/-- **An update keeps the identifiers distinct and the peers it does not mention as they
were.** One that does not only keep the connection alive leaves none of those it removes, other
than those it also describes, and all of those it describes. -/
theorem applyUpdate_peers (hids : (ids c.peers).Nodup)
    (h : applyUpdate aton map now c = .ok changed c') :
    (ids c'.peers).Nodup ∧ others (mentionedIds map) c'.peers = others (mentionedIds map) c.peers
      ∧ (map.value "KeepAlive" Json.asBool false = .ok false →
        (∀ id ∈ removedIds map, id ∉ changedIds map → id ∉ ids c'.peers)
          ∧ ∀ id ∈ changedIds map, id ∈ ids c'.peers) := by
  rcases applyUpdate_cases h with ⟨hke, rfl⟩ | ⟨-, c₁, removed, ps, _, -, -, hps, rfl⟩
  · refine ⟨hids, rfl, fun hno => ?_⟩
    rw [hke] at hno
    cases hno
  · have hdl := delta_updatePeers hps
    have hfn := framed_finish (S := mentionedIds map) aton map removed ps c₁
    rw [hfn.ids_eq, hfn.others_eq]
    refine ⟨hdl.nodup hids, hdl.others, fun _ => ⟨fun id hid hno hmem => ?_, fun id hid => ?_⟩⟩
    · exact ((hdl.mem_iff id).mp hmem).elim (fun h => h.2 hid) hno
    · exact (hdl.mem_iff id).mpr (.inr hid)

/-- One peer goes, one is described, and one is not mentioned. -/
def turnover (keepAlive : Bool) : Json :=
  .object [("KeepAlive", .bool keepAlive), ("PeersChanged", .array [.object [("ID", .number 3)]]),
    ("PeersRemoved", .array [.number 1])]

theorem mem_changedIds_turnover (ka : Bool) : 3 ∈ changedIds (turnover ka) :=
  ⟨_, .object [("ID", .number 3)], rfl, mem_singleton.mpr rfl, rfl⟩

theorem applyUpdate_peers_turnover : ∃ changed c',
    applyUpdate (fun _ => none) (turnover false) "" { peers := [{ nodeId := 1 }, { nodeId := 2 }] }
        = .ok changed c'
      ∧ (ids c'.peers).Nodup ∧ others (mentionedIds (turnover false)) c'.peers
        = others (mentionedIds (turnover false)) [{ nodeId := 1 }, { nodeId := 2 }]
      ∧ 3 ∈ ids c'.peers := by
  have hrun : applyUpdate (fun _ => none) (turnover false) ""
      { peers := [{ nodeId := 1 }, { nodeId := 2 }] } = .ok true _ := rfl
  obtain ⟨hnd, hot, hids⟩ := applyUpdate_peers (by decide) hrun
  exact ⟨_, _, hrun, hnd, hot, (hids rfl).2 3 (mem_changedIds_turnover false)⟩

/-- **An update that keeps the connection alive describes a peer in vain.** -/
theorem turnover_in_vain : 3 ∈ changedIds (turnover true) ∧ ∃ c',
    applyUpdate (fun _ => none) (turnover true) "" {} = .ok false c' ∧ 3 ∉ ids c'.peers :=
  ⟨mem_changedIds_turnover true, _, rfl, by decide⟩

end NetworkMapParser

end Tailgate
