import Tailgate.NetworkMapParser

/-!
# What an update does

An update is applied first to all but the peers, and then to the peers
(`applyUpdate_cases`); `parse_cases` is about a configuration that has just been
read. A configuration whose peers have just the capabilities that follow from
the filters and the addresses is `Refreshed`.
-/

namespace Tailgate

open Procedure List

namespace NetworkMapParser

variable {α β : Type}

/-! ## Reading leaves the configuration alone -/

variable {y : Except JsonError α} {map : Json}

theorem meets_liftJson {P : NetworkConfig → Prop} {Q : α → NetworkConfig → Prop}
    {E : MapError → NetworkConfig → Prop}
    (hok : ∀ a, y = .ok a → ∀ c, P c → Q a c) (her : ∀ e c, P c → E (.json e) c) :
    Meets P (liftM y : Configuring α) Q E := by
  cases y with
  | ok a => exact fun c hc => hok a rfl c hc
  | error e => exact fun c hc => her e c hc

theorem leaves_liftJson {f : NetworkConfig → β} (y : Except JsonError α) :
    Leaves f (liftM y : Configuring α) :=
  fun _ => meets_liftJson (fun _ _ _ hc => hc) fun _ _ hc => hc

theorem leaves_read {γ : Type} {f : NetworkConfig → γ} {y : Except JsonError α}
    {g : α → NetworkConfig → NetworkConfig} {k : α → Unit → Configuring β}
    (hk : ∀ a, Leaves f (k a ())) (hg : ∀ a c, f (g a c) = f c := by intros; rfl) :
    Leaves f (liftM y >>= fun a => modify (g a) >>= k a) :=
  .bind (leaves_liftJson y) fun a => .bind (.modify (hg a)) fun _ => hk a

variable {a : α} {now : String} {changed : Bool}

/-- A computation on JSON returns its result and leaves the configuration as
it is. -/
theorem of_liftJson_ok {c c' : NetworkConfig}
    (h : (liftM y : Configuring α) c = .ok a c') : y = .ok a ∧ c = c' := by
  cases y with
  | ok =>
    cases h
    exact ⟨rfl, rfl⟩
  | error => cases h

theorem of_liftMap_ok (h : (liftM y : Except MapError α) = .ok a) : y = .ok a := by
  cases y with
  | ok =>
    cases h
    rfl
  | error => cases h

/-! ## The peers are not among what is written first

Nor are the filters, once those of the update have been taken in.
-/

def peersAndFilters (c : NetworkConfig) : List PeerConfig × NamedCapabilityFilters :=
  (c.peers, c.capabilityFilters)

theorem leaves_setAccount (profile : Json) : Leaves peersAndFilters (setAccount profile) :=
  leaves_read fun _ =>
    leaves_read fun _ =>
      .bind (leaves_liftJson _) fun _ => .modify fun _ => rfl

theorem leaves_setHumanAccount (candidates : List Json) :
    Leaves peersAndFilters (setHumanAccount candidates) := by
  induction candidates with
  | nil => exact .pure ()
  | cons cand _ ih =>
    exact .bind (leaves_liftJson _) fun _ => .ite (leaves_setAccount cand) ih

theorem leaves_applyAccountMetadata (map : Json) :
    Leaves peersAndFilters (applyAccountMetadata map) := by
  refine .bind (.whenever (.modify fun _ => rfl)) fun _ =>
    .bind (leaves_liftJson _) fun _ => .bind (leaves_liftJson _) fun profile => ?_
  cases profile with
  | none => exact .pure ()
  | some profile =>
    exact .bind (leaves_setAccount profile) fun _ => .bind .get fun _ =>
      .whenever (leaves_setHumanAccount _)

theorem leaves_mergeUserProfiles (map : Json) : Leaves peersAndFilters (mergeUserProfiles map) := by
  unfold mergeUserProfiles
  cases arrayUnder map "UserProfiles" with
  | none => exact .pure false
  | some =>
    exact .bind .get fun _ => leaves_read fun _ => .pure true

theorem leaves_applySelfAddresses (node : Json) :
    Leaves peersAndFilters (applySelfAddresses node) :=
  .bind (leaves_liftJson _) fun _ => .modify fun _ => rfl

theorem leaves_applyDnsConfig (dns : Json) : Leaves peersAndFilters (applyDnsConfig dns) :=
  leaves_read fun _ =>
    leaves_read fun _ =>
      leaves_read fun _ =>
        .bind (leaves_liftJson _) fun _ => .modify fun _ => rfl

variable {f : NetworkConfig → β} (hhm : ∀ c derpCode derpHost stunHost stunPort,
  f { c with derpCode, derpHost, stunHost, stunPort } = f c)

include hhm in
theorem leaves_setHomeRegion (r : Json) : Leaves f (setHomeRegion r) :=
  .bind .get fun _ => .bind (leaves_liftJson _) fun _ =>
    .bind (.modify fun c => hhm c _ _ _ _) fun _ => .bind (leaves_liftJson _) fun _ =>
      .bind (.modify fun c => hhm c _ _ _ _) fun _ =>
        .bind (leaves_liftJson _) fun _ => .modify fun c => hhm c _ _ _ _

variable (aton : Aton)

theorem leaves_applyCapabilityFilterUpdate {f : NetworkConfig → β} (map : Json)
    (hfl : ∀ c filters, f { c with capabilityFilters := filters } = f c) :
    Leaves f (applyCapabilityFilterUpdate aton map) :=
  .bind .get fun _ => .bind (.lift _) fun _ =>
    .bind (.lift _) fun _ =>
      .bind (.whenever (.modify fun c => hfl c _)) fun _ => .pure _

theorem leaves_updateSelf (map node : Json) : Leaves peersAndFilters (updateSelf map node) := by
  have hnm : Leaves peersAndFilters (updateName node) :=
    leaves_read fun _ =>
      .bind .get fun _ =>
        .bind (leaves_liftJson _) fun _ => .modify fun _ => rfl
  have hat : Leaves peersAndFilters (updateAuthorization node) :=
    .bind (leaves_liftJson _) fun _ => .modify fun _ => rfl
  exact .bind (.whenever hnm) fun _ =>
    .bind (.whenever hat) fun _ =>
      .bind (.modify fun _ => rfl) fun _ =>
        .whenever (leaves_applySelfAddresses node)

theorem leaves_updateNode (map : Json) : Leaves peersAndFilters (updateNode map) := by
  unfold updateNode
  cases updatedNode map with
  | none => exact leaves_applyAccountMetadata map
  | some node =>
    exact .bind (leaves_updateSelf map node) fun _ => leaves_applyAccountMetadata map

theorem leaves_updateDns (map : Json) : Leaves peersAndFilters (updateDns map) := by
  unfold updateDns
  split
  · exact leaves_applyDnsConfig _
  · exact .pure ()

include hhm in
theorem leaves_updateHomeRegion (rs : Json) : Leaves f (updateHomeRegion rs) := by
  refine .bind .get fun c => ?_
  cases rs.find (toString c.derpRegion) with
  | none => exact .pure ()
  | some r => exact leaves_setHomeRegion hhm r

/-- **The first part of an update takes in the filters and leaves them, and
the peers, alone from then on.** -/
theorem updateConfig_eq (map : Json) : ∃ rest : Configuring Unit, Leaves peersAndFilters rest ∧
      updateConfig aton map = applyCapabilityFilterUpdate aton map >>= fun _ => rest := by
  have hdm : Leaves peersAndFilters (updateDomain map) :=
    .bind (leaves_liftJson _) fun _ => .modify fun _ => rfl
  exact ⟨_, .bind (.whenever hdm) fun _ =>
    .bind (leaves_mergeUserProfiles map) fun _ =>
      .bind (.whenever (leaves_updateNode map)) fun _ =>
        .bind (leaves_updateDns map) fun _ =>
          leaves_updateHomeRegion (fun _ _ _ _ _ => rfl) _, rfl⟩

theorem leaves_updateConfig (map : Json) : Leaves NetworkConfig.peers (updateConfig aton map) := by
  obtain ⟨_, hrs, heq⟩ := updateConfig_eq aton map
  rw [heq]
  exact .bind (leaves_applyCapabilityFilterUpdate aton map fun _ _ => rfl) fun _ =>
    hrs.comp Prod.fst

/-! ## Capabilities that follow from the filters -/

/-- **The peers have the capabilities that the filters grant them.** -/
def Refreshed (c : NetworkConfig) : Prop :=
  ∀ p ∈ c.peers, p.capabilities = grantedCapabilities aton c p

variable {aton} {c c' : NetworkConfig}

theorem refreshed_refreshPeerCapabilities (c : NetworkConfig) :
    Refreshed aton (refreshPeerCapabilities aton c) := by
  intro _ hp
  obtain ⟨_, -, rfl⟩ := mem_map.mp hp
  rfl

theorem Refreshed.refreshPeerCapabilities_eq (h : Refreshed aton c) :
    refreshPeerCapabilities aton c = c := by
  have hps : (c.peers.map fun p => { p with capabilities := grantedCapabilities aton c p }) =
      c.peers := by
    refine (map_congr_left fun p hp => ?_).trans (map_id c.peers)
    rw [← h p hp]
    rfl
  unfold refreshPeerCapabilities
  rw [hps]

theorem Refreshed.refreshPeerOwners (h : Refreshed aton c) :
    Refreshed aton (refreshPeerOwners c) := by
  intro _ hp
  obtain ⟨q, hq, rfl⟩ := mem_map.mp hp
  have hgr := h q hq
  dsimp only
  split
  · exact hgr
  · exact hgr

def basis (c : NetworkConfig) : List PeerConfig × List String × String × NamedCapabilityFilters :=
  (c.peers, c.selfAddresses, c.selfAddress, c.capabilityFilters)

theorem Refreshed.of_basis_eq (h : Refreshed aton c) (heq : basis c' = basis c) :
    Refreshed aton c' := by
  simp only [basis, Prod.mk.injEq] at heq
  obtain ⟨hps, had, has, hfl⟩ := heq
  intro p hp
  rw [hps] at hp
  rw [h p hp]
  unfold grantedCapabilities
  rw [had, has, hfl]

/-! ## What is known once an update or a map has been read -/

def finish (aton : Aton) (map : Json) (removed : List ℕ)
    (peers : List PeerConfig) (c : NetworkConfig) : NetworkConfig :=
  let refreshed := refreshPeerCapabilities aton { c with peers, removedPeerNodeIds := removed }
  if (arrayUnder map "UserProfiles").isSome then refreshPeerOwners refreshed else refreshed

/-- **An update either keeps the connection alive, and nothing else, or it is
applied in two parts.** -/
theorem applyUpdate_cases (h : applyUpdate aton map now c = .ok changed c') :
    map.value "KeepAlive" Json.asBool false = .ok true ∧ c' = { c with removedPeerNodeIds := [] } ∨
      map.value "KeepAlive" Json.asBool false = .ok false ∧ ∃ c₁ removed ps found,
          updateConfig aton map { c with removedPeerNodeIds := [] } = .ok () c₁ ∧
            c₁.peers = c.peers ∧
              updatePeers map now c₁.userProfiles c.peers = .ok (removed, ps, found) ∧
                c' = finish aton map removed ps c₁ := by
  obtain ⟨_, _, hrm, h⟩ := of_bind_ok h
  cases hrm
  obtain ⟨ka, _, hrd, h⟩ := of_bind_ok h
  obtain ⟨hke, rfl⟩ := of_liftJson_ok hrd
  cases ka with
  | true =>
    cases h
    exact .inl ⟨hke, rfl⟩
  | false =>
    obtain ⟨_, c₁, hcf, h⟩ := of_bind_ok h
    obtain ⟨_, _, hget, h⟩ := of_bind_ok h
    cases hget
    obtain ⟨⟨removed, ps, found⟩, _, hup, h⟩ := of_bind_ok h
    obtain ⟨hps, rfl⟩ := of_lift_ok hup
    have hsm := (leaves_updateConfig aton map).of_ok hcf
    rw [hsm] at hps
    refine .inr ⟨hke, c₁, removed, ps, found, hcf, hsm, hps, ?_⟩
    obtain ⟨_, _, hmd, h⟩ := of_bind_ok h
    cases hmd
    obtain ⟨_, _, how, h⟩ := of_bind_ok h
    cases h
    unfold whenever at how
    unfold finish
    by_cases hpr : (arrayUnder map "UserProfiles").isSome = true
    · rw [if_pos hpr] at how ⊢
      cases how
      rfl
    · rw [if_neg hpr] at how ⊢
      cases how
      rfl

theorem refreshed_finish (map : Json) (removed : List ℕ) (ps : List PeerConfig)
    (c : NetworkConfig) : Refreshed aton (finish aton map removed ps c) := by
  unfold finish
  split
  · exact (refreshed_refreshPeerCapabilities _).refreshPeerOwners
  · exact refreshed_refreshPeerCapabilities _

/-- **An update keeps the capabilities in step with the filters.** -/
theorem Refreshed.applyUpdate
    (hc : Refreshed aton c) (h : applyUpdate aton map now c = .ok changed c') :
    Refreshed aton c' := by
  rcases applyUpdate_cases h with ⟨-, rfl⟩ | ⟨-, c₁, removed, peers, _, -, -, -, rfl⟩
  · exact hc
  · exact refreshed_finish map removed peers c₁

include hhm in
theorem leaves_chooseRegion (map dns : Json) (hrg : ∀ c res r,
      f { c with dnsResolver := res, derpRegion := r } = f c) :
    Leaves f (chooseRegion map dns) := by
  have hrs : Leaves f (setResolver dns) := by
    refine .bind (leaves_liftJson _) fun rs => .bind .get fun c => ?_
    cases chooseResolver c.peers rs with
    | none => exact .throw _
    | some => exact .modify fun c => hrg c _ _
  have hset : Leaves f setRegion := by
    refine .bind .get fun c => .ite ?_ (.pure ())
    cases c.peers.find? fun peer => peer.derpRegion ≠ 0 with
    | none => exact .throw _
    | some => exact .modify fun c => hrg c c.dnsResolver _
  exact .bind hrs fun _ => .bind hset fun _ => .bind .get fun _ =>
    .bind (leaves_liftJson _) fun r =>
      .bind (leaves_setHomeRegion hhm r) fun _ =>
        .bind .get fun _ => .ite (.throw _) (.pure ())

theorem leaves_basis_chooseRegion (map dns : Json) : Leaves basis (chooseRegion map dns) :=
  leaves_chooseRegion (fun _ _ _ _ _ => rfl) map dns fun _ _ _ => rfl

theorem readMap_of_parse (h : parse aton map = .ok c) : readMap aton map {} = .ok () c := by
  unfold parse at h
  cases hrd : readMap aton map {} with
  | ok =>
    rw [hrd] at h
    cases h
    rfl
  | error =>
    rw [hrd] at h
    cases h

/-- **A map that is accepted** is read in three parts: the node, the peers with the filters, and
the region. -/
theorem parse_parts (h : parse aton map = .ok c) : ∃ dns c₀ ps changed c₁,
    readSelf map {} = .ok dns c₀ ∧ peers map c₀.userProfiles = .ok ps ∧
      applyCapabilityFilterUpdate aton map { c₀ with peers := ps } = .ok changed c₁ ∧
        chooseRegion map dns (refreshPeerCapabilities aton c₁) = .ok () c := by
  obtain ⟨dns, c₀, hsl, h⟩ := of_bind_ok (readMap_of_parse h)
  obtain ⟨_, _, hrd, h⟩ := of_bind_ok h
  obtain ⟨_, _, hget, hrd⟩ := of_bind_ok hrd
  cases hget
  obtain ⟨ps, _, hlf, hrd⟩ := of_bind_ok hrd
  obtain ⟨hps, rfl⟩ := of_lift_ok hlf
  obtain ⟨_, _, hput, hrd⟩ := of_bind_ok hrd
  cases hput
  obtain ⟨changed, c₁, hfl, hrd⟩ := of_bind_ok hrd
  cases hrd
  exact ⟨dns, c₀, ps, changed, c₁, hsl, hps, hfl, h⟩

/-- **A map that is accepted** has its own peers, with the capabilities that
follow. -/
theorem parse_cases (h : parse aton map = .ok c) :
    Refreshed aton c ∧ ∃ profiles ps c₁, peers map profiles = .ok ps ∧ c₁.peers = ps ∧
      c.peers = (refreshPeerCapabilities aton c₁).peers := by
  obtain ⟨dns, c₀, ps, _, c₁, -, hps, hfl, h⟩ := parse_parts h
  have hbs := (leaves_basis_chooseRegion map dns).of_ok h
  exact ⟨(refreshed_refreshPeerCapabilities c₁).of_basis_eq hbs, c₀.userProfiles, ps, c₁, hps,
    (leaves_applyCapabilityFilterUpdate aton map fun _ _ => rfl).of_ok hfl,
    congrArg Prod.fst hbs⟩

end NetworkMapParser

end Tailgate
