import Tailgate.DelegationLease
import Tailgate.SwitchingNode

/-!
# The regions of a switch and the regions that are provided

A switch names the DERP regions to delegate, and connections are created for each
region that has a host. They agree but for a peer whose region has no host, unless
another peer, the home region or an earlier configuration provides it
(`regions_provided_iff`).
-/

namespace Tailgate

open Procedure List DelegationLease

namespace DerpConnections

/-! ## The regions there are connections for -/

def Has (c : DerpConnections) (region : ℤ) : Prop := ∃ d ∈ c.entries, d.region = region

instance (c : DerpConnections) (region : ℤ) : Decidable (c.Has region) :=
  inferInstanceAs (Decidable (∃ d ∈ c.entries, d.region = region))

/-- **The connections a node can have**: those its methods create. -/
inductive Arises : DerpConnections → Prop
  | empty (enabled : Bool) : Arises { entries := [], enabled }
  | ensure {c c' : DerpConnections} {region : ℤ} {host : String} {i : ℕ} :
      Arises c → c.ensure region host = .ok (i, c') → Arises c'
  | setEnabled {c : DerpConnections} (enabled : Bool) : Arises c → Arises (c.setEnabled enabled)
  | setConnected {c : DerpConnections} (region : ℤ) (up : Bool) :
      Arises c → Arises (c.setConnected region up)

variable {c c' : DerpConnections} {region r : ℤ} {host : String} {i : ℕ}

/-- **What `ensure` can do**: find the region or, if it is one, create it. -/
theorem ensure_cases (h : c.ensure region host = .ok (i, c')) : c.Has region ∧ c' = c ∨
      0 < region ∧ region ≤ 65535 ∧ ∃ d, d.region = region ∧ c'.entries = c.entries ++ [d] := by
  unfold ensure at h
  cases hfd : c.entries.findIdx? (fun d => d.region == region) with
  | some =>
    rw [hfd] at h
    cases h
    obtain ⟨hlt, heq, -⟩ := findIdx?_eq_some_iff_getElem.mp hfd
    exact .inl ⟨⟨_, getElem_mem hlt, by simpa using heq⟩, rfl⟩
  | none =>
    rw [hfd] at h
    dsimp only at h
    split at h
    · cases h
    · next hvd =>
      cases h
      simp only [not_or, not_le, not_lt] at hvd
      exact .inr ⟨hvd.1, hvd.2.1, _, rfl, rfl⟩

theorem has_ensure (h : c.ensure region host = .ok (i, c')) : c'.Has r ↔ c.Has r ∨ r = region := by
  rcases ensure_cases h with ⟨hhas, rfl⟩ | ⟨-, -, _, hd, hes⟩
  · constructor
    · exact .inl
    · rintro (hr | rfl)
      · exact hr
      · exact hhas
  · unfold Has
    rw [hes]
    simp only [mem_append, mem_singleton, or_and_right, exists_or, exists_eq_left, hd]
    exact or_congr_right eq_comm

theorem has_setEnabled {enabled : Bool} : (c.setEnabled enabled).Has r ↔ c.Has r := by
  have hrg (d : DerpRuntime) : (d.setEnabled enabled).region = d.region := by
    unfold DerpRuntime.setEnabled
    split
    · rfl
    · rfl
  unfold Has setEnabled
  simp only [mem_map, exists_exists_and_eq_and, hrg]

theorem Arises.inRange (h : Arises c) (hr : c.Has r) : 0 < r ∧ r ≤ 65535 := by
  induction h with
  | empty =>
    obtain ⟨_, hd, -⟩ := hr
    cases hd
  | ensure _ her ih =>
    rcases ensure_cases her with ⟨-, rfl⟩ | ⟨hpos, hle, -⟩
    · exact ih hr
    · rcases (has_ensure her).mp hr with hr | rfl
      · exact ih hr
      · exact ⟨hpos, hle⟩
  | setEnabled _ _ ih => exact ih (has_setEnabled.mp hr)
  | setConnected _ _ _ ih =>
    refine ih ?_
    obtain ⟨_, hd, hdr⟩ := hr
    obtain ⟨d', hd', rfl⟩ := mem_map.mp hd
    refine ⟨d', hd', ?_⟩
    rw [← hdr]
    split
    · rfl
    · rfl

/-! ## Applying a configuration -/

variable {u : Unit}

theorem of_ensured (h : ensured region host c = .ok u c') :
    ∃ i, c.ensure region host = .ok (i, c') := by
  unfold ensured at h
  cases her : c.ensure region host with
  | ok result =>
    rw [her] at h
    cases h
    exact ⟨result.1, rfl⟩
  | error =>
    rw [her] at h
    cases h

abbrev ensurePeer (peer : PeerConfig) : EStateM Fault DerpConnections Unit :=
  if peer.derpRegion ≠ 0 ∧ peer.derpHost ≠ "" then ensured peer.derpRegion peer.derpHost
  else pure ()

theorem ensurePeer_cases {peer : PeerConfig} (h : ensurePeer peer c = .ok u c') :
    (peer.derpRegion ≠ 0 ∧ peer.derpHost ≠ "") ∧
        (∃ i, c.ensure peer.derpRegion peer.derpHost = .ok (i, c')) ∨
      ¬(peer.derpRegion ≠ 0 ∧ peer.derpHost ≠ "") ∧ c' = c := by
  unfold ensurePeer at h
  by_cases hhs : peer.derpRegion ≠ 0 ∧ peer.derpHost ≠ ""
  · rw [if_pos hhs] at h
    exact .inl ⟨hhs, of_ensured h⟩
  · rw [if_neg hhs] at h
    cases h
    exact .inr ⟨hhs, rfl⟩

variable {peers : List PeerConfig}

theorem has_ensurePeers (h : peers.forM ensurePeer c = .ok u c') : c'.Has r ↔ c.Has r ∨
      ∃ peer ∈ peers, (peer.derpRegion ≠ 0 ∧ peer.derpHost ≠ "") ∧ r = peer.derpRegion := by
  induction peers generalizing c with
  | nil =>
    cases h
    simp
  | cons _ _ ih =>
    obtain ⟨_, _, hpr, h⟩ := of_bind_ok h
    rw [ih h]
    simp only [mem_cons, or_and_right, exists_or, exists_eq_left]
    rcases ensurePeer_cases hpr with ⟨hhs, _, her⟩ | ⟨hhs, rfl⟩
    · rw [has_ensure her, or_assoc, and_iff_right hhs]
    · simp only [hhs, false_and, false_or]

theorem Arises.ensurePeers (hc : Arises c)
    (h : peers.forM ensurePeer c = .ok u c') : Arises c' := by
  induction peers generalizing c with
  | nil =>
    cases h
    exact hc
  | cons _ _ ih =>
    obtain ⟨_, _, hpr, hps⟩ := of_bind_ok h
    rcases ensurePeer_cases hpr with ⟨-, _, her⟩ | ⟨-, rfl⟩
    · exact ih (hc.ensure her) hps
    · exact ih hc hps

variable {config : NetworkConfig}

/-- **The regions that are provided**: those there were, the home region, and
those of the peers that have a host. -/
theorem has_applyNetworkMap (h : applyNetworkMap config c = .ok u c') :
    c'.Has r ↔ c.Has r ∨ r = config.derpRegion ∨
      ∃ peer ∈ config.peers, (peer.derpRegion ≠ 0 ∧ peer.derpHost ≠ "") ∧ r = peer.derpRegion := by
  obtain ⟨_, _, hhm, h⟩ := of_bind_ok h
  obtain ⟨_, hhm⟩ := of_ensured hhm
  rw [has_ensurePeers h, has_ensure hhm, or_assoc]

theorem Arises.applyNetworkMap (hc : Arises c)
    (h : applyNetworkMap config c = .ok u c') : Arises c' := by
  obtain ⟨_, _, hhm, h⟩ := of_bind_ok h
  obtain ⟨_, hhm⟩ := of_ensured hhm
  exact (hc.ensure hhm).ensurePeers h

end DerpConnections

/-! ## The regions of a switch -/

open DerpConnections SwitchingNode

theorem toUint16_cast {region : ℤ} (h : 0 < region ∧ region ≤ 65535) :
    (toUint16 region : ℤ) = region := by
  unfold toUint16
  omega

theorem mem_regions {n : SwitchingNode} {region : ℕ} :
    region ∈ n.regions ↔ region = toUint16 n.network.derpRegion ∨
      ∃ peer ∈ n.network.peers, 0 < peer.derpRegion ∧ region = toUint16 peer.derpRegion := by
  unfold regions
  simp only [mem_cons, mem_map, mem_filter, decide_eq_true_eq, and_assoc]
  refine or_congr_right
    (exists_congr fun peer => and_congr_right fun _ => and_congr_right fun _ => ?_)
  exact eq_comm

variable {l : DelegationLease} {request : DelegationRequest}

/-- A request for regions that there are connections for is not refused for
one of them. -/
theorem refusal_ne_unknownRegion (h : ∀ region ∈ request.regions, l.derps.Has region) :
    l.refusal request ≠ some .unknownRegion := by
  have hkn : ¬request.regions.any (fun region =>
      l.derps.entries.all fun d => d.region != region) = true := by
    rw [any_eq_true]
    rintro ⟨region, hrg, hall⟩
    obtain ⟨d, hd, hdr⟩ := h region hrg
    have hne := all_eq_true.mp hall d hd
    simp [hdr] at hne
  unfold refusal
  split_ifs
  all_goals exact nofun

variable {l' : DelegationLease} {now : ℕ} {reply : DelegationReply}

/-- A poll opens and closes connections at most, and what it says is not that
a region is unknown. -/
theorem poll_unknownRegion (h : l.PollMove now l') :
    (∀ region, l'.derps.Has region ↔ l.derps.Has region) ∧
      ∀ reply, reply ∈ l'.output ∨ l'.reply = some reply → reply.failure = .unknownRegion →
        reply ∈ l.output ∨ l.reply = some reply := by
  refine ⟨fun _ => ?_, fun _ hrp hfl => ?_⟩
  · cases h with
    | expired =>
      split
      · exact has_setEnabled
      · exact Iff.rfl
    | stay | ready => exact Iff.rfl
  · cases h with
    | stay => exact hrp
    | expired | ready =>
      simp only [mem_append, mem_singleton, Option.some.injEq] at hrp
      rcases hrp with (hrp | rfl) | rfl
      · exact .inl hrp
      all_goals cases hfl

/-- An answer to a request that passes the checks is not that a region is
unknown. -/
theorem mem_of_answered {derps : DerpConnections} {dl : Option ℕ} {changed : Bool}
    {ans : Option DelegationReply}
    (hrp : reply ∈ (l.answered request derps dl changed ans).output)
    (han : ans = none ∨ ∃ st, ans = some (request.answer st .none))
    (hfl : reply.failure = .unknownRegion) : reply ∈ l.output := by
  rcases mem_append.mp hrp with hrp | hrp
  · exact hrp
  · rcases han with rfl | ⟨_, rfl⟩
    · cases hrp
    · rw [mem_singleton.mp hrp] at hfl
      cases hfl

/-- **A lease that has the regions of a request does not answer that one is
unknown**; such an answer has been given before. -/
theorem accept_unknownRegion (hkn : ∀ region ∈ request.regions, l.derps.Has region)
    (h : l.accept now request = .ok l') (hrp : reply ∈ l'.output)
    (hfl : reply.failure = .unknownRegion) : reply ∈ l.output ∨ l.reply = some reply := by
  obtain ⟨_, hpl, han⟩ := accept_move h
  obtain ⟨hhas, hsd⟩ := poll_unknownRegion (poll_move hpl)
  refine hsd reply ?_ hfl
  cases han with
  | replayed =>
    simpa only [mem_append, Option.mem_toList, Option.mem_def] using hrp
  | refused _ _ href =>
    rcases mem_append.mp hrp with hrp | hrp
    · exact .inl hrp
    · rw [mem_singleton.mp hrp] at hfl
      subst hfl
      exact absurd href (refusal_ne_unknownRegion fun region hrg =>
        (hhas region).mpr (hkn region hrg))
  | prepared | released | committed => exact .inl (mem_of_answered hrp (.inr ⟨_, rfl⟩) hfl)
  | acquired _ _ _ hrep =>
    exact .inl (mem_of_answered hrp (hrep.imp_right fun h => ⟨_, h⟩) hfl)

/-- A region has a connection from somewhere else than a peer without a
host. -/
def Elsewhere (c : DerpConnections) (config : NetworkConfig) (region : ℤ) : Prop :=
  c.Has region ∨ region = config.derpRegion ∨
    ∃ peer ∈ config.peers, peer.derpHost ≠ "" ∧ region = peer.derpRegion

/-- **The regions of a switch are the regions that are provided**: each has a
connection, a lease does not answer that one is unknown, and none is missing
when a native node is asked whether it owns its connections – if and only if
the region of each peer without a host is provided from somewhere else. -/
theorem regions_provided_iff (n : SwitchingNode) {c c' : DerpConnections} (hc : Arises c)
    (h : applyNetworkMap n.network c = .ok () c') :
    ((∀ region ∈ n.regions, c'.Has region) ∧
      (∀ l now request l' reply, (∀ region, l.derps.Has region ↔ c'.Has region) →
        request.regions ⊆ n.regions → accept l now request = .ok l' →
          reply ∈ l'.output → reply.failure = .unknownRegion →
            reply ∈ l.output ∨ l.reply = some reply) ∧
      ∀ node : NativeNode, node.derps = c' → node.network = n.network →
        ∀ peer ∈ node.network.peers, 0 < peer.derpRegion →
          (node.derps.entries.find? fun d => d.region == peer.derpRegion).isSome = true) ↔
    ∀ peer ∈ n.network.peers, 0 < peer.derpRegion → peer.derpHost = "" →
      Elsewhere c n.network peer.derpRegion := by
  have hhas (r : ℤ) := has_applyNetworkMap (r := r) h
  have hrn : ∀ {region : ℤ}, c'.Has region → (toUint16 region : ℤ) = region :=
    fun hr => toUint16_cast ((hc.applyNetworkMap h).inRange hr)
  constructor
  · rintro ⟨-, -, how⟩ peer hpr hpos _
    have hfo := how { derps := c', network := n.network } rfl rfl peer hpr hpos
    obtain ⟨d, hd⟩ := Option.isSome_iff_exists.mp hfo
    have hrg : c'.Has peer.derpRegion :=
      ⟨d, mem_of_find?_eq_some hd, by simpa using find?_some hd⟩
    refine ((hhas _).mp hrg).imp_right (Or.imp_right ?_)
    rintro ⟨other, hot, hvd, heq⟩
    exact ⟨other, hot, hvd.2, heq⟩
  · intro hel
    have hps : ∀ peer ∈ n.network.peers, 0 < peer.derpRegion → c'.Has peer.derpRegion := by
      intro peer hpr hpos
      rw [hhas]
      by_cases hhs : peer.derpHost = ""
      · refine (hel peer hpr hpos hhs).imp_right (Or.imp_right ?_)
        rintro ⟨other, hot, hvd, heq⟩
        exact ⟨other, hot, ⟨by omega, hvd⟩, heq⟩
      · exact .inr (.inr ⟨peer, hpr, ⟨by omega, hhs⟩, rfl⟩)
    have hre : ∀ region ∈ n.regions, c'.Has region := by
      intro _ hrg
      rcases mem_regions.mp hrg with rfl | ⟨peer, hpr, hpos, rfl⟩
      · have hhm : c'.Has n.network.derpRegion := (hhas _).mpr (.inr (.inl rfl))
        rw [hrn hhm]
        exact hhm
      · rw [hrn (hps peer hpr hpos)]
        exact hps peer hpr hpos
    refine ⟨hre, ?_, ?_⟩
    · intro _ _ _ _ _ hsm hsb hac hrp hfl
      refine accept_unknownRegion (fun region hrg => ?_) hac hrp hfl
      exact (hsm region).mpr (hre region (hsb hrg))
    · rintro node rfl hnt peer hpr hpos
      rw [hnt] at hpr
      obtain ⟨d, hd, hrg⟩ := hps peer hpr hpos
      rw [find?_isSome]
      exact ⟨d, hd, by simpa using hrg⟩

def nodeWithPeer (host : String) : SwitchingNode :=
  .new
    { network :=
        { derpRegion := 1, derpHost := "derp1.example.com"
          peers := [{ nodeId := 2, derpRegion := 2, derpHost := host }] } }
    {} .native ""

def provided (n : SwitchingNode) : DerpConnections :=
  match applyNetworkMap n.network { enabled := false } with
  | .ok _ c => c
  | .error _ c => c

theorem peer_with_host_provided : (nodeWithPeer "derp2.example.com").regions = [1, 2] ∧
      ∀ region ∈ (nodeWithPeer "derp2.example.com").regions,
        (provided (nodeWithPeer "derp2.example.com")).Has region := by
  refine ⟨by decide +kernel, ((regions_provided_iff (nodeWithPeer "derp2.example.com")
    (c := { enabled := false }) (.empty false) (by rfl)).mpr ?_).1⟩
  intro _ hpr _ hhs
  rw [mem_singleton.mp hpr] at hhs
  exact absurd hhs (by decide)

/-- **A peer without a host**: the configuration is accepted, the switch names
the region of the peer, nothing is created for it, and the lease refuses the
request. -/
theorem peer_without_host_missing : applyNetworkMap (nodeWithPeer "").network { enabled := false } =
        .ok () (provided (nodeWithPeer "")) ∧
      2 ∈ (nodeWithPeer "").regions ∧ ¬(provided (nodeWithPeer "")).Has 2 ∧
        refusal { derps := provided (nodeWithPeer ""), revision := 1 }
          { generation := 1, requestId := 1, mapRevision := 1, action := .prepare
            regions := (nodeWithPeer "").regions } = some .unknownRegion :=
  ⟨by rfl, by decide +kernel, by decide +kernel, by decide +kernel⟩

end Tailgate
