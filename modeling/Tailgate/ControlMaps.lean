import Tailgate.MapUpdates

/-!
# The map of a control connection

A full map replaces the map of the client, and an update is applied to it. Which
of the two a message is, `describeIncrementalNetworkMap` decides by keys of
updates. They are not all there are: a message that only describes the node,
accounts or filters is taken for a full map, and dropped.

What the calls ought to amount to is the fold of `folded` over the messages, and
`drain_eq_foldl` says for which messages they do.
-/

namespace Tailgate

open Procedure NetworkMapParser List Throwing Json

namespace ControlClient

/-! ## Messages -/

structure MapMessage where
  json : Json
  now : String

def describePing (map : Json) : Except JsonError Unit :=
  match map.find "PingRequest" with
  | some (.object ping) => do
    let _ ← (object ping).value "Types" asString ""
    let _ ← (object ping).value "URLIsNoise" asBool false
    pure ()
  | _ => .ok ()

def describePatch : Json → Except JsonError Unit
  | .object fields => do
    let _ ← (object fields).value "NodeID" asUnsigned 0
    pure ()
  | _ => .ok ()

def incrementalFields : List String :=
  ["PingRequest", "PeersChanged", "PeersRemoved", "PeersChangedPatch", "PeerSeenChange",
    "OnlineChange", "DERPMap", "DNSConfig", "Domain"]

/-- Whether a message is recognised as an update. The description that is
logged reads some of it, and throws on what it cannot read. -/
def describeIncrementalNetworkMap (map : Json) : Except JsonError Bool :=
  if map.isObject = false ∨ map.contains "Peers" = true then
    .ok false
  else do
    let keepAlive ← map.value "KeepAlive" asBool false
    if keepAlive = true ∨ incrementalFields.any map.contains = true then do
      describePing map
      ((arrayUnder map "PeersChangedPatch").getD []).forM describePatch
      pure true
    else
      pure false

/-! ## The stream -/

structure MapStream where
  currentMap : Option NetworkConfig
  pending : List MapMessage

variable (aton : Aton)

def updateCurrentMap (message : MapMessage) :
    EStateM MapError MapStream (Option NetworkConfig) := fun s =>
  match s.currentMap with
  | none => .ok none s
  | some c =>
    match applyUpdate aton message.json message.now c with
    | .ok changed c' => .ok (if changed then some c' else none) { s with currentMap := some c' }
    | .error e c' => .error e { s with currentMap := some c' }

def replaceCurrentMap (message : MapMessage) : EStateM MapError MapStream (Option NetworkConfig) :=
  match parse aton message.json with
  | .ok c => do
    modify fun s => { s with currentMap := some c }
    pure (some c)
  | .error _ => pure none

def takeMessage (message : MapMessage) : EStateM MapError MapStream (Option NetworkConfig) := do
  let incremental ← (describeIncrementalNetworkMap message.json : Except MapError Bool)
  if incremental then updateCurrentMap aton message else replaceCurrentMap aton message

def takeMessages : List MapMessage → EStateM MapError MapStream (Option NetworkConfig)
  | [] => pure none
  | message :: messages => do
    modify fun s => { s with pending := messages }
    match ← takeMessage aton message with
    | some c => pure (some c)
    | none => takeMessages messages

/-- **Take the messages that have arrived**, up to the first that changes
something. -/
def takeNetworkMapUpdate : EStateM MapError MapStream (Option NetworkConfig) := do
  let s ← get
  takeMessages aton s.pending

def drain : ℕ → EStateM MapError MapStream Unit
  | 0 => pure ()
  | polls + 1 => do
    let _ ← takeNetworkMapUpdate aton
    drain polls

/-! ## What it ought to amount to -/

variable (c : NetworkConfig) (message : MapMessage)

/-- **A message with peers is a full map**, which replaces the map if it is
accepted, **and any other is an update.** -/
def folded : NetworkConfig :=
  if message.json.contains "Peers" then
    match parse aton message.json with
    | .ok c' => c'
    | .error _ => c
  else
    match applyUpdate aton message.json message.now c with
    | .ok _ c' => c'
    | .error _ c' => c'

def Along (P : NetworkConfig → MapMessage → Prop) : NetworkConfig → List MapMessage → Prop
  | _, [] => True
  | c, message :: messages => P c message ∧ Along P (folded aton c message) messages

def Accepted : Prop :=
  message.json.contains "Peers" = false →
    ∃ changed c', applyUpdate aton message.json message.now c = .ok changed c'

def overlookedFields : List String := ["Node", "UserProfiles", "PacketFilter", "PacketFilters"]

/-- **What a message must be**: it has peers, or is recognised as an update,
or has none of the keys that are overlooked and comes when no peers have just
been removed. -/
def Recognised : Prop :=
  message.json.contains "Peers" = true ∨ describeIncrementalNetworkMap message.json = .ok true ∨
      describeIncrementalNetworkMap message.json = .ok false ∧
        overlookedFields.any message.json.contains = false ∧ c.removedPeerNodeIds = []

variable {aton c message}

/-! ## Messages that are overlooked -/

variable {map : Json} {s : MapStream}

theorem contains_peers_of_parse (h : parse aton map = .ok c) : map.contains "Peers" = true := by
  obtain ⟨-, _, _, _, hps, -, -⟩ := parse_cases h
  obtain ⟨_, -, hps⟩ := of_bind_ok hps
  obtain ⟨_, -, hps⟩ := of_bind_ok hps
  obtain ⟨nodes, hnd, -⟩ := of_bind_ok hps
  have hfo : map.find "Peers" = some nodes := find_of_field (of_liftMap_ok hnd)
  unfold Json.contains
  rw [hfo]
  rfl

/-- An update that is not recognised has none of the keys that are looked
for. -/
theorem incremental_of_describe (hob : map.isObject = true)
    (hps : map.contains "Peers" = false) (h : describeIncrementalNetworkMap map = .ok false) :
    map.value "KeepAlive" asBool false = .ok false ∧
      incrementalFields.any map.contains = false := by
  unfold describeIncrementalNetworkMap at h
  rw [if_neg (by simp [hob, hps])] at h
  obtain ⟨ka, hke, h⟩ := of_bind_ok h
  by_cases hfo : ka = true ∨ incrementalFields.any map.contains = true
  · rw [if_pos hfo] at h
    obtain ⟨-, -, h⟩ := of_bind_ok h
    obtain ⟨-, -, h⟩ := of_bind_ok h
    cases h
  · obtain ⟨hka, hfl⟩ := not_or.mp hfo
    rw [Bool.not_eq_true] at hka hfl
    rw [hka] at hke
    exact ⟨hke, hfl⟩

def configFields : List String :=
  ["PacketFilter", "PacketFilters", "Domain", "UserProfiles", "Node", "DNSConfig", "DERPMap"]

def peerFields : List String :=
  ["PeersRemoved", "PeersChanged", "OnlineChange", "PeerSeenChange", "PeersChangedPatch"]

theorem updateConfig_eq_self (h : ∀ key ∈ configFields, map.find key = none)
    (c : NetworkConfig) : updateConfig aton map c = .ok () c := by
  simp only [configFields, mem_cons, not_mem_nil, or_false, forall_eq_or_imp, forall_eq] at h
  obtain ⟨hfl, hfi, hdm, hpr, hnd, hdns, hdr⟩ := h
  have hup : applyCapabilityFilterUpdate aton map c = .ok false c := by
    unfold applyCapabilityFilterUpdate updateBaseFilter updateNamedFilters findPresent
    rw [hfl, hfi]
    rfl
  have hmr : mergeUserProfiles map c = .ok false c := by
    unfold mergeUserProfiles arrayUnder
    rw [hpr]
    rfl
  have hrg : updateHomeRegion (updateRegions map) c = .ok () c := by
    unfold updateRegions
    rw [hdr]
    rfl
  have hsl : concernsSelf map = false := by
    unfold concernsSelf Json.contains arrayUnder
    rw [hnd, hpr]
    rfl
  have hnm : updateDns map c = .ok () c := by
    unfold updateDns
    rw [hdns]
    rfl
  have hcn : map.contains "Domain" = false := by
    unfold Json.contains
    rw [hdm]
    rfl
  unfold updateConfig
  rw [bind_ok hup, hcn, hsl]
  show (mergeUserProfiles map >>= fun _ => _) c = _
  rw [bind_ok hmr]
  show (updateDns map >>= fun _ => _) c = _
  rw [bind_ok hnm]
  exact hrg

theorem updatePeers_eq_self (hdr : map.find "DERPMap" = none)
    (h : ∀ key ∈ peerFields, map.find key = none) (now : String) (profiles : List UserProfile)
    (peers : List PeerConfig) : updatePeers map now profiles peers = .ok ([], peers, false) := by
  simp only [peerFields, mem_cons, not_mem_nil, or_false, forall_eq_or_imp, forall_eq] at h
  obtain ⟨hrm, hcd, hon, hsn, hpt⟩ := h
  have hrg : updateRegions map = .object [] := by
    unfold updateRegions
    rw [hdr]
    rfl
  have hds : peers.mapM (applyDerpMetadata (updateRegions map)) = .ok peers := by
    refine mapM_eq_self fun p _ => ?_
    unfold applyDerpMetadata
    rw [hrg]
    split
    · rfl
    · rfl
  unfold updatePeers keptPeers removedPeers changePeers eachItem patchPeers
  rw [hds, hrm, hcd, hon, hsn, hpt]
  show Except.ok _ = _
  simp

theorem find_eq_none_of_unrecognised (hin : incrementalFields.any map.contains = false)
    (hov : overlookedFields.any map.contains = false) {key : String}
    (hkey : key ∈ configFields ∨ key ∈ peerFields) : map.find key = none := by
  refine find_eq_none_of_contains ?_
  have hmem : key ∈ incrementalFields ∨ key ∈ overlookedFields := by
    revert hkey
    simp only [configFields, peerFields, incrementalFields, overlookedFields, mem_cons,
      not_mem_nil, or_false]
    tauto
  rcases hmem with hmem | hmem
  · exact Bool.not_eq_true _ ▸ any_eq_false.mp hin key hmem
  · exact Bool.not_eq_true _ ▸ any_eq_false.mp hov key hmem

variable {changed : Bool} {c' : NetworkConfig}

/-- An update with no key of its own removes nothing and changes nothing
else. -/
theorem applyUpdate_eq_self {now : String} (hc : Refreshed aton c) (hrm : c.removedPeerNodeIds = [])
    (hfl : ∀ key, key ∈ configFields ∨ key ∈ peerFields → map.find key = none)
    (h : applyUpdate aton map now c = .ok changed c') : c' = c := by
  have hem : { c with removedPeerNodeIds := [] } = c := by rw [← hrm]
  rcases applyUpdate_cases h with ⟨-, rfl⟩ | ⟨-, _, _, _, _, hcf, -, hps, rfl⟩
  · exact hem
  · rw [hem, updateConfig_eq_self fun key hkey => hfl key (.inl hkey)] at hcf
    cases hcf
    rw [updatePeers_eq_self (hfl _ (.inl (by decide))) fun key hkey => hfl key (.inr hkey)] at hps
    cases hps
    have hpr : arrayUnder map "UserProfiles" = none := by
      unfold arrayUnder
      rw [hfl "UserProfiles" (.inl (by decide))]
    unfold finish
    rw [hpr]
    rw [hem]
    exact hc.refreshPeerCapabilities_eq

/-! ## Taking messages -/

theorem folded_of_peers (h : message.json.contains "Peers" = true) :
    folded aton c message = match parse aton message.json with
      | .ok c' => c'
      | .error _ => c := by
  unfold folded
  rw [if_pos h]

theorem folded_of_applyUpdate (hps : message.json.contains "Peers" = false)
    (h : applyUpdate aton message.json message.now c = .ok changed c') :
    folded aton c message = c' := by
  unfold folded
  rw [if_neg (by simp [hps]), h]

theorem refreshed_folded (hc : Refreshed aton c) (hac : Accepted aton c message) :
    Refreshed aton (folded aton c message) := by
  by_cases hps : message.json.contains "Peers" = true
  · rw [folded_of_peers hps]
    cases hpa : parse aton message.json with
    | ok => exact (parse_cases hpa).1
    | error => exact hc
  · rw [Bool.not_eq_true] at hps
    obtain ⟨_, _, hap⟩ := hac hps
    rw [folded_of_applyUpdate hps hap]
    exact hc.applyUpdate hap

theorem describe_of_peers (h : map.contains "Peers" = true) :
    describeIncrementalNetworkMap map = .ok false := by
  unfold describeIncrementalNetworkMap
  rw [if_pos (.inr h)]

theorem takeMessage_of_describe {incremental : Bool}
    (h : describeIncrementalNetworkMap message.json = .ok incremental) :
    takeMessage aton message s = if incremental then updateCurrentMap aton message s
      else replaceCurrentMap aton message s := by
  unfold takeMessage
  rw [h]
  cases incremental with
  | true | false => rfl

theorem replaceCurrentMap_ok (h : parse aton message.json = .ok c) :
    replaceCurrentMap aton message s = .ok (some c) { s with currentMap := some c } := by
  unfold replaceCurrentMap
  rw [h]
  rfl

theorem replaceCurrentMap_error {e : MapError} (h : parse aton message.json = .error e) :
    replaceCurrentMap aton message s = .ok none s := by
  unfold replaceCurrentMap
  rw [h]
  rfl

/-- **One message is taken as it ought to be.** -/
theorem takeMessage_eq_folded (hc : Refreshed aton c) (hac : Accepted aton c message)
    (hrc : Recognised c message) (pending : List MapMessage) :
    ∃ update, takeMessage aton message ⟨some c, pending⟩ =
      .ok update ⟨some (folded aton c message), pending⟩ := by
  by_cases hps : message.json.contains "Peers" = true
  · rw [takeMessage_of_describe (describe_of_peers hps), folded_of_peers hps]
    cases hpa : parse aton message.json with
    | ok => exact ⟨_, replaceCurrentMap_ok hpa⟩
    | error => exact ⟨_, replaceCurrentMap_error hpa⟩
  · rw [Bool.not_eq_true] at hps
    obtain ⟨changed, c', hap⟩ := hac hps
    rw [folded_of_applyUpdate hps hap]
    rcases hrc with h | hds | ⟨hds, hov, hrm⟩
    · exact absurd h (by simp [hps])
    · rw [takeMessage_of_describe hds]
      refine ⟨if changed then some c' else none, ?_⟩
      show (match applyUpdate aton message.json message.now c with
        | .ok changed c' => _
        | .error e c' => _) = _
      rw [hap]
    · -- not a full map, for want of peers, and as an update it says nothing
      have hob : message.json.isObject = true := by
        rcases applyUpdate_cases hap with ⟨hke, -⟩ | ⟨hke, -⟩
        all_goals exact isObject_of_value hke
      have hin := (incremental_of_describe hob hps hds).2
      have hsm : c' = c := applyUpdate_eq_self hc hrm
        (fun key hkey => find_eq_none_of_unrecognised hin hov hkey) hap
      rw [takeMessage_of_describe hds, hsm]
      cases hpa : parse aton message.json with
      | ok => exact absurd (contains_peers_of_parse hpa) (by simp [hps])
      | error => exact ⟨_, replaceCurrentMap_error hpa⟩

/-! ## Runs -/

structure Following (aton : Aton) (c : NetworkConfig)
    (messages : List MapMessage) : Prop where
  /-- The peers have the capabilities that follow from the filters. -/
  refreshed : Refreshed aton c
  accepted : Along aton (Accepted aton) c messages
  /-- Each message is what it must be. -/
  recognised : Along aton Recognised c messages

variable {messages : List MapMessage}

theorem Following.tail (h : Following aton c (message :: messages)) :
    Following aton (folded aton c message) messages where
  refreshed := refreshed_folded h.refreshed h.accepted.1
  accepted := h.accepted.2
  recognised := h.recognised.2

section Calls

variable {messages : List MapMessage} {current : Option NetworkConfig} {pending : List MapMessage}
  {s' : MapStream}

theorem takeMessages_cons {upd : Option NetworkConfig}
    (h : takeMessage aton message ⟨current, messages⟩ = .ok upd s') :
    takeMessages aton (message :: messages) ⟨current, pending⟩ = match upd with
      | some upd => .ok (some upd) s'
      | none => takeMessages aton messages s' := by
  have hput : (modify fun s => { s with pending := messages } : EStateM MapError MapStream Unit)
      ⟨current, pending⟩ = .ok () ⟨current, messages⟩ := rfl
  rw [takeMessages, bind_ok hput, bind_ok h]
  cases upd <;> rfl

end Calls

/-- **One call** takes some of the messages, and at least one if there is
any. -/
theorem takeMessages_eq_foldl (h : Following aton c messages) :
    ∃ upd taken rest, messages = taken ++ rest ∧ (taken = [] → messages = []) ∧
      Following aton (taken.foldl (folded aton) c) rest ∧
        takeMessages aton messages ⟨some c, messages⟩ =
          .ok upd ⟨some (taken.foldl (folded aton) c), rest⟩ := by
  induction messages generalizing c with
  | nil => exact ⟨none, [], [], rfl, fun _ => rfl, h, rfl⟩
  | cons message messages ih =>
    obtain ⟨upd, htk⟩ :=
      takeMessage_eq_folded h.refreshed h.accepted.1 h.recognised.1 messages
    cases upd with
    | some upd =>
      exact ⟨some upd, [message], messages, rfl, fun h => (nomatch h), h.tail,
        takeMessages_cons htk⟩
    | none =>
      obtain ⟨upd, taken, rest, rfl, -, hfl, hrs⟩ := ih h.tail
      exact ⟨upd, message :: taken, rest, rfl, fun h => (nomatch h), hfl,
        (takeMessages_cons htk).trans hrs⟩

/-- **Several calls** take as many messages, unless there are fewer. -/
theorem exists_drain_eq_foldl (h : Following aton c messages) (polls : ℕ) :
    ∃ taken rest, messages = taken ++ rest ∧ (rest = [] ∨ polls ≤ taken.length) ∧
      drain aton polls ⟨some c, messages⟩ = .ok () ⟨some (taken.foldl (folded aton) c), rest⟩ := by
  induction polls generalizing c messages with
  | zero => exact ⟨[], messages, rfl, .inr le_rfl, rfl⟩
  | succ _ ih =>
    obtain ⟨upd, first, rest, rfl, hfi, hfl, htk⟩ := takeMessages_eq_foldl h
    obtain ⟨taken, rest, rfl, hlen, hdrain⟩ := ih hfl
    refine ⟨first ++ taken, rest, (append_assoc ..).symm, ?_, ?_⟩
    · rcases hlen with hem | hlen
      · exact .inl hem
      · by_cases hnil : first = []
        · have hall := hfi hnil
          simp only [append_eq_nil_iff] at hall
          exact .inl hall.2.2
        · have hpos := length_pos_iff.mpr hnil
          rw [length_append]
          exact .inr (by omega)
    · have htk' : takeNetworkMapUpdate aton ⟨some c, first ++ (taken ++ rest)⟩ =
          .ok upd ⟨some (first.foldl (folded aton) c), taken ++ rest⟩ := htk
      rw [drain, bind_ok htk', hdrain, foldl_append]

/-- **The current map is the fold of the messages**, in every run that starts
with a full map and whose messages are what they must be: after any number of
calls that of the messages that have been taken, and as many calls as there
are messages take them all. -/
theorem drain_eq_foldl {full : MapMessage} (messages : List MapMessage)
    (start : Option NetworkConfig) (hfull : parse aton full.json = .ok c)
    (haccepted : Along aton (Accepted aton) c messages)
    (hrecognised : Along aton Recognised c messages) :
    (∀ polls, ∃ taken rest, messages = taken ++ rest ∧
      drain aton (polls + 1) ⟨start, full :: messages⟩ =
        .ok () ⟨some (taken.foldl (folded aton) c), rest⟩) ∧
    drain aton (messages.length + 1) ⟨start, full :: messages⟩ =
      .ok () ⟨some (messages.foldl (folded aton) c), []⟩ := by
  have hfl : Following aton c messages :=
    ⟨(parse_cases hfull).1, haccepted, hrecognised⟩
  have hfi : takeNetworkMapUpdate aton ⟨start, full :: messages⟩ =
      .ok (some c) ⟨some c, messages⟩ := by
    have htk : takeMessage aton full ⟨start, messages⟩ = .ok (some c) ⟨some c, messages⟩ := by
      rw [takeMessage_of_describe (describe_of_peers (contains_peers_of_parse hfull))]
      exact replaceCurrentMap_ok hfull
    exact takeMessages_cons htk
  have hdrain (polls : ℕ) : drain aton (polls + 1) ⟨start, full :: messages⟩ =
      drain aton polls ⟨some c, messages⟩ := by
    rw [drain, bind_ok hfi]
  constructor
  · intro polls
    obtain ⟨taken, rest, hsp, -, hrun⟩ := exists_drain_eq_foldl hfl polls
    exact ⟨taken, rest, hsp, (hdrain polls).trans hrun⟩
  · obtain ⟨_, rest, hsp, hlen, hrun⟩ := exists_drain_eq_foldl hfl messages.length
    have hrs : rest = [] := by
      rcases hlen with hem | hlen
      · exact hem
      · have htl := congrArg length hsp
        rw [length_append] at htl
        exact eq_nil_of_length_eq_zero (by omega)
    subst hrs
    rw [append_nil] at hsp
    rw [hdrain, hrun, hsp]

/-! ## An approval that is overlooked -/

/-- A machine whose approval is pending, and a peer through which names are
resolved. -/
def pendingMap : MapMessage where
  now := "2026-01-01T00:00:00Z"
  json := .object [("DERPMap", .object [("Regions", .object
        [("1", .object [("RegionCode", .string "nyc"),
          ("Nodes", .array [.object [("HostName", .string "derp1.example.com")]])])])]),
      ("DNSConfig", .object [("Routes", .object
        [("example.ts.net", .array [.object [("Addr", .string "100.64.0.2")]])])]),
      ("Node", .object [("ID", .number 1), ("MachineAuthorized", .bool false)]),
      ("Peers", .array [.object [("ID", .number 2), ("DERP", .string "127.3.3.40:1"),
        ("Addresses", .array [.string "100.64.0.2/32"])]])]

def pendingConfig : NetworkConfig :=
  match parse (fun _ => none) pendingMap.json with
  | .ok c => c
  | .error _ => {}

theorem parse_pendingMap : parse (fun _ => none) pendingMap.json = .ok pendingConfig := by
  rfl

def newDomain : MapMessage where
  now := "2026-01-01T00:01:00Z"
  json := .object [("Domain", .string "example.com")]

def approval : MapMessage where
  now := "2026-01-01T00:02:00Z"
  json := .object [("Node", .object [("ID", .number 1), ("MachineAuthorized", .bool true)])]

def mapAfter (aton : Aton) (polls : ℕ) (s : MapStream) : Option NetworkConfig :=
  match drain aton polls s with
  | .ok _ s' => s'.currentMap
  | .error _ s' => s'.currentMap

theorem drain_newDomain : drain (fun _ => none) 2 ⟨none, [pendingMap, newDomain]⟩ =
        .ok () ⟨some (folded (fun _ => none) pendingConfig newDomain), []⟩ ∧
      (folded (fun _ => none) pendingConfig newDomain).domain = "example.com" :=
  ⟨(drain_eq_foldl [newDomain] none parse_pendingMap
    ⟨fun _ => ⟨_, _, by rfl⟩, .intro⟩ ⟨.inr (.inl (by rfl)), .intro⟩).2,
    by decide +kernel⟩

/-- **An approval that is all a message says is lost**: the update approves
the machine, but the current map is as it was. -/
theorem approval_overlooked : parse (fun _ => none) pendingMap.json = .ok pendingConfig ∧
      Along (fun _ => none) (Accepted fun _ => none) pendingConfig [approval] ∧
        (folded (fun _ => none) pendingConfig approval).selfMachineAuthorized = true ∧
          mapAfter (fun _ => none) 2 ⟨none, [pendingMap, approval]⟩ = some pendingConfig ∧
            pendingConfig.selfMachineAuthorized = false :=
  ⟨parse_pendingMap, ⟨fun _ => ⟨_, _, by rfl⟩, .intro⟩, by decide +kernel,
    by decide +kernel, by decide +kernel⟩

end ControlClient

end Tailgate
