import Tailgate.AddressTexts
import Tailgate.SoleClaims
import Tailgate.WireGuardRouter

/-!
# The services of the node itself

TCP packets to the node are given to a network stack, which only sees addresses.
So the services keep a table of the peers' addresses with their keys, from which
an address is missing if two peers claim it. `calls` is what the stack has been
told, and what it puts out is an argument. `network` is what the table was built
from.
-/

namespace Tailgate

open Procedure List IpAddress

def nodeKey (text : String) : Option Bytes :=
  let start := "nodekey:".toList
  let digits := if start <+: text.toList then text.toList.drop start.length else text.toList
  (hexToBytes digits).filter fun bytes => bytes.length = 32

inductive PacketPath where
  | host
  | peer
  | hostNetwork
  deriving DecidableEq

structure InterfaceAddresses where
  ipv4 : IpAddress := {}
  ipv6 : Option IpAddress := none
  deriving DecidableEq

structure StackConfiguration where
  service : InterfaceAddresses := {}
  node : InterfaceAddresses := {}
  deriving DecidableEq

inductive StackCall where
  | start (configuration : StackConfiguration)
  | stop
  /-- Give up the packets for peers that are still there. -/
  | invalidatePeerPackets
  | input (path : PacketPath) (packet : Bytes)
  deriving DecidableEq

inductive StackStart where
  | ready
  | startFails
  | listenFails

structure ServicePacket where
  bytes : Bytes := []
  /-- The public key of the peer it is for, if it is for one. -/
  peer : Option Bytes := none
  forwardFromHost : Bool := false

/-- **The services of the node.** -/
structure LocalServices where
  started : Bool := false
  selfKey : String := ""
  configuration : StackConfiguration := {}
  /-- The public keys of the peers, under the texts of their addresses. -/
  peersByAddress : List (String × Bytes) := []
  calls : List StackCall := []
  /-- The configuration the table is of. The program does not keep this. -/
  network : Option NetworkConfig := none

namespace LocalServices

variable (aton : Aton) (ntoa : List ℕ → String)

/-! ## The configuration -/

def serviceAddresses : InterfaceAddresses where
  ipv4 := ofIpv4 (Ipv4Address.ofOctets [100, 100, 100, 100])
  ipv6 := some {
    family := .ipv6
    bytes := [0xfd, 0x7a, 0x11, 0x5c, 0xa1, 0xe0, 0, 0, 0, 0, 0, 0, 0, 0, 0, 0x53] }

def considerAddress (node : InterfaceAddresses) (text : String) : InterfaceAddresses :=
  match tryParse aton text with
  | none => node
  | some address =>
    if address.isUnspecified then
      node
    else if address.family = .ipv4 ∧ node.ipv4.isUnspecified then
      { node with ipv4 := address }
    else if address.family = .ipv6 ∧ node.ipv6 = none then
      { node with ipv6 := some address }
    else
      node

variable (starts : StackStart) (config : NetworkConfig) (peer : PeerConfig)

def nodeAddresses : InterfaceAddresses :=
  (if config.selfAddresses = [] then [config.selfAddress] else config.selfAddresses).foldl
    (considerAddress aton) {}

def addressTexts : List String :=
  if peer.addresses = [] then [peer.address] else peer.addresses

/-- **The addresses a peer claims**, each with the peer's key. -/
def claims : List (String × Bytes) :=
  match nodeKey peer.key with
  | none => []
  | some key => (addressTexts peer).filterMap fun text =>
    match tryParse aton text with
    | none => none
    | some address => if address.isUnspecified then none else some (address.toText ntoa, key)

def bindings (peers : List PeerConfig) : List (String × Bytes) :=
  SoleClaims.owners (peers.flatMap (claims aton ntoa))

def tell (call : StackCall) (s : LocalServices) : LocalServices :=
  { s with calls := s.calls ++ [call] }

def stop (s : LocalServices) : LocalServices :=
  let s := if s.started then s.tell .stop else s
  { s with peersByAddress := [], selfKey := "", started := false, network := none }

variable (s : LocalServices)

/-- **Build the table.** What the stack still has for a peer that no longer has
its address is given up. -/
def updatePeers : LocalServices :=
  let next := bindings aton ntoa config.peers
  let retired := s.peersByAddress.any fun previous => next.lookup previous.1 != some previous.2
  let s := if s.started && retired then s.tell .invalidatePeerPackets else s
  { s with peersByAddress := next, network := some config }

def start (next : StackConfiguration) (selfKey : String) :
    EStateM Unit LocalServices Unit := do
  modify fun s => { s with configuration := next, selfKey }
  modify (tell (.start next))
  match starts with
  | .ready => modify fun s => { s with started := true }
  | .startFails => throw ()
  | .listenFails => do
    modify (tell .stop)
    throw ()

/-- **A new configuration.** -/
def setNetworkConfig :
    EStateM Unit LocalServices Unit := do
  let next : StackConfiguration :=
    { service := serviceAddresses, node := nodeAddresses aton config }
  if config.selfKey = "" ∨ next.node.ipv4.isUnspecified then
    modify stop
  else do
    modify fun s =>
      if s.started ∧ (s.selfKey ≠ config.selfKey ∨ next.node ≠ s.configuration.node) then s.stop
      else s
    modify (updatePeers aton ntoa config)
    let s ← get
    if s.started then pure () else start starts next config.selfKey

/-! ## Packets -/

def isService (address : IpAddress) : Bool :=
  address == s.configuration.service.ipv4 || some address == s.configuration.service.ipv6

def isSelf (address : IpAddress) : Bool :=
  address == s.configuration.node.ipv4 || some address == s.configuration.node.ipv6

/-- Whether a packet may be of a TCP connection: it is, or it is a part of a
packet of which that cannot be seen. -/
def needsTcpDemultiplexing (envelope : IpEnvelope) : Bool :=
  envelope.protocol == 6 ||
    envelope.fragmented && [some 0, some 43, some 60].contains envelope.fragmentProtocol

/-- Take a packet of the host's; the answer is whether it was for the
services. -/
def handleHostPacket (packet : Bytes) (s : LocalServices) : Bool × LocalServices :=
  match parseIpEnvelope packet with
  | none => (false, s)
  | some envelope =>
    if !s.started || !s.isService envelope.destination || !needsTcpDemultiplexing envelope then
      (false, s)
    else if s.isSelf envelope.source then
      (true, s.tell (.input .host packet))
    else
      (true, s)

/-- **Take a packet of a peer's**; the answer is whether it was for the
services, or from another than it says. -/
def handlePeerPacket (authenticatedPeer packet : Bytes) (s : LocalServices) :
    Bool × LocalServices :=
  match parseIpEnvelope packet with
  | none => (false, s)
  | some envelope =>
    if !s.started || !needsTcpDemultiplexing envelope then
      (false, s)
    else if s.isService envelope.destination then
      (true, s)
    else if !s.isSelf envelope.destination then
      (false, s)
    else
      match s.peersByAddress.lookup (envelope.source.toText ntoa) with
      | none => (false, s)
      | some key =>
        if key ≠ authenticatedPeer then (true, s) else (true, s.tell (.input .peer packet))

def address (output : PacketPath × Bytes) : Option ServicePacket :=
  match output.1 with
  | .host => some { bytes := output.2 }
  | .hostNetwork => some { bytes := output.2, forwardFromHost := true }
  | .peer =>
    match parseIpEnvelope output.2 with
    | none => none
    | some envelope => (s.peersByAddress.lookup (envelope.destination.toText ntoa)).map fun key =>
      { bytes := output.2, peer := some key }

/-- **Take what the stack puts out.** -/
def takeOutput (outputs : List (PacketPath × Bytes)) (s : LocalServices) :
    List ServicePacket :=
  if s.started then outputs.filterMap (address ntoa s) else []

/-! ## Runs -/

inductive Call where
  | setNetworkConfig (starts : StackStart) (config : NetworkConfig)
  | stop
  | handleHostPacket (packet : Bytes)
  | handlePeerPacket (authenticatedPeer packet : Bytes)

def Call.run (call : Call) (s : LocalServices) : LocalServices :=
  match call with
  | .setNetworkConfig starts config =>
    after (LocalServices.setNetworkConfig aton ntoa starts config) s
  | .stop => s.stop
  | .handleHostPacket packet => (s.handleHostPacket packet).2
  | .handlePeerPacket peer packet => (s.handlePeerPacket ntoa peer packet).2

/-- **The services and the calls of their methods.** -/
def system : TransitionSystem LocalServices Call where
  init s := s = {}
  step s call s' := s' = call.run aton ntoa s

def Bound : Prop :=
  s.peersByAddress = bindings aton ntoa (s.network.elim [] NetworkConfig.peers)

variable {aton ntoa s} {a : IpAddress}

theorem Bound.tell (h : Bound aton ntoa s) (call : StackCall) : Bound aton ntoa (s.tell call) := h

theorem bound_stop (s : LocalServices) : Bound aton ntoa s.stop := rfl

theorem bound_updatePeers (cfg : NetworkConfig) (s : LocalServices) :
    Bound aton ntoa (s.updatePeers aton ntoa cfg) := rfl

theorem keeps_start (next : StackConfiguration) (selfKey : String) :
    Preserves (Bound aton ntoa) (start starts next selfKey) := by
  refine .bind (.modify fun s hs => hs) fun _ => .bind (.modify fun s hs => hs) fun _ => ?_
  cases starts with
  | ready => exact .modify fun s hs => hs
  | startFails => exact .throw fun s hs => hs
  | listenFails => exact .bind (.modify fun s hs => hs) fun _ => .throw fun s hs => hs

/-- A new configuration comes with its table, whether or not the stack
starts. -/
theorem keeps_setNetworkConfig (cfg : NetworkConfig) :
    Preserves (Bound aton ntoa) (setNetworkConfig aton ntoa starts cfg) := by
  refine .ite (.modify fun s _ => bound_stop s) (.bind (.modify fun s hs => ?_)
    fun _ => .bind (.modify fun s _ => bound_updatePeers cfg s) fun _ => .bind .get
    fun s => .ite (.pure ()) (keeps_start _ _ _))
  split
  · exact bound_stop s
  · exact hs

theorem handleHostPacket_cases (pkt : Bytes) (s : LocalServices) :
    (s.handleHostPacket pkt).2 = s ∨ (s.handleHostPacket pkt).2 = s.tell (.input .host pkt) := by
  unfold handleHostPacket
  split
  · exact .inl rfl
  · split_ifs
    · exact .inl rfl
    · exact .inr rfl
    · exact .inl rfl

/-- **A packet of a peer's is given to the stack only if the source address is
the peer's.** -/
theorem handlePeerPacket_cases (peer pkt : Bytes) (s : LocalServices) :
    (s.handlePeerPacket ntoa peer pkt).2 = s ∨
      (s.handlePeerPacket ntoa peer pkt).2 = s.tell (.input .peer pkt) ∧
        ∃ env, parseIpEnvelope pkt = some env ∧
          s.peersByAddress.lookup (env.source.toText ntoa) = some peer := by
  unfold handlePeerPacket
  split
  · exact .inl rfl
  · rename_i env hep
    split_ifs
    · exact .inl rfl
    · exact .inl rfl
    · exact .inl rfl
    · split
      · exact .inl rfl
      · rename_i key hkey
        split
        · exact .inl rfl
        · rename_i heq
          rw [not_not] at heq
          exact .inr ⟨rfl, env, hep, heq ▸ hkey⟩

/-- **A packet of the stack's is sent only to whom its destination address
belongs.** -/
theorem lookup_of_mem_takeOutput {outs : List (PacketPath × Bytes)}
    {pkt : ServicePacket} (h : pkt ∈ s.takeOutput ntoa outs) {key : Bytes}
    (hkey : pkt.peer = some key) :
    ∃ env, parseIpEnvelope pkt.bytes = some env ∧
      s.peersByAddress.lookup (env.destination.toText ntoa) = some key := by
  unfold takeOutput at h
  split at h
  · obtain ⟨⟨_, _⟩, -, had⟩ := mem_filterMap.mp h
    unfold address at had
    split at had
    · cases had
      cases hkey
    · cases had
      cases hkey
    · split at had
      · cases had
      · rename_i env hep
        obtain ⟨_, hlk, rfl⟩ := Option.map_eq_some_iff.mp had
        cases hkey
        exact ⟨env, hep, hlk⟩
  · exact absurd h not_mem_nil

/-- **In every run the table is that of the last configuration.** -/
theorem bound (h : (system aton ntoa).Reachable s) : Bound aton ntoa s := by
  refine TransitionSystem.invariant (P := Bound aton ntoa) ?_ ?_ h
  · rintro s rfl
    rfl
  · rintro s call s' hs rfl
    cases call with
    | setNetworkConfig starts cfg => exact (keeps_setNetworkConfig starts cfg).after hs
    | stop => exact bound_stop s
    | handleHostPacket pkt =>
      show Bound aton ntoa (s.handleHostPacket pkt).2
      obtain heq | heq := handleHostPacket_cases pkt s
      · rwa [heq]
      · rw [heq]
        exact hs.tell _
    | handlePeerPacket peer pkt =>
      show Bound aton ntoa (s.handlePeerPacket ntoa peer pkt).2
      obtain heq | ⟨heq, -⟩ := handlePeerPacket_cases peer pkt s
      · rwa [heq]
      · rw [heq]
        exact hs.tell _

/-! ## Who claims an address -/

variable (aton) in
def Claims (a : IpAddress) (key : Bytes) : Prop :=
  nodeKey peer.key = some key ∧ ∃ text ∈ addressTexts peer, tryParse aton text = some a

variable (aton) in
def ClaimedOnlyWith (peers : List PeerConfig) (a : IpAddress) (key : Bytes) : Prop :=
  (∃ peer ∈ peers, Claims aton peer a key) ∧
    ∀ peer ∈ peers, ∀ key', Claims aton peer a key' → key' = key

/-- The entries a peer asks for are those of the addresses it claims, but for
that of no host. -/
theorem mem_claims (hlib : Ipv6Texts aton ntoa) (ha : a.WellFormed)
    (peer : PeerConfig) (key : Bytes) : (a.toText ntoa, key) ∈ claims aton ntoa peer ↔
      a.isUnspecified = false ∧ Claims aton peer a key := by
  unfold claims Claims
  cases hkey : nodeKey peer.key with
  | none => simp
  | some =>
    rw [mem_filterMap]
    constructor
    · rintro ⟨txt, htx, hey⟩
      split at hey
      · cases hey
      · rename_i a' hpa
        split at hey
        · cases hey
        · rename_i hsp
          obtain ⟨hnm, rfl⟩ := Prod.mk.inj (Option.some.inj hey)
          obtain rfl := toText_injective hlib (wellFormed_of_tryParse hlib hpa) ha hnm
          exact ⟨by simpa using hsp, rfl, txt, htx, hpa⟩
    · rintro ⟨hsp, hown, txt, htx, hpa⟩
      cases hown
      exact ⟨txt, htx, by simp [hpa, hsp]⟩

/-- **What is in the table**: an address that is not that of no host, with the
only key it is claimed with. -/
theorem lookup_bindings (hlib : Ipv6Texts aton ntoa) (ha : a.WellFormed)
    (ps : List PeerConfig) (key : Bytes) :
    (bindings aton ntoa ps).lookup (a.toText ntoa) = some key ↔
      a.isUnspecified = false ∧ ClaimedOnlyWith aton ps a key := by
  unfold bindings ClaimedOnlyWith
  rw [SoleClaims.lookup_owners]
  simp only [mem_flatMap, mem_claims hlib ha, forall_exists_index, and_imp]
  constructor
  · rintro ⟨⟨peer, hpr, hsp, hcl⟩, hsl⟩
    exact ⟨hsp, ⟨peer, hpr, hcl⟩, fun peer hpr key' h =>
      hsl key' peer hpr hsp h⟩
  · rintro ⟨hsp, ⟨peer, hpr, hcl⟩, hsl⟩
    exact ⟨⟨peer, hpr, hsp, hcl⟩, fun key' peer hpr _ h => hsl peer hpr key' h⟩

theorem lookup_bindings_perm {ps ps' : List PeerConfig} (h : ps.Perm ps') (name : String) :
    (bindings aton ntoa ps).lookup name = (bindings aton ntoa ps').lookup name :=
  SoleClaims.lookup_owners_congr (fun _ => (h.flatMap_right _).mem_iff) name

/-- **Addresses are bound to keys safely.** In every run, the table has an
address that is not that of no host exactly if it is claimed with a single
valid key, and has that key; it does not depend on the order of the peers. A
packet of a peer's is given to the stack only if its source address is bound
to the peer's key, and a packet of the stack's is sent only to the key its
destination address is bound to. -/
theorem addresses_bound (hlib : Ipv6Texts aton ntoa) {s : LocalServices}
    (h : (system aton ntoa).Reachable s) :
    (∀ a : IpAddress, a.WellFormed → ∀ key, s.peersByAddress.lookup (a.toText ntoa) = some key ↔
        a.isUnspecified = false ∧
          ClaimedOnlyWith aton (s.network.elim [] NetworkConfig.peers) a key) ∧
    (∀ config peers, config.peers.Perm peers → ∀ name,
      (s.updatePeers aton ntoa config).peersByAddress.lookup name
        = (s.updatePeers aton ntoa { config with peers }).peersByAddress.lookup name) ∧
    (∀ peer packet, (s.handlePeerPacket ntoa peer packet).2.calls ≠ s.calls →
      ∃ envelope, parseIpEnvelope packet = some envelope ∧
        s.peersByAddress.lookup (envelope.source.toText ntoa) = some peer) ∧
    ∀ outputs packet key, packet ∈ s.takeOutput ntoa outputs → packet.peer = some key →
      ∃ envelope, parseIpEnvelope packet.bytes = some envelope ∧
        s.peersByAddress.lookup (envelope.destination.toText ntoa) = some key := by
  refine ⟨fun a ha key => ?_, fun config peers hpm name => lookup_bindings_perm hpm name,
    fun peer packet hcl => ?_, fun outputs packet key hmem hkey =>
      lookup_of_mem_takeOutput hmem hkey⟩
  · rw [bound h]
    exact lookup_bindings hlib ha _ key
  · obtain heq | ⟨-, hep⟩ := handlePeerPacket_cases peer packet s
    · exact absurd (congrArg LocalServices.calls heq) hcl
    · exact hep

/-! ## Two nodes -/

def plainNtoa (bytes : List ℕ) : String := String.ofList (':' :: bytes.map Char.ofNat)

theorem toNat_ofNat : ∀ b < 256, (Char.ofNat b).toNat = b := by
  decide +kernel

theorem ipv6Texts_plain : Ipv6Texts (fun _ => none) plainNtoa where
  bytes_of_aton := nofun
  ntoa_injective bytes bytes' _ hby _ hby' h := by
    have hcs : bytes.map Char.ofNat = bytes'.map Char.ofNat := by
      simpa [plainNtoa, String.ofList_inj] using h
    have hrd : ∀ bytes : List ℕ, (∀ b ∈ bytes, b < 256) →
        (bytes.map Char.ofNat).map Char.toNat = bytes := by
      intro bytes hby
      rw [map_map]
      exact (map_congr_left fun b hb => toNat_ofNat b (hby b hb)).trans (map_id bytes)
    rw [← hrd bytes hby, ← hrd bytes' hby', hcs]
  colon_mem_ntoa bytes := by simp [plainNtoa]

def nodeWith (address : String) : NetworkConfig where
  selfKey := "nodekey:" ++ .ofList (replicate 64 '1')
  selfAddress := "100.64.0.1"
  peers := [{
    key := "nodekey:" ++ .ofList (replicate 64 '7')
    addresses := [address] }]

def servicesWith (address : String) : LocalServices :=
  (Call.setNetworkConfig .ready (nodeWith address)).run (fun _ => none) plainNtoa {}

theorem reachable_servicesWith (addr : String) :
    (system (fun _ => none) plainNtoa).Reachable (servicesWith addr) :=
  .step (.init rfl) rfl

/-- Two peers claim one address, and one of them also claims another. -/
def contested : LocalServices :=
  (Call.setNetworkConfig .ready { nodeWith "" with
    peers := [
      { key := "nodekey:" ++ .ofList (replicate 64 '7')
        addresses := ["100.64.0.2", "100.64.0.3"] },
      { key := "nodekey:" ++ .ofList (replicate 64 '8')
        addresses := ["100.64.0.3"] }] }).run (fun _ => none) plainNtoa {}

theorem addresses_bound_contested : contested.started ∧
      contested.peersByAddress.lookup ((ofIpv4 0x64400002).toText plainNtoa)
        = some (replicate 32 0x77) ∧
      contested.peersByAddress.lookup ((ofIpv4 0x64400003).toText plainNtoa) = none ∧
      ∀ address ∈ [0x64400002, 0x64400003], ∀ key,
        contested.peersByAddress.lookup ((ofIpv4 address).toText plainNtoa) = some key ↔
          (ofIpv4 address).isUnspecified = false ∧ ClaimedOnlyWith (fun _ => none)
            (contested.network.elim [] NetworkConfig.peers) (ofIpv4 address) key := by
  have hwf : ∀ address ∈ [0x64400002, 0x64400003], (ofIpv4 address).WellFormed := by
    unfold WellFormed
    decide
  exact ⟨by decide +kernel, by decide +kernel, by decide +kernel, fun address ha key =>
    (addresses_bound ipv6Texts_plain (.step (.init rfl) rfl)).1 _ (hwf address ha) key⟩

/-- **The address of no host is not bound** to the only key that claims it. -/
theorem unspecified_not_bound :
    (system (fun _ => none) plainNtoa).Reachable (servicesWith "0.0.0.0") ∧
      ClaimedOnlyWith (fun _ => none) (nodeWith "0.0.0.0").peers (ofIpv4 0) (replicate 32 0x77) ∧
      (servicesWith "0.0.0.0").network = some (nodeWith "0.0.0.0") ∧
      (servicesWith "0.0.0.0").peersByAddress.lookup ((ofIpv4 0).toText plainNtoa) = none := by
  have hkey : nodeKey ("nodekey:" ++ String.ofList (replicate 64 '7'))
      = some (replicate 32 0x77) := by decide +kernel
  refine ⟨reachable_servicesWith _, ⟨⟨_, mem_singleton_self _, hkey, "0.0.0.0", ?_, ?_⟩, ?_⟩,
    by decide +kernel, by decide +kernel⟩
  · decide +kernel
  · decide +kernel
  · intro _ hpr _ hcl
    obtain rfl := mem_singleton.mp hpr
    exact Option.some.inj (hcl.1.symm.trans hkey)

end LocalServices

end Tailgate
