import Tailgate.DelegatedNode

/-!
# Revisions of network maps

A hosted node counts the network maps it has sent to its relay, and the relay
those it has applied; requests for the lease name a map by its number. The
client counts a map before it encodes it, and one that is too large for a frame
throws. So the counts agree exactly in the runs in which every map that the
client takes over fits into a frame.

What the client does with the packets of peers is a parameter.
-/

namespace Tailgate

open Procedure WireGuard ProtocolCodec DelegatedNode

/-! ## The client -/

structure PeerIdentity where
  nodePrivateKey : Bytes := .replicate 32 0
  nodePublicKey : Bytes := .replicate 32 0
  discoPrivateKey : Bytes := .replicate 32 0
  deriving DecidableEq

structure ClientConfig where
  identity : PeerIdentity := {}
  network : NetworkConfig := {}
  exitNode : String := ""

inductive ClientFault where
  | identityChanged
  | keysChanged
  | notInitialized
  | tunnel (error : TunnelError)
  | frame (error : ProtocolError)
  | decoding (error : RelayError)
  | pump (error : PumpError)
  | protocol
  deriving DecidableEq

/-- What a node has for its peers: its keys, and the router if it has been
initialized. -/
structure PeerProtocol where
  identity : PeerIdentity := {}
  router : Option WireGuardRouter := none

namespace PeerProtocol

def atRouter (x : WireGuardRouter.Routing Unit) (identity : PeerIdentity)
    (router : WireGuardRouter) :
    EStateM ClientFault PeerProtocol Unit := fun _ =>
  match x router with
  | .ok _ router => .ok () { identity, router := some router }
  | .error error router => .error (.tunnel error) { identity, router := some router }

def updatePeers (wg : Library) (peers : List PeerConfig) (exitNode : String) :
    EStateM ClientFault PeerProtocol Unit := fun p =>
  match p.router with
  | none => .error .notInitialized p
  | some router => atRouter (WireGuardRouter.updatePeers wg peers exitNode) p.identity router p

/-- **Set the keys and the peers.** The keys stay as long as the node lives. -/
def initializePeers (wg : Library) (identity : PeerIdentity) (peers : List PeerConfig)
    (exitNode : String) : EStateM ClientFault PeerProtocol Unit := fun p =>
  match p.router with
  | some router =>
    if identity ≠ p.identity then
      .error .keysChanged p
    else
      atRouter (WireGuardRouter.updatePeers wg peers exitNode) p.identity router p
  | none =>
    match WireGuardRouter.updatePeers wg peers exitNode {} with
    | .ok _ router => .ok () { identity, router := some router }
    | .error error _ => .error (.tunnel error) p

end PeerProtocol

structure ClientProcessResult where
  pumpReply : Option ℕ := none
  delegation : Option DelegationReply := none
  appliedMapRevision : Option ℕ := none
  networkMapChanged : Bool := false
  dataPathReady : Bool := false

/-- **The client of a hosted node.** -/
structure Client where
  config : ClientConfig := {}
  protocol : PeerProtocol := {}
  active : Bool := false
  mapRevision : ℕ := 0

namespace Client

abbrev ClientM := EStateM ClientFault Client

variable (lib : RelayLibrary)

def networkMapFrame (network : NetworkConfig) : Frame where
  type := .networkMap
  payload := encodeNetworkConfig lib network

def encodeNetworkMapFrame (network : NetworkConfig) : Except ProtocolError Bytes :=
  (networkMapFrame lib network).encode

def sendNetworkMap : ClientM Bytes := fun c =>
  match encodeNetworkMapFrame lib c.config.network with
  | .error error => .error (.frame error) c
  | .ok bytes => .ok bytes c

variable (wg : Library)

/-- **Start.** The result is the first network map. -/
def start (config : ClientConfig) : ClientM Bytes :=
  fun c =>
    match c.protocol.initializePeers wg config.identity config.network.peers config.exitNode with
    | .error fault protocol => .error fault { c with protocol }
    | .ok _ protocol =>
      sendNetworkMap lib { config, protocol, active := true, mapRevision := 1 }

variable (network : NetworkConfig)

def adopt (exitNode : Option String) : ClientM Unit :=
  fun c =>
    if !c.active || network.domain != c.config.network.domain ||
        network.selfNodeId != c.config.network.selfNodeId ||
        network.selfKey != c.config.network.selfKey then
      .error .identityChanged c
    else
      let config := { c.config with network, exitNode := exitNode.getD c.config.exitNode }
      match c.protocol.updatePeers wg network.peers config.exitNode with
      | .error fault protocol => .error fault { c with config, protocol }
      | .ok _ protocol => .ok () { c with config, protocol }

/-- **A new network map.** The result is its frame, unless it comes from the
relay. -/
def updateNetworkMap (exitNode : Option String) (outbound : Bool) : ClientM Bytes := do
  adopt wg network exitNode
  if !outbound then
    pure []
  else do
    -- The count is raised before it is known whether the map can be sent.
    modify fun c => { c with mapRevision := c.mapRevision + 1 }
    sendNetworkMap lib

/-- **Process a frame of the relay.** -/
def process (packets : Frame → EStateM ClientFault PeerProtocol Unit) (frame : Frame) :
    ClientM ClientProcessResult := fun c =>
  match frame.type with
  | .networkMap =>
    match decodeNetworkConfig lib frame.payload with
    | .error error => .error (.decoding error) c
    | .ok network =>
      match updateNetworkMap lib wg network none false c with
      | .error fault c => .error fault c
      | .ok _ c => .ok { networkMapChanged := true } c
  | .pump =>
    match tryDecodePumpReply frame.payload with
    | none => .error (.pump .invalidMessage) c
    | some requestId => .ok { pumpReply := some requestId } c
  | .delegationReply =>
    match decodeDelegationReply frame with
    | none => .error .protocol c
    | some reply => .ok { delegation := some reply } c
  | .networkMapAck =>
    match decodeMapAcknowledgement frame with
    | none => .error .protocol c
    | some revision =>
      if c.mapRevision < revision then
        .error .protocol c
      else
        .ok { appliedMapRevision := some revision } c
  | .dataPathReady => .ok { dataPathReady := true } c
  | .serverPacket | .heartbeat | .derpChallenge | .serverEndpointCandidates =>
    match packets frame c.protocol with
    | .error fault protocol => .error fault { c with protocol }
    | .ok _ protocol => .ok {} { c with protocol }
  | _ => .ok {} c

def Fits : Prop :=
  (encodeNetworkConfig lib network).length ≤ Frame.maximumPayloadSize

instance (lib : RelayLibrary) (network : NetworkConfig) : Decidable (Fits lib network) :=
  inferInstanceAs (Decidable (_ ≤ _))

section Sending

variable {lib wg} {c : Client}

theorem sendNetworkMap_of_fits (h : Fits lib c.config.network) :
    sendNetworkMap lib c = .ok (networkMapFrame lib c.config.network).wire c := by
  have hed : encodeNetworkMapFrame lib c.config.network =
      .ok (networkMapFrame lib c.config.network).wire := Frame.encode_eq_ok.mpr ⟨h, rfl⟩
  unfold sendNetworkMap
  rw [hed]

theorem sendNetworkMap_of_not_fits (h : ¬Fits lib c.config.network) :
    ∃ fault, sendNetworkMap lib c = .error fault c := by
  unfold sendNetworkMap
  cases hed : encodeNetworkMapFrame lib c.config.network with
  | error => exact ⟨_, rfl⟩
  | ok => exact absurd (Frame.encode_eq_ok.mp hed).1 h

theorem mapRevision_adopt (wg : Library) (net : NetworkConfig) (exitNode : Option String)
    (c : Client) : (after (adopt wg net exitNode) c).mapRevision = c.mapRevision := by
  unfold after adopt
  split_ifs
  · rfl
  · dsimp only
    cases c.protocol.updatePeers wg net.peers (exitNode.getD c.config.exitNode) <;> rfl

theorem network_adopt {network : NetworkConfig} {exitNode : Option String} {c' : Client}
    (h : adopt wg network exitNode c = .ok () c') : c'.config.network = network := by
  unfold adopt at h
  split_ifs at h
  dsimp only at h
  cases hup : c.protocol.updatePeers wg network.peers (exitNode.getD c.config.exitNode) with
  | error =>
    rw [hup] at h
    cases h
  | ok =>
    rw [hup] at h
    cases h
    rfl

/-- Whether a network map is taken over depends on whose it is and on the
peers. -/
theorem outcome_adopt_congr (wg : Library) {a b : NetworkConfig} (hdm : a.domain = b.domain)
    (hid : a.selfNodeId = b.selfNodeId) (hkey : a.selfKey = b.selfKey) (hps : a.peers = b.peers)
    (exitNode : Option String) (c : Client) :
    outcome (adopt wg a exitNode) c = outcome (adopt wg b exitNode) c := by
  unfold outcome adopt
  rw [hdm, hid, hkey, hps]
  split_ifs
  · rfl
  · dsimp only
    cases c.protocol.updatePeers wg b.peers (exitNode.getD c.config.exitNode) <;> rfl

theorem mapRevision_updateNetworkMap_false (lib : RelayLibrary) (wg : Library)
    (network : NetworkConfig) (exitNode : Option String) (c : Client) :
    (after (updateNetworkMap lib wg network exitNode false) c).mapRevision = c.mapRevision := by
  have had := mapRevision_adopt wg network exitNode c
  unfold after updateNetworkMap at *
  cases h : adopt wg network exitNode c with
  | error =>
    rw [h] at had
    rw [bind_error h]
    exact had
  | ok =>
    rw [h] at had
    rw [bind_ok h]
    exact had

/-- **No frame of the relay changes the count.** -/
theorem mapRevision_process (lib : RelayLibrary) (wg : Library)
    (packets : Frame → EStateM ClientFault PeerProtocol Unit) (frame : Frame) (c : Client) :
    (after (process lib wg packets frame) c).mapRevision = c.mapRevision := by
  unfold after process
  cases frame.type with
  | networkMap =>
    cases decodeNetworkConfig lib frame.payload with
    | error => rfl
    | ok network =>
      have hup := mapRevision_updateNetworkMap_false lib wg network none c
      unfold after at hup
      dsimp only
      cases h : updateNetworkMap lib wg network none false c with
      | error | ok =>
        rw [h] at hup
        exact hup
  | pump => cases tryDecodePumpReply frame.payload <;> rfl
  | delegationReply => cases decodeDelegationReply frame <;> rfl
  | networkMapAck =>
    cases decodeMapAcknowledgement frame with
    | none => rfl
    | some =>
      dsimp only
      split_ifs <;> rfl
  | serverPacket | heartbeat | derpChallenge | serverEndpointCandidates =>
    cases packets frame c.protocol <;> rfl
  | _ => rfl

end Sending

/-- **What sending a new network map may do**: the client does not take it over;
it counts it and returns its frame; or it counts it and throws, because it does
not fit. -/
theorem updateNetworkMap_cases (network : NetworkConfig) (exitNode : Option String) (c : Client) :
    (∃ fault c', updateNetworkMap lib wg network exitNode true c = .error fault c' ∧
      outcome (adopt wg network exitNode) c ≠ .ok () ∧ c'.mapRevision = c.mapRevision) ∨
    (∃ c', updateNetworkMap lib wg network exitNode true c =
        .ok (networkMapFrame lib network).wire c' ∧
      Fits lib network ∧ c'.mapRevision = c.mapRevision + 1) ∨
    ∃ fault c', updateNetworkMap lib wg network exitNode true c = .error fault c' ∧
      outcome (adopt wg network exitNode) c = .ok () ∧ ¬Fits lib network ∧
      c'.mapRevision = c.mapRevision + 1 := by
  have hct := mapRevision_adopt wg network exitNode c
  unfold after at hct
  unfold outcome
  cases had : adopt wg network exitNode c with
  | error fault c' =>
    rw [had] at hct
    exact .inl ⟨fault, c', bind_error had, nofun, hct⟩
  | ok _ c' =>
    rw [had] at hct
    have hnt := network_adopt had
    have hrun : updateNetworkMap lib wg network exitNode true c =
        sendNetworkMap lib { c' with mapRevision := c'.mapRevision + 1 } := bind_ok had
    have hrv : c'.mapRevision + 1 = c.mapRevision + 1 := congrArg (· + 1) hct
    by_cases hfi : Fits lib network
    · refine .inr (.inl ⟨{ c' with mapRevision := c'.mapRevision + 1 }, hrun.trans ?_, hfi, hrv⟩)
      rw [← hnt] at hfi ⊢
      exact sendNetworkMap_of_fits hfi
    · have hun : ¬Fits lib c'.config.network := hnt ▸ hfi
      obtain ⟨fault, hsend⟩ := sendNetworkMap_of_not_fits
        (c := { c' with mapRevision := c'.mapRevision + 1 }) hun
      exact .inr (.inr
        ⟨fault, { c' with mapRevision := c'.mapRevision + 1 }, hrun.trans hsend, rfl, hfi, hrv⟩)

end Client

/-! ## The client and the relay joined -/

/-- **A session of a client at its relay.** -/
structure MapSession where
  client : Client
  relay : DelegatedNode := {}
  channel : List Bytes := []
  alive : Bool := true
  /-- The network maps the client has returned for sending. -/
  returned : List Bytes := []
  applied : List Bytes := []

namespace MapSession

open List Client

variable (lib : RelayLibrary) (wg : Library)

/-- **A client is started**, which begins a session unless the client does not
accept its keys or peers. -/
def start (config : ClientConfig) (client : Client) : Option MapSession :=
  match client.protocol.initializePeers wg config.identity config.network.peers config.exitNode with
  | .error _ _ => none
  | .ok _ _ =>
    match client.start lib wg config with
    | .ok bytes client => some { client, channel := [bytes], returned := [bytes] }
    | .error _ client => some { client }

inductive Event where
  | update (network : NetworkConfig) (exitNode : Option String)
  | receive (frame : Frame)
  | deliver (now : ℕ) (opened : Bool)

def update (network : NetworkConfig) (exitNode : Option String) (s : MapSession) : MapSession :=
  match s.client.updateNetworkMap lib wg network exitNode true with
  | .error _ client => { s with client }
  | .ok bytes client =>
    { s with client, channel := s.channel ++ [bytes], returned := s.returned ++ [bytes] }

def apply (bytes : Bytes) (now : ℕ) (opened : Bool) :
    DelegatedNode.Delegated Unit := fun n =>
  if n.started then
    handleControl lib bytes now n
  else
    match soleFrame bytes with
    | .error fault => .error fault n
    | .ok frame =>
      match decodeNetworkConfig lib frame.payload with
      | .error error => .error (.decoding error) n
      | .ok network => DelegatedNode.start network opened n

def deliver (now : ℕ) (opened : Bool) (s : MapSession) : MapSession :=
  match s.channel with
  | [] => s
  | bytes :: channel =>
    if !s.alive then
      s
    else
      match apply lib bytes now opened s.relay with
      | .error _ relay => { s with relay, channel, alive := false }
      | .ok _ relay => { s with relay, channel, applied := s.applied ++ [bytes] }

variable (packets : Frame → EStateM ClientFault PeerProtocol Unit)

/-- **What happens.** -/
def next (s : MapSession) : Event → MapSession
  | .update network exitNode => s.update lib wg network exitNode
  | .receive frame => { s with client := after (process lib wg packets frame) s.client }
  | .deliver now opened => s.deliver lib now opened

def sessions : TransitionSystem MapSession Event where
  init s := ∃ config client, start lib wg config client = some s
  step s event s' := s' = s.next lib wg packets event

/-- **Every map that the client takes over fits** into a frame. -/
def Fitting (s : MapSession) : Event → Prop
  | .update network exitNode =>
    outcome (adopt wg network exitNode) s.client = .ok () → Client.Fits lib network
  | _ => True

/-- **What is always true of a session.** -/
structure Counted (s : MapSession) : Prop where
  /-- The client has counted every map it has returned. -/
  counted : s.returned.length ≤ s.client.mapRevision
  /-- The relay has counted every map it has applied. -/
  revision : s.relay.mapRevision = s.applied.length
  /-- It has acknowledged them by their numbers. -/
  acknowledged : s.relay.controlOutput = (range' 1 s.applied.length).map acknowledgement
  /-- Maps arrive in order, and only the one at which the relay throws is
  lost. -/
  order : ∃ lost, s.returned = s.applied ++ lost ++ s.channel ∧ (s.alive = true → lost = [])
  /-- What is on its way are network maps. -/
  frames : ∀ bytes ∈ s.channel, ∃ frame : Frame,
    frame.Valid ∧ frame.type = .networkMap ∧ frame.wire = bytes

section Steps

variable {lib wg packets} {s : MapSession} {config : ClientConfig}
  {client : Client}

/-- **How a session begins**: with the first network map if it fits, and with
nothing otherwise. The client has counted one map in any case. -/
theorem start_cases (h : start lib wg config client = some s) :
    s.client.mapRevision = 1 ∧ s.relay = {} ∧ s.alive = true ∧ s.applied = [] ∧
      s.returned = s.channel ∧
      s.channel = if Client.Fits lib config.network then
        [(networkMapFrame lib config.network).wire] else [] := by
  unfold start Client.start at h
  cases hin : client.protocol.initializePeers wg config.identity config.network.peers
      config.exitNode with
  | error =>
    rw [hin] at h
    cases h
  | ok _ protocol =>
    rw [hin] at h
    dsimp only at h
    by_cases hfi : Client.Fits lib config.network
    · rw [sendNetworkMap_of_fits hfi] at h
      cases h
      exact ⟨rfl, rfl, rfl, rfl, rfl, (if_pos hfi).symm⟩
    · obtain ⟨_, hsend⟩ := sendNetworkMap_of_not_fits
        (c := { config, protocol, active := true, mapRevision := 1 }) hfi
      rw [hsend] at h
      cases h
      exact ⟨rfl, rfl, rfl, rfl, rfl, (if_neg hfi).symm⟩

theorem counted_start (h : start lib wg config client = some s) : s.Counted := by
  obtain ⟨hrv, hrelay, -, hap, hrt, hcl⟩ := start_cases h
  refine ⟨?_, ?_, ?_, ⟨[], ?_, fun _ => rfl⟩, ?_⟩
  · rw [hrv, hrt, hcl]
    split_ifs
    · exact le_rfl
    · exact Nat.zero_le 1
  · rw [hrelay, hap]
    rfl
  · rw [hrelay, hap]
    rfl
  · rw [hrt, hap]
    rfl
  · intro _ hby
    rw [hcl] at hby
    split_ifs at hby with hfi
    · rw [mem_singleton.mp hby]
      exact ⟨networkMapFrame lib config.network, hfi, rfl, rfl⟩
    · cases hby

theorem Counted.update (h : s.Counted) (net : NetworkConfig) (exitNode : Option String) :
    (s.update lib wg net exitNode).Counted := by
  unfold MapSession.update
  obtain ⟨fault, client, hrun, -, hct⟩ | ⟨client, hrun, hfi, hct⟩ |
      ⟨fault, client, hrun, -, -, hct⟩ :=
    updateNetworkMap_cases lib wg net exitNode s.client
  · rw [hrun]
    exact { h with counted := h.counted.trans hct.ge }
  · rw [hrun]
    obtain ⟨lost, hor, hls⟩ := h.order
    refine { h with counted := ?_, order := ⟨lost, ?_, hls⟩, frames := ?_ }
    · rw [length_append, hct]
      exact Nat.succ_le_succ h.counted
    · show s.returned ++ _ = s.applied ++ lost ++ (s.channel ++ _)
      rw [hor, append_assoc]
    · intro bs hby
      obtain hold | hnew := mem_append.mp hby
      · exact h.frames bs hold
      · rw [mem_singleton.mp hnew]
        exact ⟨networkMapFrame lib net, hfi, rfl, rfl⟩
  · rw [hrun]
    exact { h with counted := h.counted.trans (hct ▸ Nat.le_succ _) }

theorem apply_cases {frame : Frame} (hvd : frame.Valid) (hty : frame.type = .networkMap)
    (now : ℕ) (opened : Bool) (n : DelegatedNode) :
    (∃ n', apply lib frame.wire now opened n = .ok () n' ∧ n.Applied n') ∨
      ∃ fault n', apply lib frame.wire now opened n = .error fault n' ∧ n.Unapplied n' := by
  unfold apply
  split_ifs
  · exact handleControl_cases lib hvd hty now n
  · have hpl : Decoder.Plain frame := ⟨hvd, by rw [hty]; exact nofun⟩
    rw [soleFrame_wire hpl]
    dsimp only
    cases decodeNetworkConfig lib frame.payload with
    | error => exact .inr ⟨_, _, rfl, rfl, rfl⟩
    | ok network => exact DelegatedNode.start_cases network opened n

theorem Counted.deliver (h : s.Counted) (now : ℕ) (opened : Bool) :
    (s.deliver lib now opened).Counted := by
  unfold MapSession.deliver
  cases hcl : s.channel with
  | nil => exact h
  | cons bs =>
    have hfr := h.frames
    obtain ⟨lost, hor, hls⟩ := h.order
    rw [hcl] at hfr hor
    obtain ⟨fr, hvd, hty, rfl⟩ := hfr bs mem_cons_self
    dsimp only
    by_cases hal : s.alive = true
    · -- A relay that is alive has applied all that has arrived.
      obtain rfl := hls hal
      rw [hal, Bool.not_true, if_neg Bool.false_ne_true]
      obtain ⟨_, hrun, hap⟩ | ⟨_, _, hrun, hun⟩ :=
        apply_cases hvd hty now opened s.relay
      · rw [hrun]
        refine { h with
          revision := ?_, acknowledged := ?_, order := ⟨[], ?_, fun _ => rfl⟩, frames := ?_ }
        · rw [hap.mapRevision, h.revision, length_append]
          rfl
        · rw [hap.controlOutput, h.acknowledged, h.revision, length_append,
            length_singleton, range'_1_concat, map_append, Nat.add_comm 1]
          rfl
        · rw [hor, append_nil, append_nil, append_assoc]
          rfl
        · exact fun bs hby => hfr bs (mem_cons_of_mem _ hby)
      · -- The map is lost, and with it whatever comes after.
        rw [hrun]
        refine { h with
          revision := hun.mapRevision.trans h.revision
          acknowledged := hun.controlOutput.trans h.acknowledged
          order := ⟨[fr.wire], ?_, nofun⟩
          frames := fun bs hby => hfr bs (mem_cons_of_mem _ hby) }
        rw [hor, append_nil, append_assoc]
        rfl
    · rw [Bool.not_eq_true] at hal
      rw [hal, Bool.not_false, if_pos rfl]
      exact h

theorem Counted.next (h : s.Counted) (event : Event) : (s.next lib wg packets event).Counted := by
  cases event with
  | update network exitNode => exact h.update network exitNode
  | receive frame =>
    have hct := mapRevision_process lib wg packets frame s.client
    exact { h with counted := h.counted.trans hct.ge }
  | deliver now opened => exact h.deliver now opened

theorem client_deliver (lib : RelayLibrary) (now : ℕ) (opened : Bool) (s : MapSession) :
    (s.deliver lib now opened).client = s.client ∧
      (s.deliver lib now opened).returned = s.returned := by
  unfold deliver
  cases s.channel with
  | nil => exact ⟨rfl, rfl⟩
  | cons bs =>
    dsimp only
    split_ifs
    · exact ⟨rfl, rfl⟩
    · cases apply lib bs now opened s.relay <;> exact ⟨rfl, rfl⟩

/-- **Exactly the steps in which maps fit keep the count of the client.** -/
theorem Counted.agree_next_iff (h : s.Counted) (event : Event) :
    (s.next lib wg packets event).client.mapRevision =
        (s.next lib wg packets event).returned.length ↔
      s.client.mapRevision = s.returned.length ∧ Fitting lib wg s event := by
  cases event with
  | update network exitNode =>
    show (s.update lib wg network exitNode).client.mapRevision =
      (s.update lib wg network exitNode).returned.length ↔ _
    unfold MapSession.update Fitting
    obtain ⟨fault, client, hrun, hrf, hct⟩ | ⟨client, hrun, hfi, hct⟩ |
        ⟨fault, client, hrun, had, hun, hct⟩ :=
      updateNetworkMap_cases lib wg network exitNode s.client
    · rw [hrun]
      rw [hct]
      exact ⟨fun heq => ⟨heq, fun had => absurd had hrf⟩, And.left⟩
    · rw [hrun]
      rw [hct, length_append, length_singleton, Nat.add_right_cancel_iff]
      exact ⟨fun heq => ⟨heq, fun _ => hfi⟩, And.left⟩
    · rw [hrun]
      show client.mapRevision = s.returned.length ↔ _
      -- The map is counted and not returned, and the count was no lower before.
      have hcd := h.counted
      constructor
      · intro _
        omega
      · exact fun hbt => absurd (hbt.2 had) hun
  | receive frame =>
    show (after (process lib wg packets frame) s.client).mapRevision = _ ↔ _
    rw [mapRevision_process]
    exact (and_iff_left trivial).symm
  | deliver now opened =>
    obtain ⟨hcl, hrt⟩ := client_deliver lib now opened s
    show (s.deliver lib now opened).client.mapRevision =
      (s.deliver lib now opened).returned.length ↔ _
    rw [hcl, hrt]
    exact (and_iff_left trivial).symm

end Steps

theorem counted_run {lib : RelayLibrary} {wg : Library}
    {packets : Frame → EStateM ClientFault PeerProtocol Unit} {s₀ s : MapSession}
    {evs : List Event} (hrun : (sessions lib wg packets).Run s₀ evs s) (h : s₀.Counted) :
    s.Counted := by
  refine hrun.invariant (P := Counted) ?_ h
  rintro s ev _ hs rfl
  exact hs.next ev

/-- **Client and relay agree on revisions exactly if every map fits.** In a
session, the client has counted the maps it has returned for sending exactly if
the map it was started with and every map it has taken over since fit into a
frame. In any case the relay acknowledges the maps it applies by their numbers,
in the order they were returned, and never has a higher revision than the
client; and once everything has arrived, the two revisions are the same exactly
if the client has counted right. -/
theorem revisions_agree_iff {lib : RelayLibrary} {wg : Library}
    {packets : Frame → EStateM ClientFault PeerProtocol Unit} {config : ClientConfig}
    {client : Client} {s₀ s : MapSession} {events : List Event}
    (hstart : start lib wg config client = some s₀)
    (hrun : (sessions lib wg packets).Run s₀ events s) :
    (s.client.mapRevision = s.returned.length ↔ Client.Fits lib config.network ∧
      ((sessions lib wg packets).restrict (Fitting lib wg)).Run s₀ events s) ∧
    s.applied <+: s.returned ∧
    s.relay.mapRevision = s.applied.length ∧
    s.relay.controlOutput = (range' 1 s.applied.length).map acknowledgement ∧
    s.relay.mapRevision ≤ s.client.mapRevision ∧
    (s.alive = true → s.channel = [] → (s.relay.mapRevision = s.client.mapRevision ↔
      s.client.mapRevision = s.returned.length)) := by
  have hcd := counted_run hrun (counted_start hstart)
  obtain ⟨lost, hor, hls⟩ := hcd.order
  have hpr : s.applied <+: s.returned := ⟨lost ++ s.channel, by rw [hor, append_assoc]⟩
  refine ⟨?_, hpr, hcd.revision, hcd.acknowledged, ?_, ?_⟩
  · have hag (s : MapSession) (event : Event) (s' : MapSession) (hs : Counted s)
        (hsp : (sessions lib wg packets).step s event s') :
        s'.client.mapRevision = s'.returned.length ↔
          s.client.mapRevision = s.returned.length ∧ Fitting lib wg s event := by
      cases hsp
      exact hs.agree_next_iff event
    rw [hrun.iff_restrict_of_invariant (I := Counted)
      (P := fun s => s.client.mapRevision = s.returned.length)
      (by rintro s event _ hs rfl; exact hs.next event) hag (counted_start hstart)]
    refine and_congr_left fun _ => ?_
    obtain ⟨hrv, -, -, -, hrt, hcl⟩ := start_cases hstart
    rw [hrv, hrt, hcl]
    by_cases hfi : Client.Fits lib config.network
    · rw [if_pos hfi]
      exact iff_of_true rfl hfi
    · rw [if_neg hfi]
      exact iff_of_false Nat.one_ne_zero hfi
  · rw [hcd.revision]
    exact hpr.length_le.trans hcd.counted
  · intro hal hcl
    have hall : s.returned.length = s.relay.mapRevision := by
      rw [hor, hls hal, hcl, append_nil, append_nil, hcd.revision]
    rw [hall]
    exact eq_comm

/-! ## A map that does not fit -/

def spelledField (field : String × Json) : Bytes :=
  match field.2 with
  | .string text => textBytes text
  | _ => []

def spelled : Json → Bytes
  | .object fields => fields.flatMap spelledField
  | _ => []

def regionMap : NetworkConfig where
  selfNodeId := 7
  selfKey := "k"
  selfAddress := "a"
  domain := "d"
  derpRegion := 1
  derpHost := "h"

/-- Libraries that write a text by spelling it, and read this map in every
text. -/
def spellingLibrary : RelayLibrary where
  dump := spelled
  parse _ := some (networkConfigJson regionMap)
  x25519Shared _ _ := .replicate 32 0
  hmacBlake2s256 _ _ := .replicate 32 0
  tailnetDnsResponse _ _ := none

def regionSession : MapSession :=
  (start spellingLibrary plain { network := regionMap } {}).getD { client := {} }

def arrivedSession : MapSession := regionSession.deliver spellingLibrary 0 true

theorem start_regionSession :
    start spellingLibrary plain { network := regionMap } {} = some regionSession := by
  unfold regionSession
  rfl

theorem arrivedSession_eq : arrivedSession.client.mapRevision = 1 ∧
    arrivedSession.relay.mapRevision = 1 ∧ arrivedSession.returned.length = 1 ∧
    arrivedSession.channel = [] ∧ arrivedSession.alive = true := by
  decide +kernel

theorem run_arrivedSession (net : NetworkConfig) :
    (sessions spellingLibrary plain fun _ => pure ()).Run regionSession
      [.deliver 0 true, .update net none]
      (arrivedSession.update spellingLibrary plain net none) :=
  .cons rfl (.cons rfl (.nil _))

theorem revisions_agree_region : let s := arrivedSession.update spellingLibrary plain regionMap none
    s.client.mapRevision = s.returned.length ∧ s.client.mapRevision = 2 ∧
      s.relay.mapRevision = 1 ∧ s.relay.mapRevision ≤ s.client.mapRevision := by
  intro s
  have hfi : Client.Fits spellingLibrary regionMap := by decide +kernel
  have hrun : ((sessions spellingLibrary plain fun _ => pure ()).restrict
      (Fitting spellingLibrary plain)).Run regionSession
      [.deliver 0 true, .update regionMap none] s :=
    .cons ⟨trivial, rfl⟩ (.cons ⟨fun _ => hfi, rfl⟩ (.nil _))
  obtain ⟨hiff, -, -, -, hle, -⟩ :=
    revisions_agree_iff start_regionSession (run_arrivedSession regionMap)
  exact ⟨hiff.mpr ⟨hfi, hrun⟩, by decide +kernel, by decide +kernel, hle⟩

theorem length_selfName_le (network : NetworkConfig) : (textBytes network.selfName).length ≤
    (encodeNetworkConfig spellingLibrary network).length := by
  have hmem : ("SelfName", .string network.selfName) ∈ networkConfigFields network := by
    unfold networkConfigFields
    simp
  show _ ≤ ((networkConfigFields network).flatMap spelledField).length
  exact (sublist_flatten_of_mem (mem_map_of_mem (f := spelledField) hmem)).length_le

def longMap (n : ℕ) : NetworkConfig :=
  { regionMap with selfName := .ofList (.replicate n 'a') }

variable {n : ℕ}

theorem not_fits_longMap (h : Frame.maximumPayloadSize < n) :
    ¬Client.Fits spellingLibrary (longMap n) := by
  have hlen : (textBytes (longMap n).selfName).length = n := by
    have hone : (String.utf8EncodeChar 'a').length = 1 := rfl
    unfold textBytes longMap
    rw [String.toList_ofList, length_flatMap, map_replicate, sum_replicate,
      hone, smul_eq_mul, Nat.mul_one]
  have hle := length_selfName_le (longMap n)
  unfold Client.Fits
  omega

theorem update_longMap (h : Frame.maximumPayloadSize < n) : ∃ client, client.mapRevision = 2 ∧
      arrivedSession.update spellingLibrary plain (longMap n) none =
        { arrivedSession with client } := by
  have hrg : outcome (adopt plain regionMap none) arrivedSession.client = .ok () := by
    decide +kernel
  have hsm := outcome_adopt_congr plain (a := longMap n) (b := regionMap) rfl rfl rfl
    rfl none arrivedSession.client
  unfold update
  obtain ⟨fault, client, hrun, hrf, hct⟩ | ⟨client, hrun, hfi, hct⟩ |
      ⟨fault, client, hrun, -, hun, hct⟩ :=
    updateNetworkMap_cases spellingLibrary plain (longMap n) none arrivedSession.client
  · exact absurd (hsm.trans hrg) hrf
  · exact absurd hfi (not_fits_longMap h)
  · rw [hrun]
    exact ⟨client, hct.trans (congrArg (· + 1) arrivedSession_eq.1), rfl⟩

/-- **A map that does not fit is counted, and never sent.** The first map has
arrived and nothing else is on its way, but the client has counted two. -/
theorem long_map_counted : ∃ s, (sessions spellingLibrary plain fun _ => pure ()).Run regionSession
        [.deliver 0 true, .update (longMap (Frame.maximumPayloadSize + 1)) none] s ∧
      s.client.mapRevision = 2 ∧ s.returned.length = 1 ∧ s.channel = [] ∧ s.alive = true ∧
      s.relay.mapRevision = 1 := by
  obtain ⟨-, hrelay, hrt, hcl, hal⟩ := arrivedSession_eq
  obtain ⟨_, hct, hup⟩ := update_longMap (Nat.lt_add_one Frame.maximumPayloadSize)
  have hrun := run_arrivedSession (longMap (Frame.maximumPayloadSize + 1))
  rw [hup] at hrun
  exact ⟨_, hrun, hct, hrt, hcl, hal, hrelay⟩

end MapSession

end Tailgate
