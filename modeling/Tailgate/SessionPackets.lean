import Tailgate.DiscoMessages
import Tailgate.PeerPaths
import Tailgate.WireGuardRouter

/-!
# The packets of a session

A session takes what arrives on its socket and from its relays: disco messages,
and packets for the router. The endpoint of a message that it can open, and of a
packet that the router accepts, is used for the peer from then on.

What a session sends are the `effects` here. What is drawn at random and the
time are in `Inputs`. The search for an endpoint of the node itself is not here.
-/

namespace Tailgate

open Procedure WireGuard

def parsePrefixedKey (start text : String) : Option Bytes :=
  if start.toList <+: text.toList then
    (hexToBytes (text.toList.drop start.toList.length)).filter fun bytes => bytes.length = 32
  else
    none

structure SessionPeer where
  config : PeerConfig := {}
  publicKey : Bytes := []
  discoKey : Option Bytes := none
  endpoints : List Endpoint := []
  transmittedBytes : ℕ := 0
  receivedBytes : ℕ := 0
  active : Bool := true

inductive SessionEffect where
  | probe (endpoint : Endpoint) (payload : Bytes)
  /-- A datagram to every endpoint of a peer that has been verified. -/
  | probePeer (peer payload : Bytes)
  /-- A datagram to a peer, which waits if the socket is busy. -/
  | direct (peer : Bytes) (endpoint : Endpoint) (payload : Bytes)
  | relay (connection : ℕ) (peer payload : Bytes) (control : Bool)
  deriving DecidableEq

structure SessionWireGuardEvent where
  peer : Bytes := []
  plaintext : List Bytes := []
  directSource : Option Endpoint := none
  transportBytes : ℕ := 0
  sessionEstablished : Bool := false

structure SessionDiscoEvent where
  peer : Bytes
  type : Disco.MessageType
  transaction : Bytes
  directSource : Option Endpoint

structure SessionPathEvent where
  peer : Bytes
  directEndpoint : Option Endpoint

/-- **A session.** -/
structure Session where
  configured : Bool := false
  disco : Disco := {}
  router : WireGuardRouter := {}
  peers : List SessionPeer := []
  connection : Connection := {}
  derps : List ℤ := []
  advertisedEndpoint : Endpoint := {}
  homeDerpRegion : ℤ := 0
  effects : List SessionEffect := []
  wireGuardEvents : List SessionWireGuardEvent := []
  discoEvents : List SessionDiscoEvent := []
  pathEvents : List SessionPathEvent := []
  datagrams : List (Endpoint × Bytes) := []

namespace Session

structure Inputs where
  now : ℕ := 0
  transaction : Bytes := []
  nonce : ℕ → Bytes := fun _ => []

abbrev Processing := EStateM TunnelError Session

def atRouter {α : Type} (x : WireGuardRouter.Routing α) : Processing α :=
  within router (fun router s => { s with router }) x

def emit (effect : SessionEffect) (s : Session) : Session :=
  { s with effects := s.effects ++ [effect] }

def modifyPeer (i : ℕ) (f : SessionPeer → SessionPeer) (s : Session) : Session :=
  { s with peers := s.peers.modify i f }

def findPeer (key : Bytes) (s : Session) : Option ℕ :=
  s.peers.findIdx? fun peer => peer.active && peer.publicKey == key

variable (peer : SessionPeer) (discoKey : Bytes) (s : Session) (config : PeerConfig)

def findDiscoPeer : Option ℕ :=
  s.peers.findIdx? fun peer => peer.active && peer.discoKey == some discoKey

def findDerp (region : ℤ) (s : Session) : Option ℕ :=
  match s.derps.findIdx? (· = region) with
  | some i => some i
  | none => if s.derps = [] then none else some 0

/-! ## The configuration -/

def activatePeer (publicKey : Bytes) (s : Session) : Session :=
  match s.peers.find? fun peer => peer.publicKey = publicKey with
  | none => { s with
      peers := s.peers ++ [{ config, publicKey }]
      connection := (s.connection.addPeer publicKey).2 }
  | some peer =>
    if peer.active then s else { s with connection := (s.connection.addPeer publicKey).2 }

def configurePeer (peer : SessionPeer) : SessionPeer :=
  { peer with
    config
    discoKey := parsePrefixedKey "discokey:" config.discoKey
    endpoints := config.endpoints.filterMap Endpoint.tryParse
    active := true }

def pathReset : Option PeerPathState.ResetMode :=
  if peer.config.discoKey ≠ config.discoKey ∨ !config.online then
    some .forgetVerifiedEndpoints
  else if peer.config.endpoints ≠ config.endpoints then
    some .preserveVerifiedEndpoints
  else
    none

def updatePeer : Session :=
  match parsePrefixedKey "nodekey:" config.key with
  | none => s
  | some publicKey =>
    let s := s.activatePeer config publicKey
    match s.peers.findIdx? fun peer => peer.publicKey = publicKey with
    | none => s
    | some i =>
      let reset := (s.peers[i]?).bind fun peer => pathReset peer config
      let s := s.modifyPeer i (configurePeer config)
      match reset with
      | some mode => { s with connection := s.connection.resetPath publicKey mode }
      | none => s

def removeInactive : Session :=
  (s.peers.filter fun peer => !peer.active).foldl
    (fun s peer => { s with connection := (s.connection.removePeer peer.publicKey).2 }) s

variable (B : SealedBoxes Secret) (io : Inputs) (lib : Library)

/-- **A new configuration.** -/
def updatePeers (configs : List PeerConfig) (exitNode : String) :
    Processing Unit := do
  let s ← get
  if s.configured then atRouter (WireGuardRouter.updatePeers lib configs exitNode) else pure ()
  modify fun s =>
    let s := { s with peers := s.peers.map fun peer => { peer with active := false } }
    (configs.foldl updatePeer s).removeInactive

/-! ## Paths -/

def sendRelay (payload : Bytes) (control : Bool) (s : Session) : Session :=
  match s.findDerp peer.config.derpRegion with
  | none => s
  | some i => s.emit (.relay i peer.publicKey payload control)

/-- **Use an endpoint for a peer.** -/
def markDirect (peer : SessionPeer) (endpoint : Endpoint) (s : Session) : Session :=
  let (changed, connection) := s.connection.markDirect peer.publicKey endpoint
  { s with
    connection
    pathEvents :=
      if changed then s.pathEvents ++ [⟨peer.publicKey, some endpoint⟩] else s.pathEvents }

variable {Secret : Type}

def startDirectProbe (peer : SessionPeer) (s : Session) : Session :=
  match peer.discoKey with
  | none => s
  | some discoKey =>
    if !s.configured || s.connection.hasDirectPath peer.publicKey then
      s
    else
      match s.connection.tryBeginProbe io.now peer.publicKey with
      | (false, _) => s
      | (true, connection) =>
        let ping := s.disco.buildPing B (io.nonce 1) discoKey io.transaction
        let s : Session := { s with connection }
        let s := s.emit (.probePeer peer.publicKey ping)
        let s := peer.endpoints.foldl (fun s endpoint => s.emit (.probe endpoint ping)) s
        if s.advertisedEndpoint.port ≠ 0 then
          s.sendRelay peer
            (s.disco.buildCallMeMaybe B (io.nonce 2) discoKey [s.advertisedEndpoint]) true
        else
          s

/-! ## Disco messages -/

def processCallMeMaybe (discoKey : Bytes)
    (derpSource : Option Bytes) (message : Disco.Message) (s : Session) : Session :=
  if derpSource.isSome then
    let ping := s.disco.buildPing B (io.nonce 0) discoKey io.transaction
    message.endpoints.foldl (fun s endpoint => s.emit (.probe endpoint ping)) s
  else
    s

section

variable (peer : SessionPeer) (discoKey : Bytes) (derpSource : Option Bytes)
  (directSource : Option Endpoint) (derpConnection : Option ℕ) (message : Disco.Message)
  (s : Session)

def processPing : Session :=
  let source := directSource.getD
    { address := Disco.derpMagicIpv4Address, port := (s.homeDerpRegion % 2 ^ 16).toNat }
  let pong := s.disco.buildPong B (io.nonce 0) discoKey message.transaction source
  match directSource, derpSource, derpConnection with
  | some endpoint, _, _ =>
    (s.markDirect peer endpoint).emit (.direct peer.publicKey endpoint pong)
  | none, some derpSource, some connection =>
    if connection < s.derps.length then
      (s.emit (.relay connection derpSource pong true)).startDirectProbe B io peer
    else
      s
  | none, _, _ => s

def processMessage : Session :=
  match message.type, directSource with
  | .callMeMaybe, _ => s.processCallMeMaybe B io discoKey derpSource message
  | .ping, _ => s.processPing B io peer discoKey derpSource directSource derpConnection message
  | .pong, some endpoint => s.markDirect peer endpoint
  | .pong, none => s

end

/-- **Take a disco message**; the answer is whether the packet was one. -/
def processDiscoPacket (derpSource : Option Bytes)
    (directSource : Option Endpoint) (derpConnection : Option ℕ) (packet : Bytes)
    (s : Session) : Bool × Session :=
  if !s.configured || !Disco.isDiscoPacket packet then
    (false, s)
  else
    match s.disco.parse B packet with
    | none => (true, s)
    | some message =>
      match s.findDiscoPeer message.sender with
      | none => (true, s)
      | some i =>
        let s := s.modifyPeer i fun peer =>
          { peer with receivedBytes := peer.receivedBytes + packet.length }
        match s.peers[i]? with
        | none => (true, s)
        | some peer =>
          let s := s.processMessage B io peer message.sender derpSource directSource
            derpConnection message
          (true, { s with
            discoEvents := s.discoEvents ++
              [⟨peer.publicKey, message.type, message.transaction, directSource⟩] })

/-! ## The packets of the router -/

def creditPeer (source : Bytes) (directSource : Option Endpoint) (size : ℕ) (s : Session) :
    Session :=
  match s.findPeer source with
  | none => s
  | some i =>
    let s := s.modifyPeer i fun peer => { peer with receivedBytes := peer.receivedBytes + size }
    match s.peers[i]?, directSource with
    | some peer, some endpoint => s.markDirect peer endpoint
    | _, _ => s

def reply (source : Bytes) (directSource : Option Endpoint) (derpConnection : Option ℕ)
    (s : Session) (outbound : TransportPacket) : Session :=
  let s := match s.findPeer source with
    | none => s
    | some i => s.modifyPeer i fun peer =>
      { peer with transmittedBytes := peer.transmittedBytes + outbound.payload.length }
  match directSource, derpConnection with
  | some endpoint, _ => s.emit (.direct source endpoint outbound.payload)
  | none, some connection =>
    if connection < s.derps.length then
      s.emit (.relay connection source outbound.payload outbound.control)
    else
      s
  | none, none => s

/-- **Give a packet to the router**; the answer is whether a peer was found.
The key of no peer is all zeros. -/
def processWireGuardPacket (turns : ℕ) (now : UInt32)
    (derpSource : Option Bytes) (directSource : Option Endpoint)
    (derpConnection : Option ℕ) (packet : Bytes) : Processing Bool := do
  let s ← get
  if !s.configured || Disco.isDiscoPacket packet then
    pure false
  else do
    let received ← atRouter (match derpSource with
      | none => WireGuardRouter.receive lib turns now packet
      | some source => WireGuardRouter.receiveFrom lib turns now source packet)
    if received.source.all (· == 0) then
      pure false
    else if !received.accepted then
      pure true
    else do
      modify (creditPeer received.source directSource packet.length)
      modify fun s => received.outbound.foldl (reply received.source directSource derpConnection) s
      modify fun s => { s with
        wireGuardEvents := s.wireGuardEvents ++ [{
          peer := received.source
          plaintext := received.plaintext
          directSource
          transportBytes := packet.length
          sessionEstablished := received.sessionEstablished }] }
      pure true

/-- **Take a packet**, from the socket or from a relay. -/
def processPacket (turns : ℕ)
    (now : UInt32) (derpSource : Option Bytes) (directSource : Option Endpoint)
    (derpConnection : Option ℕ) (packet : Bytes) : Processing Bool := do
  if ← modifyGet (processDiscoPacket B io derpSource directSource derpConnection packet) then
    pure true
  else
    processWireGuardPacket lib turns now derpSource directSource derpConnection packet

/-! ## What is left alone -/

theorem wireGuardEvents_updatePeer (config : PeerConfig) (s : Session) :
    (s.updatePeer config).wireGuardEvents = s.wireGuardEvents := by
  unfold updatePeer
  split
  · rfl
  · next key _ =>
    have hact : (s.activatePeer config key).wireGuardEvents = s.wireGuardEvents := by
      unfold activatePeer
      split
      · rfl
      · split <;> rfl
    dsimp only
    split
    · exact hact
    · split <;> exact hact

/-- A new configuration leaves what waits as it is. -/
theorem leaves_updatePeers (configs : List PeerConfig) (exitNode : String) :
    Leaves wireGuardEvents (updatePeers lib configs exitNode) := by
  have hat (x : WireGuardRouter.Routing Unit) : Leaves wireGuardEvents (atRouter x) :=
    fun _ => .frame _ (fun _ _ hs => hs) fun _ _ hs => hs
  have hall (s : Session) : (configs.foldl updatePeer { s with
      peers := s.peers.map fun peer =>
        { peer with active := false } }).removeInactive.wireGuardEvents
      = s.wireGuardEvents := by
    let Same (s' : Session) : Prop := s'.wireGuardEvents = s.wireGuardEvents
    refine List.foldlRecOn (motive := Same) _ _ ?_ fun _ hs _ _ => hs
    exact List.foldlRecOn (motive := Same) configs updatePeer rfl fun s' hs config _ =>
      (wireGuardEvents_updatePeer config s').trans hs
  exact .bind .get fun s => .ite (.bind (hat _) fun _ => .modify hall) (.modify hall)

@[simp]
theorem connection_emit (effect : SessionEffect) (s : Session) :
    (s.emit effect).connection = s.connection := rfl

@[simp]
theorem connection_sendRelay (pl : Bytes) (control : Bool)
    (s : Session) : (s.sendRelay peer pl control).connection = s.connection := by
  unfold sendRelay
  split <;> rfl

@[simp]
theorem connection_foldl_emit {α : Type} (effect : α → SessionEffect) (as : List α) (s : Session) :
    (as.foldl (fun s a => s.emit (effect a)) s).connection = s.connection := by
  induction as generalizing s with
  | nil => rfl
  | cons _ _ ih => rw [List.foldl_cons, ih, connection_emit]

theorem directEndpoint_startDirectProbe (peer : SessionPeer) (s : Session) (other : Bytes) :
    (s.startDirectProbe B io peer).connection.directEndpoint other
      = s.connection.directEndpoint other := by
  unfold startDirectProbe
  split
  · rfl
  · split
    · rfl
    · split
      · rfl
      · rename_i connection hpr
        have hcn : connection = (s.connection.tryBeginProbe io.now peer.publicKey).2 := by
          rw [hpr]
        have hkp : connection.directEndpoint other = s.connection.directEndpoint other := by
          rw [hcn]
          exact Connection.directEndpoint_atPath
            (PeerPathState.directEndpoint_tryBeginProbe io.now) _ other
        dsimp only
        split
        all_goals simpa using hkp

/-- **Only a direct source is chosen**: what a message of a peer's does to the
direct paths is to use the endpoint it came from for that peer. -/
theorem directEndpoint_processMessage (peer : SessionPeer)
    (discoKey : Bytes) (dsrc : Option Bytes) (directSource : Option Endpoint)
    (dconn : Option ℕ) (msg : Disco.Message) (s : Session) :
    (∀ other, (s.processMessage B io peer discoKey dsrc directSource dconn
        msg).connection.directEndpoint other = s.connection.directEndpoint other) ∨
      ∃ ep, directSource = some ep ∧ (s.processMessage B io peer discoKey dsrc directSource dconn
          msg).connection = (s.connection.markDirect peer.publicKey ep).2 := by
  unfold processMessage
  split
  · refine .inl fun other => ?_
    unfold processCallMeMaybe
    split <;> simp
  · unfold processPing
    split
    · exact .inr ⟨_, rfl, rfl⟩
    · refine .inl fun other => ?_
      split
      · rw [directEndpoint_startDirectProbe, connection_emit]
      · rfl
    · exact .inl fun other => rfl
  · exact .inr ⟨_, rfl, rfl⟩
  · exact .inl fun other => rfl

variable {packet : Bytes}

theorem processWireGuardPacket_eq (hpk : Disco.isDiscoPacket packet)
    (lib : Library) (ts : ℕ) (now : UInt32) (dsrc : Option Bytes)
    (directSource : Option Endpoint) (dconn : Option ℕ) (s : Session) :
    processWireGuardPacket lib ts now dsrc directSource dconn packet s = .ok false s := by
  have hsk : (!s.configured || Disco.isDiscoPacket packet) = true := by
    rw [hpk, Bool.or_true]
  show (if (!s.configured || Disco.isDiscoPacket packet) = true then pure false else _ :
    Processing Bool) s = _
  rw [if_pos hsk]
  rfl

/-- **A disco message is only a disco message.** -/
theorem after_processPacket (hpk : Disco.isDiscoPacket packet)
    (B : SealedBoxes Secret) (io : Inputs) (lib : Library) (ts : ℕ) (now : UInt32)
    (dsrc : Option Bytes) (directSource : Option Endpoint)
    (dconn : Option ℕ) (s : Session) :
    after (processPacket B io lib ts now dsrc directSource dconn packet) s
      = (s.processDiscoPacket B io dsrc directSource dconn packet).2 := by
  cases hds : s.processDiscoPacket B io dsrc directSource dconn packet with
  | mk taken s' =>
    have hrun : processPacket B io lib ts now dsrc directSource dconn packet s = .ok taken s' := by
      unfold processPacket
      rw [bind_ok (modifyGet_ok hds)]
      cases taken with
      | true => rfl
      | false => exact processWireGuardPacket_eq hpk ..
    unfold after
    rw [hrun]

end Session

end Tailgate
