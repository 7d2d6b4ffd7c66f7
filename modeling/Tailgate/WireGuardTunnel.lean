import Tailgate.BigEndian
import Tailgate.Procedures
import Tailgate.ReplayWindow

/-!
# The WireGuard tunnel

A tunnel holds, for each peer, the keypairs of its sessions and the windows
against replays. The handshake, the rotation of the keypairs and the ciphers are
a library's; what it keeps of keypairs is written out here as it documents it,
and what it makes of a message is an answer, in `Library`.

Times are milliseconds in 32 bits, and a call sees one time. The loop of the
window has a number of turns, and beyond them the procedure ends in `unending`.
-/

namespace Tailgate

open Procedure
open List hiding getElem?_eq_some_iff

def littleEndian (bytes : Bytes) : ℕ := BigEndian.value bytes.reverse

def littleEndianBytes (size value : ℕ) : Bytes := (BigEndian.bytes size value).reverse

namespace WireGuard

/-! ## The library -/

def rejectAfterTime : UInt32 := 180

def rekeyAfterTime : UInt32 := 120

def rekeyTimeout : UInt32 := 5

def rejectAfterMessages : ℕ := 2 ^ 64 - 1 - 2 ^ 13

def rekeyAfterMessages : ℕ := 2 ^ 60

def authtagLength : ℕ := 16

def transportHeaderSize : ℕ := 16

def expired (now created seconds : UInt32) : Bool := seconds * 1000 ≤ now - created

inductive MessageType
  | invalid
  | handshakeInitiation
  | handshakeResponse
  | cookieReply
  | transportData
  deriving DecidableEq

def getMessageType (packet : Bytes) : MessageType :=
  if packet.take 4 = [1, 0, 0, 0] ∧ packet.length = 148 then .handshakeInitiation
  else if packet.take 4 = [2, 0, 0, 0] ∧ packet.length = 92 then .handshakeResponse
  else if packet.take 4 = [3, 0, 0, 0] ∧ packet.length = 64 then .cookieReply
  else if packet.take 4 = [4, 0, 0, 0] ∧ transportHeaderSize + authtagLength ≤ packet.length then
    .transportData
  else .invalid

/-- The keys of one session. -/
structure Keypair where
  valid : Bool := false
  initiator : Bool := false
  keypairMillis : UInt32 := 0
  localIndex : UInt32 := 0
  remoteIndex : UInt32 := 0
  sendingKey : Bytes := []
  sendingCounter : ℕ := 0
  receivingKey : Bytes := []
  receivingValid : Bool := false
  lastTx : UInt32 := 0
  lastRx : UInt32 := 0

/-- What tells sessions apart: what the peer calls it, and when it started. -/
abbrev SessionId := UInt32 × UInt32

def Keypair.id (k : Keypair) : SessionId := (k.localIndex, k.keypairMillis)

structure Session where
  localIndex : UInt32 := 0
  remoteIndex : UInt32 := 0
  sendingKey : Bytes := []
  receivingKey : Bytes := []

/-- A peer as the library keeps it. -/
structure Peer where
  currKeypair : Keypair := {}
  prevKeypair : Keypair := {}
  /-- The one of a session the peer has initiated and not used yet. -/
  nextKeypair : Keypair := {}
  active : Bool := false
  sendHandshake : Bool := false
  lastInitiationTx : UInt32 := 0
  lastTx : UInt32 := 0
  lastRx : UInt32 := 0
  /-- After how many seconds without sending the peer is told that this side is
  still there. -/
  keepaliveInterval : UInt32 := 10

inductive Slot
  | curr
  | next
  | prev
  deriving DecidableEq

namespace Peer

variable (p : Peer)

def keypair : Slot → Keypair
  | .curr => p.currKeypair
  | .next => p.nextKeypair
  | .prev => p.prevKeypair

def setKeypair (slot : Slot) (k : Keypair) : Peer :=
  match slot with
  | .curr => { p with currKeypair := k }
  | .next => { p with nextKeypair := k }
  | .prev => { p with prevKeypair := k }

def getKeypairForIdx (index : UInt32) : Option Slot :=
  if p.currKeypair.valid ∧ p.currKeypair.localIndex = index then some .curr
  else if p.nextKeypair.valid ∧ p.nextKeypair.localIndex = index then some .next
  else if p.prevKeypair.valid ∧ p.prevKeypair.localIndex = index then some .prev
  else none

/-- A new keypair: one of a session this side has initiated is used at once,
and one of a session the peer has initiated once the peer uses it. -/
def addNewKeypair (k : Keypair) : Peer :=
  if k.initiator then
    { p with
      prevKeypair := if p.nextKeypair.valid then p.nextKeypair else p.currKeypair
      nextKeypair := if p.nextKeypair.valid then {} else p.nextKeypair
      currKeypair := k }
  else
    { p with nextKeypair := k, prevKeypair := {} }

def startSession (now : UInt32) (initiator : Bool) (session : Session) (p : Peer) : Peer :=
  p.addNewKeypair {
    valid := true
    initiator
    keypairMillis := now
    localIndex := session.localIndex
    remoteIndex := session.remoteIndex
    sendingKey := session.sendingKey
    receivingKey := session.receivingKey
    receivingValid := true }

def keypairUpdate : Slot → Peer
  | .next =>
    { p with prevKeypair := p.currKeypair, currKeypair := p.nextKeypair, nextKeypair := {} }
  | _ => p

end Peer

/-- **What the library answers**, at one call. -/
structure Library where
  /-- Whether a message initiates a handshake of the peer, and if so the
  session and the response, unless there can be none. -/
  initiation : ℕ → Bytes → Option (Option (Session × Bytes))
  response : ℕ → Bytes → Option Session
  cookie : ℕ → Bytes → Bool
  createInitiation : ℕ → Option Bytes
  initPeer : Bytes → Bool
  encrypt : Bytes → ℕ → Bytes → Bytes
  decrypt : Bytes → ℕ → Bytes → Option Bytes

end WireGuard

open WireGuard

/-! ## Windows against replays -/

/-- The window of a session. -/
structure SessionReplay where
  localIndex : UInt32 := 0
  startedAt : UInt32 := 0
  window : ReplayWindow := {}

namespace SessionReplay

variable (keypair : Keypair)

def isFor (s : SessionReplay) : Bool :=
  s.localIndex == keypair.localIndex && s.startedAt == keypair.keypairMillis

def fresh : SessionReplay where
  localIndex := keypair.localIndex
  startedAt := keypair.keypairMillis

def maximumRetainedSessions : ℕ := 3

/-- See that there is a window for a keypair; the one that was added first
makes room for it. -/
def replayFor (sessions : List SessionReplay) : List SessionReplay :=
  if sessions.any (isFor keypair) then sessions
  else
    (if sessions.length = maximumRetainedSessions then sessions.drop 1 else sessions) ++
      [fresh keypair]

def acceptIn (turns : ℕ) (keypair : Keypair) (counter : ℕ) :
    List SessionReplay → Option (Bool × List SessionReplay)
  | [] => some (false, [])
  | s :: sessions =>
    if s.isFor keypair then do
      let (accepted, window) ← s.window.accept turns counter
      some (accepted, { s with window } :: sessions)
    else do
      let (accepted, sessions) ← acceptIn turns keypair counter sessions
      some (accepted, s :: sessions)

end SessionReplay

/-! ## One peer -/

inductive TunnelError
  | invalidPeer
  | noSession
  | noHandshake
  | peerInit
  /-- A loop has not ended in the given number of turns. -/
  | unending
  deriving DecidableEq

structure ReceivedPacket where
  peer : ℕ
  plaintext : Bytes := []
  reply : Bytes := []
  sessionEstablished : Bool := false

inductive TimerAction
  | none
  | sendHandshake
  | sendKeepalive
  deriving DecidableEq

/-- **A peer of the tunnel**, with its windows. -/
structure PeerReference where
  peer : Peer := {}
  replaySessions : List SessionReplay := []
  /-- The sessions that have started. The program does not keep this. -/
  started : List SessionId := []
  /-- The counters that have been accepted, and in which session. The program
  does not keep this. -/
  accepted : List (SessionId × ℕ) := []

namespace PeerReference

abbrev Peering := EStateM TunnelError PeerReference

def modifyPeer (f : Peer → Peer) : Peering Unit := modify fun r => { r with peer := f r.peer }

/-- Which keypair is sent with: not one of a session the peer has initiated
and not used yet. -/
def findSendingKeypair (now : UInt32) (peer : Peer) : Option Slot :=
  let slot : Slot :=
    if peer.currKeypair.valid && !peer.currKeypair.initiator && peer.currKeypair.lastRx == 0 then
      .prev
    else
      .curr
  let keypair := peer.keypair slot
  if !keypair.valid || (!keypair.initiator && keypair.lastRx == 0) ||
      expired now keypair.keypairMillis rejectAfterTime ||
      decide (rejectAfterMessages ≤ keypair.sendingCounter) then
    none
  else
    some slot

def hasSession (now : UInt32) (r : PeerReference) : Bool :=
  (findSendingKeypair now r.peer).isSome

def padded (plaintext : Bytes) : Bytes :=
  plaintext ++ replicate ((plaintext.length + 15) / 16 * 16 - plaintext.length) 0

def sent (now : UInt32) (slot : Slot) (peer : Peer) : Peer :=
  let keypair := peer.keypair slot
  let keypair := { keypair with sendingCounter := keypair.sendingCounter + 1, lastTx := now }
  { peer.setKeypair slot keypair with
    lastTx := now
    sendHandshake := peer.sendHandshake || (decide (rekeyAfterMessages ≤ keypair.sendingCounter) ||
        keypair.initiator && expired now keypair.keypairMillis rekeyAfterTime) }

variable (lib : Library) (now : UInt32)

/-- **Encrypt a packet.** -/
def encrypt (plaintext : Bytes) : Peering Bytes := do
  let r ← get
  match findSendingKeypair now r.peer with
  | none => throw .noSession
  | some slot => do
    let keypair := r.peer.keypair slot
    modifyPeer (sent now slot)
    pure ([4, 0, 0, 0] ++ littleEndianBytes 4 keypair.remoteIndex.toNat ++
      littleEndianBytes 8 keypair.sendingCounter ++
      lib.encrypt keypair.sendingKey keypair.sendingCounter (padded plaintext))

def createHandshake (id : ℕ) : Peering Bytes := do
  match lib.createInitiation id with
  | none => throw .noHandshake
  | some message => do
    modifyPeer fun peer => { peer with sendHandshake := false, lastInitiationTx := now }
    pure message

def dropUsedUp (peer : Peer) : Peer :=
  if peer.currKeypair.valid && (expired now peer.currKeypair.keypairMillis rejectAfterTime ||
      decide (rejectAfterMessages ≤ peer.currKeypair.sendingCounter)) then
    { peer with currKeypair := {} }
  else
    peer

def timerAction (peer : Peer) : TimerAction :=
  let hasUsableSession := (findSendingKeypair now peer).isSome
  let handshakeNeeded := peer.sendHandshake || (!hasUsableSession && peer.active) ||
    (peer.currKeypair.valid && !peer.currKeypair.initiator &&
      expired now peer.currKeypair.keypairMillis (rejectAfterTime - peer.keepaliveInterval))
  let initiationAllowed :=
    peer.lastInitiationTx == 0 || expired now peer.lastInitiationTx rekeyTimeout
  if handshakeNeeded && initiationAllowed then .sendHandshake
  else if decide (0 < peer.keepaliveInterval) && hasUsableSession &&
      expired now peer.lastTx peer.keepaliveInterval then
    .sendKeepalive
  else
    .none

/-- **Look after the time.** -/
def updateTimers : Peering TimerAction := do
  modifyPeer (dropUsedUp now)
  let r ← get
  pure (timerAction now r.peer)

/-! ### Receiving -/

def receiver (packet : Bytes) : UInt32 :=
  UInt32.ofNat (littleEndian ((packet.drop 4).take 4))

def readCounter (packet : Bytes) : ℕ := littleEndian ((packet.drop 8).take 8)

def decryptTransport (keypair : Keypair) (packet : Bytes) : Option Bytes :=
  let encrypted := packet.drop transportHeaderSize
  (lib.decrypt keypair.receivingKey (readCounter packet) encrypted).filter fun plaintext =>
    plaintext.length + authtagLength == encrypted.length

def acceptCounter (turns : ℕ) (keypair : Keypair) (counter : ℕ) : Peering Bool := fun r =>
  match SessionReplay.acceptIn turns keypair counter
      (SessionReplay.replayFor keypair r.replaySessions) with
  | none => .error .unending r
  | some (accepted, replaySessions) =>
    .ok accepted { r with
      replaySessions
      accepted := if accepted then r.accepted ++ [(keypair.id, counter)] else r.accepted }

def received (slot : Slot) (peer : Peer) : Peer :=
  let peer := peer.setKeypair slot { peer.keypair slot with lastRx := now }
  let peer := { peer with lastRx := now }.keypairUpdate slot
  let keypair := peer.keypair slot
  { peer with
    sendHandshake := peer.sendHandshake || keypair.initiator && expired now keypair.keypairMillis
      (rejectAfterTime - peer.keepaliveInterval - rekeyTimeout) }

def innerLength (plaintext : Bytes) : ℕ :=
  if 4 ≤ plaintext.length ∧ (plaintext.getD 0 0).toNat / 16 = 4 then
    (plaintext.getD 2 0).toNat * 256 + (plaintext.getD 3 0).toNat
  else if 6 ≤ plaintext.length ∧ (plaintext.getD 0 0).toNat / 16 = 6 then
    40 + (plaintext.getD 4 0).toNat * 256 + (plaintext.getD 5 0).toNat
  else
    plaintext.length

def innerPacket (id : ℕ) (plaintext : Bytes) : Option ReceivedPacket :=
  if plaintext.length < innerLength plaintext then none
  else some { peer := id, plaintext := plaintext.take (innerLength plaintext) }

/-- **Receive an encrypted packet.** -/
def receiveTransport (lib : Library) (turns : ℕ) (now : UInt32) (id : ℕ) (packet : Bytes) :
    Peering (Option ReceivedPacket) := do
  let r ← get
  match r.peer.getKeypairForIdx (receiver packet) with
  | none => pure none
  | some slot =>
    let keypair := r.peer.keypair slot
    if keypair.receivingValid = false ∨
        expired now keypair.keypairMillis rejectAfterTime = true then
      pure none
    else
      match decryptTransport lib keypair packet with
      | none => pure none
      | some plaintext => do
        if ← acceptCounter turns keypair (readCounter packet) then do
          modifyPeer (received now slot)
          pure (innerPacket id plaintext)
        else
          pure none

def startSession (initiator : Bool) (session : Session) : Peering Unit :=
  modify fun r => { r with
    peer := r.peer.startSession now initiator session
    started := r.started ++ [(session.localIndex, now)] }

def respond (id : ℕ) (session : Session) (response : Bytes) :
    Peering (Option ReceivedPacket) := do
  startSession now false session
  pure (some { peer := id, reply := response, sessionEstablished := true })

def confirm (id : ℕ) (session : Session) : Peering (Option ReceivedPacket) := do
  startSession now true session
  let confirmation ← encrypt lib now []
  pure (some { peer := id, reply := confirmation, sessionEstablished := true })

/-- **Receive a packet of any kind.** -/
def processPacket (lib : Library) (turns : ℕ) (now : UInt32) (id : ℕ) (packet : Bytes) :
    Peering (Option ReceivedPacket) :=
  match getMessageType packet with
  | .handshakeInitiation =>
    match lib.initiation id packet with
    | some (some (session, response)) => respond now id session response
    | _ => pure none
  | .handshakeResponse =>
    match lib.response id packet with
    | some session => confirm lib now id session
    | none => pure none
  | .cookieReply => do
    modifyPeer fun peer =>
      { peer with sendHandshake := peer.sendHandshake || lib.cookie id packet }
    pure none
  | .transportData => receiveTransport lib turns now id packet
  | .invalid => pure none

end PeerReference

/-! ## All peers -/

/-- **The tunnel.** -/
structure WireGuardTunnel where
  peers : List PeerReference := []

namespace WireGuardTunnel

open PeerReference

abbrev Tunneling := EStateM TunnelError WireGuardTunnel

def atPeer {α : Type} (id : ℕ) (x : Peering α) : Tunneling α := fun t =>
  match t.peers[id]? with
  | none => .error .invalidPeer t
  | some r =>
    match x r with
    | .ok a r' => .ok a { t with peers := t.peers.set id r' }
    | .error e r' => .error e { t with peers := t.peers.set id r' }

/-- What has been done to one peer has been done to no other, and `S` is true
of it. -/
structure Touches (id : ℕ) (S : PeerReference → Prop) (t t' : WireGuardTunnel) : Prop where
  length_eq : t'.peers.length = t.peers.length
  others : ∀ i, i ≠ id → t'.peers[i]? = t.peers[i]?
  this : ∀ r, t'.peers[id]? = some r → S r

variable {t : WireGuardTunnel}

theorem Touches.forall {id : ℕ} {S : PeerReference → Prop} {t' : WireGuardTunnel}
    (h : Touches id S t t') {R : ℕ → PeerReference → Prop}
    (hR : ∀ i r, t.peers[i]? = some r → R i r) (hS : ∀ r, S r → R id r) :
    ∀ i r, t'.peers[i]? = some r → R i r := by
  intro i r hr
  by_cases hi : i = id
  · subst hi
    exact hS r (h.this r hr)
  · exact hR i r (h.others i hi ▸ hr)

/-- **What is done to one peer** is done to no other. -/
theorem meets_atPeer {α : Type} {id : ℕ} {x : Peering α}
    {P : PeerReference → Prop} {Q : α → PeerReference → Prop}
    {E : TunnelError → PeerReference → Prop} (hx : Meets P x Q E)
    (hP : ∀ r, t.peers[id]? = some r → P r) :
    Meets (· = t) (atPeer id x) (fun a => Touches id (Q a) t) (fun e => Touches id (E e) t) := by
  intro s hs
  rw [show s = t from hs]
  unfold atPeer
  cases hpr : t.peers[id]? with
  | none => exact ⟨rfl, fun _ _ => rfl, fun r hr => nomatch hpr.symm.trans hr⟩
  | some r =>
    have htc {S : PeerReference → Prop} (r' : PeerReference) (hr' : S r') :
        Touches id S t { t with peers := t.peers.set id r' } := by
      refine ⟨length_set, fun i hi => getElem?_set_ne hi.symm, fun s hs => ?_⟩
      rw [getElem?_set_self (getElem?_eq_some_iff.mp hpr).1] at hs
      exact Option.some.inj hs ▸ hr'
    have hrun := hx r (hP r hpr)
    dsimp only
    cases hxr : x r with
    | error _ r' | ok _ r' =>
      rw [hxr] at hrun
      exact htc r' hrun

def addPeer (lib : Library) (publicKey : Bytes) : Tunneling ℕ := do
  let t ← get
  if lib.initPeer publicKey then do
    modify fun t => { t with peers := t.peers ++ [{}] }
    pure t.peers.length
  else
    throw .peerInit

theorem meets_addPeer {lib : Library} {publicKey : Bytes} :
    Meets (· = t) (addPeer lib publicKey)
      (fun id t' => id = t.peers.length ∧ t' = { t with peers := t.peers ++ [{}] })
      (fun _ t' => t' = t) := by
  refine .look fun s hs => ?_
  rw [show s = t from hs]
  refine .ite (fun _ => ?_) fun _ => .throw fun _ hs => hs
  refine .bind (.modify fun s' (hs : s' = t) => hs ▸ rfl) fun _ =>
    Meets.pure fun s' hs => ⟨rfl, hs⟩

def activatePeer (id : ℕ) : Tunneling Unit :=
  atPeer id (modifyPeer fun peer => { peer with active := true })

def findInitiator (lib : Library) (now : UInt32) (packet : Bytes) :
    List ℕ → Tunneling (Option ReceivedPacket)
  | [] => pure none
  | id :: ids =>
    match lib.initiation id packet with
    | none => findInitiator lib now packet ids
    | some none => pure none
    | some (some (session, response)) => atPeer id (respond now id session response)

def findSource (lib : Library) (turns : ℕ) (now : UInt32) (packet : Bytes) :
    List ℕ → Tunneling (Option ReceivedPacket)
  | [] => pure none
  | id :: ids => do
    match ← atPeer id (processPacket lib turns now id packet) with
    | some result => pure (some result)
    | none => findSource lib turns now packet ids

/-- **Receive a packet from anyone.** -/
def processAny (lib : Library) (turns : ℕ) (now : UInt32) (packet : Bytes) :
    Tunneling (Option ReceivedPacket) := do
  let t ← get
  if getMessageType packet = .handshakeInitiation then
    findInitiator lib now packet (range t.peers.length)
  else
    findSource lib turns now packet (range t.peers.length)

end WireGuardTunnel

/-! ## A library that hides nothing -/

namespace WireGuard

def plainTag : Bytes := replicate authtagLength 0

/-- A library that takes every message for what it says it is: handshakes name
the session in the byte after the kind, and the ciphers only put a tag in
front. -/
def plain : Library where
  initiation _ packet := some (some ({ localIndex := (packet.getD 4 0).toUInt32 }, [2]))
  response _ packet := some { localIndex := (packet.getD 4 0).toUInt32 }
  cookie _ _ := true
  createInitiation _ := some [1]
  initPeer _ := true
  encrypt _ _ plaintext := plainTag ++ plaintext
  decrypt _ _ encrypted := some (encrypted.drop authtagLength)

def plainInitiation (index : UInt8) : Bytes := [1, 0, 0, 0, index] ++ replicate 143 0

def plainResponse (index : UInt8) : Bytes := [2, 0, 0, 0, index] ++ replicate 87 0

def plainTransport (index : UInt8) (counter : ℕ) (plaintext : Bytes) : Bytes :=
  [4, 0, 0, 0, index, 0, 0, 0] ++ littleEndianBytes 8 counter ++ plainTag ++ plaintext

end WireGuard

end Tailgate
