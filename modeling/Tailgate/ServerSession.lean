import Tailgate.Ipv4Packets
import Tailgate.RelayCodec

/-!
# The session of a node at its relay

A relay lets a node in by steps: challenge, authentication, visibility in the
tailnet, first network map. A session is to become active for the node that has
proved who it is, and to keep the map of that node. The clock, in nanoseconds,
and what is drawn at random are arguments.
-/

namespace Tailgate

open Procedure ProtocolCodec

def milliseconds : ℕ := 10 ^ 6

def minimumPumpInterval : ℕ := 5 * milliseconds

/-- How far a node has been let in. -/
inductive SessionState where
  | created
  | challengeSent
  | authenticationEvaluated
  | authenticated
  | active
  | rejected
  deriving DecidableEq

/-- Why a session throws. -/
inductive ServerSessionError where
  | invalidState
  | unexpectedFrame
  | networkMapIdentityChanged
  | invalidTailnetDnsQuery

inductive SessionFault where
  | session (error : ServerSessionError)
  | pump (error : PumpError)
  | decoding (error : RelayError)

structure ServerSessionOptions where
  expectedTailnet : String := ""
  relayHostName : String := ""
  relayHostAddress : String := ""
  relayPrivateKey : Bytes := .replicate 32 0
  relayPublicKey : Bytes := .replicate 32 0

structure ServerAuthenticationResult where
  identity : Authentication
  proofValid : Bool
  tailnetMatches : Bool

structure ServerDerpChallenge where
  requestId : ℕ
  output : Frame

structure ServerSessionProcessResult where
  peerPacketPayload : Option Bytes := none
  verifiedPeerEndpoint : Option PeerEndpoint := none
  networkMap : Option NetworkConfig := none
  derpResponse : Option DerpAuthenticationResponse := none
  delegation : Option DelegationRequest := none
  remoteOutput : List Frame := []
  dnsName : Option Bytes := none
  clientReady : Bool := false
  shutdown : Bool := false
  pumpScheduleChanged : Bool := false

def Authentication.nodeKey (authentication : Authentication) : String :=
  "nodekey:" ++ bytesToHex authentication.nodePublicKey

/-- **A network map is the one of the node** that has authenticated. -/
def Authentication.Identifies (authentication : Authentication) (config : NetworkConfig) : Prop :=
  config.domain = authentication.tailnet ∧ config.selfNodeId = authentication.nodeId ∧
    config.selfKey = authentication.nodeKey

instance (authentication : Authentication) (config : NetworkConfig) :
    Decidable (authentication.Identifies config) := by
  unfold Authentication.Identifies
  infer_instance

/-- **The session of a node.** -/
structure ServerSession where
  options : ServerSessionOptions
  pumpDeadline : Option ℕ := none
  lastPump : Option ℕ := none
  pumpRequestId : ℕ := 0
  serverNonce : Bytes := .replicate 32 0
  authentication : Option Authentication := none
  networkMap : NetworkConfig := {}
  /-- The number of the next challenge for a DERP server. -/
  nextDerpRequestId : ℕ := 1
  state : SessionState := .created
  proofValid : Bool := false
  tailnetMatches : Bool := false

abbrev SessionM := EStateM SessionFault ServerSession

namespace ServerSession

def requireState {α : Type} (expected : SessionState) (body : SessionM α) : SessionM α := fun s =>
  if s.state ≠ expected then .error (.session .invalidState) s else body s

def identity (s : ServerSession) : Authentication := s.authentication.getD {}

variable (lib : RelayLibrary)

def startAuthentication (nonce : Bytes) : SessionM Frame :=
  requireState .created fun s =>
    .ok { type := .serverChallenge
          payload := encodeChallenge lib s.options.relayPublicKey nonce }
      { s with serverNonce := nonce, state := .challengeSent }

/-- **Evaluate how a node authenticates.** -/
def evaluateAuthentication (frame : Frame) : SessionM ServerAuthenticationResult :=
  requireState .challengeSent fun s =>
    if frame.type ≠ .authenticate then
      .error (.session .unexpectedFrame) s
    else
      match decodeAuthentication lib frame.payload with
      | .error error => .error (.decoding error) s
      | .ok authentication =>
        let expectedProof := createClientProof lib s.options.relayPrivateKey
          authentication.nodePublicKey s.serverNonce authentication.clientNonce
        let proofValid := expectedProof == authentication.clientProof
        let tailnetMatches := authentication.tailnet == s.options.expectedTailnet
        .ok { identity := authentication, proofValid, tailnetMatches }
          { s with
            authentication := some authentication
            proofValid
            tailnetMatches
            state := .authenticationEvaluated }

def rejectionReason : String := "node authentication or tailnet visibility check failed"

/-- **Let a node in**, or do not. -/
def completeAuthentication (nodeVisible : Bool) : SessionM Frame :=
  requireState .authenticationEvaluated fun s =>
    if !s.proofValid || !s.tailnetMatches || !nodeVisible then
      -- Which of the three has failed is not told.
      .ok { type := .rejected, payload := encodeRejection lib rejectionReason }
        { s with state := .rejected }
    else
      let serverProof := createServerProof lib s.options.relayPrivateKey
        s.identity.nodePublicKey s.serverNonce s.identity.clientNonce
      .ok { type := .authenticated
            payload := encodeSession lib s.identity.tailnet s.options.relayHostName
              s.options.relayHostAddress serverProof }
        { s with state := .authenticated }

def validateNetworkMap (s : ServerSession) (candidate : NetworkConfig) : Bool :=
  decide (s.identity.Identifies candidate)

/-- **Take the first network map.** -/
def acceptInitialNetworkMap (frame : Frame) : SessionM NetworkConfig :=
  requireState .authenticated fun s =>
    if frame.type ≠ .networkMap then
      .error (.session .unexpectedFrame) s
    else
      match decodeNetworkConfig lib frame.payload with
      | .error error => .error (.decoding error) s
      | .ok config =>
        if !s.validateNetworkMap config then
          .error (.session .networkMapIdentityChanged) s
        else
          .ok config { s with networkMap := config, state := .active }

def updateNetworkMap (payload : Bytes) :
    SessionM ServerSessionProcessResult := fun s =>
  match decodeNetworkConfig lib payload with
  | .error error => .error (.decoding error) s
  | .ok next =>
    if !s.validateNetworkMap next then
      .error (.session .networkMapIdentityChanged) s
    else
      .ok { networkMap := some next } { s with networkMap := next }

def answerTailnetDns (payload : Bytes) :
    SessionM ServerSessionProcessResult := fun s =>
  match Ipv4Address.tryParse s.networkMap.selfAddress, Ipv4UdpDatagram.parse payload with
  | some expectedSource, some query =>
    if query.source ≠ expectedSource then
      .error (.session .invalidTailnetDnsQuery) s
    else
      match lib.tailnetDnsResponse s.networkMap payload with
      | none => .error (.session .invalidTailnetDnsQuery) s
      | some response =>
        .ok {
          dnsName := DnsQuery.name query.payload
          remoteOutput := [{ type := .tailnetDnsResponse, payload := response }] } s
  | _, _ => .error (.session .invalidTailnetDnsQuery) s

def spaced (lastPump : Option ℕ) (deadline : ℕ) : ℕ :=
  match lastPump with
  | none => deadline
  | some last =>
    if deadline < last + minimumPumpInterval then last + minimumPumpInterval else deadline

/-- **Take note of when the node wants to be called**, unless it has said so
before it said what is known. -/
def acceptPump (schedule : PumpSchedule) (now : ℕ) (s : ServerSession) : Bool × ServerSession :=
  if schedule.requestId ≤ s.pumpRequestId then
    -- A request from before the one that is known does not replace it.
    (false, s)
  else
    (true, { s with
      pumpRequestId := schedule.requestId
      pumpDeadline :=
        (schedule.delay.map fun delay => now + delay * milliseconds).map (spaced s.lastPump) })

def processFrame (frame : Frame) (now : ℕ) :
    SessionM ServerSessionProcessResult := fun s =>
  match frame.type with
  | .clientPacket => .ok { peerPacketPayload := some frame.payload } s
  | .peerEndpoint =>
    match decodePeerEndpoint frame.payload with
    | .error error => .error (.decoding error) s
    | .ok endpoint => .ok { verifiedPeerEndpoint := some endpoint } s
  | .networkMap => updateNetworkMap lib frame.payload s
  | .delegation =>
    match decodeDelegationRequest frame with
    | none => .error (.session .unexpectedFrame) s
    | some request => .ok { delegation := some request } s
  | .tailnetDnsQuery => answerTailnetDns lib frame.payload s
  | .derpResponse =>
    match decodeDerpResponse frame.payload with
    | .error error => .error (.decoding error) s
    | .ok response => .ok { derpResponse := some response } s
  | .heartbeat => .ok { clientReady := true } s
  | .pumpSchedule =>
    match tryDecodePumpSchedule frame.payload with
    | none => .error (.pump .invalidMessage) s
    | some schedule =>
      let (pumpScheduleChanged, s') := s.acceptPump schedule now
      .ok { pumpScheduleChanged } s'
  | .shutdown => .ok { shutdown := true } s
  | _ => .ok {} s

/-- **Process a frame of the node.** -/
def process (frame : Frame) (now : ℕ) : SessionM ServerSessionProcessResult :=
  requireState .active (processFrame lib frame now)

def buildDerpChallenge (serverKey : Bytes) : SessionM ServerDerpChallenge :=
  requireState .active fun s =>
    let requestId := s.nextDerpRequestId
    .ok {
        requestId
        output :=
          { type := .derpChallenge
            payload := encodeDerpChallenge requestId serverKey } }
      { s with nextDerpRequestId := (requestId + 1) % 2 ^ 64 }

def buildHeartbeat : SessionM Frame :=
  requireState .active fun s => .ok { type := .heartbeat, payload := [] } s

def buildServerPacket (peerPacketPayload : Bytes) : SessionM Frame :=
  requireState .active fun s => .ok { type := .serverPacket, payload := peerPacketPayload } s

def nextPumpDeadline : SessionM (Option ℕ) :=
  requireState .active fun s => .ok s.pumpDeadline s

/-- **Call the node if it is time.** The clock is read again for when this
was. -/
def takeDuePump (now later : ℕ) : SessionM (Option Frame) :=
  requireState .active fun s =>
    match s.pumpDeadline with
    | none => .ok none s
    | some deadline =>
      if now < deadline then
        .ok none s
      else
        -- The deadline is gone by the time the frame is encoded.
        let s' := { s with pumpDeadline := none, lastPump := some later }
        match encodePumpReply s.pumpRequestId with
        | .error error => .error (.pump error) s'
        | .ok frame => .ok (some frame) s'

/-! ## Runs of calls -/

inductive Call where
  | startAuthentication (nonce : Bytes)
  | evaluateAuthentication (frame : Frame)
  | completeAuthentication (nodeVisible : Bool)
  | acceptInitialNetworkMap (frame : Frame)
  | process (frame : Frame) (now : ℕ)
  | buildDerpChallenge (serverKey : Bytes)
  | buildHeartbeat
  | buildServerPacket (payload : Bytes)
  | nextPumpDeadline
  | takeDuePump (now later : ℕ)

inductive Returned where
  | frame (frame : Frame)
  | evaluated (result : ServerAuthenticationResult)
  | config (config : NetworkConfig)
  | processed (result : ServerSessionProcessResult)
  | derpChallenge (challenge : ServerDerpChallenge)
  | deadline (deadline : Option ℕ)
  | pump (frame : Option Frame)

def Call.run (lib : RelayLibrary) : Call → SessionM Returned
  | .startAuthentication nonce => .frame <$> ServerSession.startAuthentication lib nonce
  | .evaluateAuthentication frame => .evaluated <$> ServerSession.evaluateAuthentication lib frame
  | .completeAuthentication visible => .frame <$> ServerSession.completeAuthentication lib visible
  | .acceptInitialNetworkMap frame => .config <$> ServerSession.acceptInitialNetworkMap lib frame
  | .process frame now => .processed <$> ServerSession.process lib frame now
  | .buildDerpChallenge serverKey => .derpChallenge <$> ServerSession.buildDerpChallenge serverKey
  | .buildHeartbeat => .frame <$> ServerSession.buildHeartbeat
  | .buildServerPacket payload => .frame <$> ServerSession.buildServerPacket payload
  | .nextPumpDeadline => .deadline <$> ServerSession.nextPumpDeadline
  | .takeDuePump now later => .pump <$> ServerSession.takeDuePump now later

def Call.expected : Call → SessionState
  | .startAuthentication _ => .created
  | .evaluateAuthentication _ => .challengeSent
  | .completeAuthentication _ => .authenticationEvaluated
  | .acceptInitialNetworkMap _ => .authenticated
  | _ => .active

structure Event where
  call : Call
  outcome : Except SessionFault Returned

/-- **The runs of a session**: any calls, with whatever comes of them. -/
def calls (lib : RelayLibrary) (options : ServerSessionOptions) :
    TransitionSystem ServerSession Event where
  init s := s = { options }
  step s event s' :=
    event.outcome = outcome (event.call.run lib) s ∧ s' = after (event.call.run lib) s

/-! ## What a call may do -/

variable {α : Type} {expected : SessionState} {config : NetworkConfig} {body : SessionM α}
  {s : ServerSession}

theorem requireState_of_ne (h : s.state ≠ expected) :
    requireState expected body s = .error (.session .invalidState) s := if_pos h

theorem requireState_of_eq (h : s.state = expected) : requireState expected body s = body s :=
  if_neg (not_not.mpr h)

/-- **A call that is for another state throws**, and leaves the session as it
is. -/
theorem run_of_state_ne {call : Call}
    (h : s.state ≠ call.expected) : call.run lib s = .error (.session .invalidState) s := by
  cases call <;> exact map_error (requireState_of_ne h)

theorem acceptInitialNetworkMap_of_not_identifies
    {frame : Frame} (hsta : s.state = .authenticated) (hfr : frame.type = .networkMap)
    (hcf : decodeNetworkConfig lib frame.payload = .ok config)
    (hot : ¬s.identity.Identifies config) :
    acceptInitialNetworkMap lib frame s = .error (.session .networkMapIdentityChanged) s := by
  refine (requireState_of_eq hsta).trans ?_
  rw [if_neg (not_not.mpr hfr), hcf]
  unfold validateNetworkMap
  dsimp only
  rw [decide_eq_false hot]
  rfl

theorem process_of_not_identifies {frame : Frame}
    {now : ℕ} (hsta : s.state = .active) (hfr : frame.type = .networkMap)
    (hcf : decodeNetworkConfig lib frame.payload = .ok config)
    (hot : ¬s.identity.Identifies config) :
    process lib frame now s = .error (.session .networkMapIdentityChanged) s := by
  refine (requireState_of_eq hsta).trans ?_
  unfold processFrame
  rw [hfr]
  unfold updateNetworkMap validateNetworkMap
  rw [hcf]
  dsimp only
  rw [decide_eq_false hot]
  rfl

/-- What no call of an active session changes, and the network map, which stays
the one of the node. -/
structure Kept (s s' : ServerSession) : Prop where
  state : s'.state = s.state
  options : s'.options = s.options
  /-- What was drawn for the challenge. -/
  serverNonce : s'.serverNonce = s.serverNonce
  /-- How the node has authenticated. -/
  authentication : s'.authentication = s.authentication
  /-- Whether it has proved who it is. -/
  proofValid : s'.proofValid = s.proofValid
  /-- Whether it is of the relay's tailnet. -/
  tailnetMatches : s'.tailnetMatches = s.tailnetMatches
  networkMap : s'.networkMap = s.networkMap ∨ s.identity.Identifies s'.networkMap

theorem Kept.refl (s : ServerSession) : s.Kept s := ⟨rfl, rfl, rfl, rfl, rfl, rfl, .inl rfl⟩

theorem kept_requireState (h : s.Kept (after body s)) :
    s.Kept (after (requireState expected body) s) := by
  unfold after
  by_cases hsta : s.state = expected
  · rw [requireState_of_eq hsta]
    exact h
  · rw [requireState_of_ne hsta]
    exact .refl s

theorem kept_updateNetworkMap (payload : Bytes) (s : ServerSession) :
    s.Kept (after (updateNetworkMap lib payload) s) := by
  unfold after updateNetworkMap
  cases decodeNetworkConfig lib payload with
  | error => exact .refl s
  | ok next =>
    dsimp only
    by_cases hvd : s.validateNetworkMap next = true
    · rw [hvd]
      exact ⟨rfl, rfl, rfl, rfl, rfl, rfl, .inr (of_decide_eq_true hvd)⟩
    · rw [Bool.not_eq_true] at hvd
      rw [hvd]
      exact .refl s

theorem kept_answerTailnetDns (pl : Bytes) (s : ServerSession) :
    s.Kept (after (answerTailnetDns lib pl) s) := by
  unfold after answerTailnetDns
  cases Ipv4Address.tryParse s.networkMap.selfAddress with
  | none => exact .refl s
  | some expectedSource =>
    cases Ipv4UdpDatagram.parse pl with
    | none => exact .refl s
    | some qry =>
      dsimp only
      by_cases hsr : qry.source = expectedSource
      · rw [if_neg (not_not.mpr hsr)]
        cases lib.tailnetDnsResponse s.networkMap pl <;> exact .refl s
      · rw [if_pos hsr]
        exact .refl s

theorem kept_acceptPump (sched : PumpSchedule) (now : ℕ) (s : ServerSession) :
    s.Kept (s.acceptPump sched now).2 := by
  unfold acceptPump
  split_ifs
  · exact .refl s
  · exact ⟨rfl, rfl, rfl, rfl, rfl, rfl, .inl rfl⟩

/-- **Processing a frame keeps who the node is.** -/
theorem kept_processFrame (frame : Frame) (now : ℕ) (s : ServerSession) :
    s.Kept (after (processFrame lib frame now) s) := by
  unfold after processFrame
  cases frame.type with
  | networkMap => exact kept_updateNetworkMap lib frame.payload s
  | tailnetDnsQuery => exact kept_answerTailnetDns lib frame.payload s
  | peerEndpoint =>
    cases decodePeerEndpoint frame.payload <;> exact .refl s
  | derpResponse =>
    cases decodeDerpResponse frame.payload <;> exact .refl s
  | delegation =>
    cases decodeDelegationRequest frame <;> exact .refl s
  | pumpSchedule =>
    cases tryDecodePumpSchedule frame.payload with
    | none => exact .refl s
    | some schedule => exact kept_acceptPump schedule now s
  | _ => exact .refl s

theorem kept_takeDuePump (now later : ℕ) (s : ServerSession) :
    s.Kept (after (takeDuePump now later) s) := by
  refine kept_requireState ?_
  unfold after
  dsimp only
  cases s.pumpDeadline with
  | none => exact .refl s
  | some =>
    dsimp only
    split_ifs
    · exact .refl s
    · cases encodePumpReply s.pumpRequestId <;> exact ⟨rfl, rfl, rfl, rfl, rfl, rfl, .inl rfl⟩

/-! ## How a node is let in -/

def challenged (options : ServerSessionOptions) (nonce : Bytes) :
    Event where
  call := .startAuthentication nonce
  outcome := .ok (.frame {
    type := .serverChallenge
    payload := encodeChallenge lib options.relayPublicKey nonce })

def evaluated (frame : Frame) (identity : Authentication) (proofValid tailnetMatches : Bool) :
    Event where
  call := .evaluateAuthentication frame
  outcome := .ok (.evaluated { identity, proofValid, tailnetMatches })

def admitted (payload : Bytes) : Event where
  call := .completeAuthentication true
  outcome := .ok (.frame { type := .authenticated, payload })

def mapped (frame : Frame) (config : NetworkConfig) : Event where
  call := .acceptInitialNetworkMap frame
  outcome := .ok (.config config)

def evaluate (authentication : Authentication) (s : ServerSession) : ServerSession :=
  { s with
    authentication := some authentication
    proofValid := createClientProof lib s.options.relayPrivateKey
      authentication.nodePublicKey s.serverNonce authentication.clientNonce ==
        authentication.clientProof
    tailnetMatches := authentication.tailnet == s.options.expectedTailnet
    state := .authenticationEvaluated }

/-- **What a call may do to a session.** -/
inductive Moves (lib : RelayLibrary) (s : ServerSession) : Event → ServerSession → Prop
  | challenged (nonce : Bytes) : s.state = .created →
      Moves lib s (challenged lib s.options nonce)
        { s with serverNonce := nonce, state := .challengeSent }
  | evaluated (frame : Frame) (authentication : Authentication) : s.state = .challengeSent →
      frame.type = .authenticate →
      decodeAuthentication lib frame.payload = .ok authentication →
      Moves lib s (evaluated frame authentication (s.evaluate lib authentication).proofValid
        (s.evaluate lib authentication).tailnetMatches) (s.evaluate lib authentication)
  | admitted (payload : Bytes) : s.state = .authenticationEvaluated → s.proofValid = true →
      s.tailnetMatches = true → Moves lib s (admitted payload) { s with state := .authenticated }
  | rejected (event : Event) : s.state = .authenticationEvaluated →
      Moves lib s event { s with state := .rejected }
  | mapped (frame : Frame) (config : NetworkConfig) : s.state = .authenticated →
      s.identity.Identifies config →
      Moves lib s (mapped frame config) { s with networkMap := config, state := .active }
  | kept {event : Event} {s' : ServerSession} : s.Kept s' → Moves lib s event s'

section Steps

variable {lib : RelayLibrary} {options : ServerSessionOptions} {s s' s₁ : ServerSession}
  {call : Call} {result : Except SessionFault Returned}

theorem step_of_ok {returned : Returned} (hrun : call.run lib s = .ok returned s₁)
    (h : (calls lib options).step s ⟨call, result⟩ s') : result = .ok returned ∧ s' = s₁ := by
  obtain ⟨hrt, hs'⟩ := h
  unfold outcome at hrt
  unfold after at hs'
  rw [hrun] at hrt hs'
  exact ⟨hrt, hs'⟩

theorem moves_of_error {fault : SessionFault} (hrun : call.run lib s = .error fault s)
    (h : (calls lib options).step s ⟨call, result⟩ s') : s.Moves lib ⟨call, result⟩ s' := by
  obtain ⟨-, hs'⟩ := h
  unfold after at hs'
  rw [hrun] at hs'
  rw [hs']
  exact .kept (.refl s)

theorem moves_startAuthentication {nonce : Bytes} (hsta : s.state = .created)
    (h : (calls lib options).step s ⟨.startAuthentication nonce, result⟩ s') :
    s.Moves lib ⟨.startAuthentication nonce, result⟩ s' := by
  have hrun : startAuthentication lib nonce s = .ok _ _ := requireState_of_eq hsta
  obtain ⟨rfl, rfl⟩ := step_of_ok (map_ok hrun) h
  exact .challenged nonce hsta

variable {frame : Frame}

theorem moves_evaluateAuthentication (hsta : s.state = .challengeSent)
    (h : (calls lib options).step s ⟨.evaluateAuthentication frame, result⟩ s') :
    s.Moves lib ⟨.evaluateAuthentication frame, result⟩ s' := by
  have hrun : evaluateAuthentication lib frame s = _ := requireState_of_eq hsta
  by_cases hty : frame.type = .authenticate
  · rw [if_neg (not_not.mpr hty)] at hrun
    cases hdc : decodeAuthentication lib frame.payload with
    | error =>
      rw [hdc] at hrun
      exact moves_of_error (map_error hrun) h
    | ok authentication =>
      rw [hdc] at hrun
      obtain ⟨rfl, rfl⟩ := step_of_ok (map_ok hrun) h
      exact .evaluated frame authentication hsta hty hdc
  · rw [if_pos hty] at hrun
    exact moves_of_error (map_error hrun) h

theorem moves_completeAuthentication {nodeVisible : Bool}
    (hsta : s.state = .authenticationEvaluated)
    (h : (calls lib options).step s ⟨.completeAuthentication nodeVisible, result⟩ s') :
    s.Moves lib ⟨.completeAuthentication nodeVisible, result⟩ s' := by
  have hrun : completeAuthentication lib nodeVisible s = _ := requireState_of_eq hsta
  by_cases hrf : (!s.proofValid || !s.tailnetMatches || !nodeVisible) = true
  · rw [if_pos hrf] at hrun
    obtain ⟨rfl, rfl⟩ := step_of_ok (map_ok hrun) h
    exact .rejected _ hsta
  · rw [if_neg hrf] at hrun
    obtain ⟨rfl, rfl⟩ := step_of_ok (map_ok hrun) h
    obtain ⟨hpr, htl, rfl⟩ : s.proofValid = true ∧ s.tailnetMatches = true ∧
        nodeVisible = true := by
      cases hp : s.proofValid <;> cases ht : s.tailnetMatches <;> cases nodeVisible <;>
        simp_all
    exact .admitted _ hsta hpr htl

theorem moves_acceptInitialNetworkMap (hsta : s.state = .authenticated)
    (h : (calls lib options).step s ⟨.acceptInitialNetworkMap frame, result⟩ s') :
    s.Moves lib ⟨.acceptInitialNetworkMap frame, result⟩ s' := by
  have hrun : acceptInitialNetworkMap lib frame s = _ := requireState_of_eq hsta
  by_cases hty : frame.type = .networkMap
  · rw [if_neg (not_not.mpr hty)] at hrun
    cases hdc : decodeNetworkConfig lib frame.payload with
    | error =>
      rw [hdc] at hrun
      exact moves_of_error (map_error hrun) h
    | ok config =>
      by_cases hown : s.identity.Identifies config
      · rw [hdc] at hrun
        unfold validateNetworkMap at hrun
        dsimp only at hrun
        rw [decide_eq_true hown] at hrun
        obtain ⟨rfl, rfl⟩ := step_of_ok (map_ok hrun) h
        exact .mapped frame config hsta hown
      · have hrun := acceptInitialNetworkMap_of_not_identifies lib hsta hty hdc hown
        exact moves_of_error (map_error hrun) h
  · rw [if_pos hty] at hrun
    exact moves_of_error (map_error hrun) h

/-- **Every call does one of these things.** -/
theorem moves_of_step {event : Event} (h : (calls lib options).step s event s') :
    s.Moves lib event s' := by
  have hkp {α : Type} {f : α → Returned} {x : SessionM α} (hs' : s' = after (f <$> x) s)
      (hx : s.Kept (after x s)) : s.Moves lib event s' := by
    rw [after_map] at hs'
    exact .kept (hs' ▸ hx)
  obtain ⟨call, _⟩ := event
  by_cases hsta : s.state = call.expected
  swap
  · exact moves_of_error (run_of_state_ne lib hsta) h
  cases call with
  | startAuthentication => exact moves_startAuthentication hsta h
  | evaluateAuthentication => exact moves_evaluateAuthentication hsta h
  | completeAuthentication => exact moves_completeAuthentication hsta h
  | acceptInitialNetworkMap => exact moves_acceptInitialNetworkMap hsta h
  | process frame now => exact hkp h.2 (kept_requireState (kept_processFrame lib frame now s))
  | takeDuePump now later => exact hkp h.2 (kept_takeDuePump now later s)
  | buildDerpChallenge =>
    exact hkp h.2 (kept_requireState ⟨rfl, rfl, rfl, rfl, rfl, rfl, .inl rfl⟩)
  | buildHeartbeat | buildServerPacket | nextPumpDeadline =>
    exact hkp h.2 (kept_requireState (.refl s))

end Steps

/-! ## Only who has proved it is let in -/

structure Shown (lib : RelayLibrary) (s : ServerSession) (frame : Frame)
    (identity : Authentication) : Prop where
  authentication : s.authentication = some identity
  /-- The node has said so in the frame for it. -/
  type : frame.type = .authenticate
  decoded : decodeAuthentication lib frame.payload = .ok identity
  /-- The proof of the node is the one for the challenge. -/
  proof : s.proofValid = true → createClientProof lib s.options.relayPrivateKey
    identity.nodePublicKey s.serverNonce identity.clientNonce = identity.clientProof
  /-- The node is of the relay's tailnet. -/
  tailnet : s.tailnetMatches = true → identity.tailnet = s.options.expectedTailnet

/-- **How far a session has got**, in each of its states. -/
def Progress (s : ServerSession) (events : List Event) : Prop :=
  match s.state with
  | .created => True
  | .rejected => True
  | .challengeSent => [challenged lib s.options s.serverNonce].Sublist events
  | .authenticationEvaluated => ∃ frame identity, Shown lib s frame identity ∧
      [challenged lib s.options s.serverNonce,
        evaluated frame identity s.proofValid s.tailnetMatches].Sublist events
  | .authenticated => ∃ frame identity payload, Shown lib s frame identity ∧
      s.proofValid = true ∧ s.tailnetMatches = true ∧
      [challenged lib s.options s.serverNonce, evaluated frame identity true true,
        admitted payload].Sublist events
  | .active => ∃ frame identity payload mapFrame config, Shown lib s frame identity ∧
      s.proofValid = true ∧ s.tailnetMatches = true ∧ identity.Identifies s.networkMap ∧
      [challenged lib s.options s.serverNonce, evaluated frame identity true true,
        admitted payload, mapped mapFrame config].Sublist events

section Progressing

variable {lib : RelayLibrary} {s s' : ServerSession} {events : List Event} {event : Event}
  {frame : Frame} {identity : Authentication}

theorem Shown.identity_eq (h : Shown lib s frame identity) : s.identity = identity := by
  unfold ServerSession.identity
  rw [h.authentication]
  rfl

theorem Shown.of_kept (h : Shown lib s frame identity) (hkp : s.Kept s') :
    Shown lib s' frame identity where
  authentication := hkp.authentication.trans h.authentication
  type := h.type
  decoded := h.decoded
  proof hvd := by
    rw [hkp.options, hkp.serverNonce]
    exact h.proof (hkp.proofValid ▸ hvd)
  tailnet hma := by
    rw [hkp.options]
    exact h.tailnet (hkp.tailnetMatches ▸ hma)

theorem shown_evaluate (hty : frame.type = .authenticate)
    (hdc : decodeAuthentication lib frame.payload = .ok identity) :
    Shown lib (s.evaluate lib identity) frame identity where
  authentication := rfl
  type := hty
  decoded := hdc
  proof hvd := eq_of_beq hvd
  tailnet hma := eq_of_beq hma

theorem Progress.of_kept (h : Progress lib s events) (hkp : s.Kept s') :
    Progress lib s' (events ++ [event]) := by
  have hln {passed : List Event} (hps : passed.Sublist events) :
      passed.Sublist (events ++ [event]) := hps.trans (List.sublist_append_left _ _)
  unfold Progress at h ⊢
  rw [hkp.state, hkp.options, hkp.serverNonce, hkp.proofValid, hkp.tailnetMatches]
  generalize s.state = state at h ⊢
  cases state with
  | created | rejected => trivial
  | challengeSent => exact hln h
  | authenticationEvaluated =>
    obtain ⟨frame, identity, hsh, hps⟩ := h
    exact ⟨frame, identity, hsh.of_kept hkp, hln hps⟩
  | authenticated =>
    obtain ⟨frame, identity, pl, hsh, hpr, htl, hps⟩ := h
    exact ⟨frame, identity, pl, hsh.of_kept hkp, hpr, htl, hln hps⟩
  | active =>
    obtain ⟨frame, identity, pl, mapFrame, config, hsh, hpr, htl, hmap, hps⟩ := h
    have hmp' : identity.Identifies s'.networkMap := by
      obtain hsm | hown := hkp.networkMap
      · rw [hsm]
        exact hmap
      · rw [← hsh.identity_eq]
        exact hown
    exact ⟨frame, identity, pl, mapFrame, config, hsh.of_kept hkp, hpr, htl, hmp', hln hps⟩

/-- **A call takes a session one step further at most.** -/
theorem Progress.move (h : Progress lib s events) (hmv : s.Moves lib event s') :
    Progress lib s' (events ++ [event]) := by
  have hla {passed : List Event} (event : Event) (hps : passed.Sublist events) :
      (passed ++ [event]).Sublist (events ++ [event]) := hps.append (.refl _)
  cases hmv with
  | challenged => exact List.sublist_append_right _ _
  | evaluated frame identity hsta hty hdc =>
    unfold Progress at h
    rw [hsta] at h
    exact ⟨frame, identity, shown_evaluate hty hdc, hla _ h⟩
  | admitted pl hsta hpr htl =>
    unfold Progress at h
    rw [hsta] at h
    obtain ⟨frame, identity, hsh, hps⟩ := h
    rw [hpr, htl] at hps
    exact ⟨frame, identity, pl, { hsh with }, hpr, htl, hla _ hps⟩
  | rejected => trivial
  | mapped mapFrame config hsta hown =>
    unfold Progress at h
    rw [hsta] at h
    obtain ⟨frame, identity, pl, hsh, hpr, htl, hps⟩ := h
    refine ⟨frame, identity, pl, mapFrame, config, { hsh with }, hpr, htl, ?_, hla _ hps⟩
    rw [← hsh.identity_eq]
    exact hown
  | kept hkp => exact h.of_kept hkp

theorem Progress.not_identifies (h : Progress lib s events) {config : NetworkConfig}
    (hsta : s.state = .authenticated ∨ s.state = .active)
    (hot : ∀ identity, s.authentication = some identity → ¬identity.Identifies config) :
    ¬s.identity.Identifies config := by
  unfold Progress at h
  obtain hsta | hsta := hsta <;> rw [hsta] at h
  · obtain ⟨_, identity, _, hsh, -⟩ := h
    rw [hsh.identity_eq]
    exact hot identity hsh.authentication
  · obtain ⟨_, identity, _, _, _, hsh, -⟩ := h
    rw [hsh.identity_eq]
    exact hot identity hsh.authentication

end Progressing

theorem options_of_moves {lib : RelayLibrary} {s s' : ServerSession} {event : Event}
    (h : s.Moves lib event s') : s'.options = s.options := by
  cases h with
  | kept hkp => exact hkp.options
  | _ => rfl

theorem active_of_moves {lib : RelayLibrary} {s s' : ServerSession} {event : Event}
    (h : s.Moves lib event s') (hac : s.state = .active) :
    s'.state = .active ∧ s'.authentication = s.authentication := by
  cases h with
  | kept hkp => exact ⟨hkp.state.trans hac, hkp.authentication⟩
  | challenged _ hsta | evaluated _ _ hsta | admitted _ hsta | rejected _ hsta
  | mapped _ _ hsta => exact nomatch hac.symm.trans hsta

theorem progress {lib : RelayLibrary} {options : ServerSessionOptions}
    {s : ServerSession × List Event} (h : (calls lib options).recorded.Reachable s) :
    s.1.options = options ∧ Progress lib s.1 s.2 := by
  refine TransitionSystem.invariant (P := fun s => s.1.options = options ∧ Progress lib s.1 s.2)
    ?_ ?_ h
  · rintro ⟨_, _⟩ ⟨rfl, rfl⟩
    exact ⟨rfl, trivial⟩
  · rintro ⟨_, _⟩ _ ⟨_, _⟩ ⟨hop, hpg⟩ ⟨hsp, rfl⟩
    have hmv := moves_of_step hsp
    exact ⟨(options_of_moves hmv).trans hop, hpg.move hmv⟩

/-- **A node has been let in**: the relay has sent a challenge, the node has
authenticated with the proof for that challenge and for the tailnet of the
relay, it has been found to be visible, and its network map has been taken. -/
structure LetIn (lib : RelayLibrary) (options : ServerSessionOptions) (events : List Event)
    (identity : Authentication) : Prop where
  passed : ∃ nonce frame payload mapFrame config,
    [challenged lib options nonce, evaluated frame identity true true, admitted payload,
      mapped mapFrame config].Sublist events ∧
    frame.type = .authenticate ∧
    decodeAuthentication lib frame.payload = .ok identity ∧
    identity.clientProof = createClientProof lib options.relayPrivateKey
      identity.nodePublicKey nonce identity.clientNonce
  /-- The node is of the relay's tailnet. -/
  tailnet : identity.tailnet = options.expectedTailnet

/-- **Only an authenticated node gets an active session.** Whatever calls are
made, an active session is one that has let the node in, the network map it
holds is the one of that node, and it stays so. A call in a state it is not for
throws and leaves the session as it is, and so does a network map of another
node. -/
theorem active_only_authenticated {lib : RelayLibrary} {options : ServerSessionOptions}
    {s : ServerSession} {events : List Event}
    (h : (calls lib options).recorded.Reachable (s, events)) :
    (s.state = .active → ∃ identity, s.authentication = some identity ∧
      LetIn lib options events identity ∧ identity.Identifies s.networkMap) ∧
    (s.state = .active → ∀ event s', (calls lib options).step s event s' →
      s'.state = .active ∧ s'.authentication = s.authentication) ∧
    (∀ call : Call, s.state ≠ call.expected → call.run lib s = .error (.session .invalidState) s) ∧
    ∀ (frame : Frame) (config : NetworkConfig) (now : ℕ), frame.type = .networkMap →
      decodeNetworkConfig lib frame.payload = .ok config →
      (∀ identity, s.authentication = some identity → ¬identity.Identifies config) →
      (∃ fault, acceptInitialNetworkMap lib frame s = .error fault s) ∧
        ∃ fault, process lib frame now s = .error fault s := by
  obtain ⟨hop, hpg⟩ := progress h
  refine ⟨?_, ?_, fun call hne => run_of_state_ne lib hne, ?_⟩
  · intro hac
    unfold Progress at hpg
    rw [hac] at hpg
    obtain ⟨frame, identity, payload, mapFrame, config, hsh, hpr, htl, hmap, hps⟩ :=
      hpg
    have hcl := hsh.proof hpr
    have hex := hsh.tailnet htl
    rw [hop] at hps hcl hex
    refine ⟨identity, hsh.authentication, ⟨?_, hex⟩, hmap⟩
    exact ⟨s.serverNonce, frame, payload, mapFrame, config, hps, hsh.type, hsh.decoded, hcl.symm⟩
  · intro hac _ _ hsp
    exact active_of_moves (moves_of_step hsp) hac
  · intro _ _ _ hty hdc hot
    constructor
    · by_cases hsta : s.state = .authenticated
      · have hown := hpg.not_identifies (.inl hsta) hot
        exact ⟨_, acceptInitialNetworkMap_of_not_identifies lib hsta hty hdc hown⟩
      · exact ⟨_, requireState_of_ne hsta⟩
    · by_cases hsta : s.state = .active
      · have hown := hpg.not_identifies (.inr hsta) hot
        exact ⟨_, process_of_not_identifies lib hsta hty hdc hown⟩
      · exact ⟨_, requireState_of_ne hsta⟩

def play (cs : List Call) (s : ServerSession × List Event) : ServerSession × List Event :=
  cs.foldl (fun s call =>
    (after (call.run lib) s.1, s.2 ++ [⟨call, outcome (call.run lib) s.1⟩])) s

theorem reachable_play {options : ServerSessionOptions} (cs : List Call)
    {s : ServerSession × List Event} (h : (calls lib options).recorded.Reachable s) :
    (calls lib options).recorded.Reachable (play lib cs s) := by
  induction cs generalizing s with
  | nil => exact h
  | cons _ _ ih => exact ih (h.step ⟨⟨rfl, rfl⟩, rfl⟩)

def plainNode : Json :=
  let zeros := .ofList (.replicate 64 '0')
  .object [("ClientNonce", .string zeros), ("ClientProof", .string zeros),
    ("Hostname", .string "host"), ("NodeId", .number 7), ("NodePublicKey", .string zeros),
    ("OS", .string ""), ("OSVersion", .string ""), ("Tailnet", .string "example.ts.net")]

def plainMap : NetworkConfig where
  selfNodeId := 7
  selfKey := "nodekey:" ++ .ofList (.replicate 64 '0')
  selfAddress := "100.64.0.7"
  selfName := "host"
  domain := "example.ts.net"

def plainLibrary : RelayLibrary := .knowing [plainNode, networkConfigJson plainMap]

def plainCalls : List Call :=
  [.buildHeartbeat, .startAuthentication (List.replicate 32 1),
    .evaluateAuthentication { type := .authenticate, payload := plainLibrary.dump plainNode },
    .completeAuthentication true,
    .acceptInitialNetworkMap
      { type := .networkMap, payload := plainLibrary.dump (networkConfigJson plainMap) }]

theorem active_only_authenticated_plain :
    let options : ServerSessionOptions := { expectedTailnet := "example.ts.net" }
    let run := play plainLibrary plainCalls ({ options }, [])
    run.1.state = .active ∧ ∃ identity, run.1.authentication = some identity ∧
      LetIn plainLibrary options run.2 identity ∧ identity.Identifies run.1.networkMap := by
  intro options run
  have hac : run.1.state = .active := by decide +kernel
  have hrc : (calls plainLibrary options).recorded.Reachable run :=
    reachable_play plainLibrary plainCalls (.init ⟨rfl, rfl⟩)
  exact ⟨hac, (active_only_authenticated hrc).1 hac⟩

end ServerSession

end Tailgate
