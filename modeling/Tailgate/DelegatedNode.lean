import Tailgate.DelegationLease
import Tailgate.HostedDecoder
import Tailgate.NativeNode
import Tailgate.PeerTable
import Tailgate.RelayCodec

/-!
# The relay's side of a node

For every node it lets in, a relay runs a delegated node: the table of peers,
the DERP connections and the lease of the node. Every network map it has applied
gets the next revision, which is acknowledged. A control frame may throw at
several places; the relay then closes the connection.
-/

namespace Tailgate

inductive DelegatedFault where
  | logic
  | device
  /-- There is not one frame, or not one for the relay. -/
  | protocol
  | node (fault : Fault)
  | lease (error : LeaseError)
  | frame (error : ProtocolError)
  | decoding (error : RelayError)

/-- **What a relay runs for a node.** -/
structure DelegatedNode where
  peers : PeerTable := {}
  delegation : DelegationLease := { derps := {} }
  homeDerp : ℕ := 0
  mapRevision : ℕ := 0
  controlOutput : List Frame := []
  started : Bool := false

namespace DelegatedNode

abbrev Delegated := EStateM DelegatedFault DelegatedNode

variable (network : NetworkConfig)

/-- **Apply a network map**, and acknowledge it. -/
def updateNetwork : Delegated Unit := fun n =>
  let n := { n with peers := n.peers.apply network.peers }
  match DerpConnections.applyNetworkMap network n.delegation.derps with
  | .error fault derps =>
    .error (.node fault) { n with delegation := { n.delegation with derps } }
  | .ok _ derps =>
    let mapRevision := n.mapRevision + 1
    let n := { n with
      delegation := { n.delegation with derps }.applyMap mapRevision
      mapRevision }
    match encodeMapAcknowledgement mapRevision with
    | .error error => .error (.decoding error) n
    | .ok frame => .ok () { n with controlOutput := n.controlOutput ++ [frame] }

/-- **Start with the first network map**, if the device of the node can be
opened. -/
def start (opened : Bool) : Delegated Unit := fun n =>
  if n.started then
    .error .logic n
  else if !opened then
    .error .device n
  else
    match n.delegation.derps.ensure network.derpRegion network.derpHost with
    | .error failure => .error (.node (.node failure)) n
    | .ok (homeDerp, derps) =>
      let n := { n with homeDerp, delegation := { n.delegation with derps } }
      -- A node that throws here keeps its peers and can be started again.
      match updateNetwork network n with
      | .error fault n => .error fault n
      | .ok _ n => .ok () { n with started := true }

def soleFrame (bytes : Bytes) : Except DelegatedFault Frame :=
  match Decoder.feed bytes {} with
  | .error error _ => .error (.frame error)
  | .ok _ decoder =>
    match Decoder.next decoder with
    | .error error _ => .error (.frame error)
    | .ok none _ => .error .protocol
    | .ok (some frame) decoder =>
      match Decoder.next decoder with
      | .error error _ => .error (.frame error)
      | .ok none _ => .ok frame
      | .ok (some _) _ => .error .protocol

def markEndpoint (verified : PeerEndpoint) (n : DelegatedNode) : DelegatedNode :=
  if n.peers.peers.any (·.publicKey == verified.peer) then
    { n with
      peers := n.peers.atTransport fun c => (c.markDirect verified.peer verified.endpoint).2 }
  else
    n

/-- **Handle a control frame.** -/
def handleControl (lib : RelayLibrary) (bytes : Bytes) (now : ℕ) : Delegated Unit := fun n =>
  match soleFrame bytes with
  | .error fault => .error fault n
  | .ok frame =>
    match frame.type with
    | .networkMap =>
      match ProtocolCodec.decodeNetworkConfig lib frame.payload with
      | .error error => .error (.decoding error) n
      | .ok network => updateNetwork network n
    | .delegation =>
      match decodeDelegationRequest frame with
      | none => .error .protocol n
      | some request =>
        match n.delegation.accept now request with
        | .error error => .error (.lease error) n
        | .ok delegation => .ok () { n with delegation }
    | .peerEndpoint =>
      match ProtocolCodec.decodePeerEndpoint frame.payload with
      | .error error => .error (.decoding error) n
      | .ok verified => .ok () (n.markEndpoint verified)
    | _ => .error .protocol n

/-! ## Revisions -/

def acknowledgement (revision : ℕ) : Frame where
  type := .networkMapAck
  payload := BigEndian.bytes 8 revision

structure Applied (n n' : DelegatedNode) : Prop where
  mapRevision : n'.mapRevision = n.mapRevision + 1
  controlOutput : n'.controlOutput = n.controlOutput ++ [acknowledgement (n.mapRevision + 1)]

structure Unapplied (n n' : DelegatedNode) : Prop where
  mapRevision : n'.mapRevision = n.mapRevision
  controlOutput : n'.controlOutput = n.controlOutput

/-- **A network map gets the next revision, or the node throws.** -/
theorem updateNetwork_cases (n : DelegatedNode) :
    (∃ n', updateNetwork network n = .ok () n' ∧ Applied n n') ∨
      ∃ fault n', updateNetwork network n = .error fault n' ∧ Unapplied n n' := by
  unfold updateNetwork
  dsimp only
  cases DerpConnections.applyNetworkMap network n.delegation.derps with
  | error => exact .inr ⟨_, _, rfl, rfl, rfl⟩
  | ok => exact .inl ⟨_, rfl, rfl, rfl⟩

theorem start_cases (opened : Bool) (n : DelegatedNode) :
    (∃ n', start network opened n = .ok () n' ∧ Applied n n') ∨
      ∃ fault n', start network opened n = .error fault n' ∧ Unapplied n n' := by
  unfold start
  split_ifs
  · exact .inr ⟨_, _, rfl, rfl, rfl⟩
  · exact .inr ⟨_, _, rfl, rfl, rfl⟩
  · cases n.delegation.derps.ensure network.derpRegion network.derpHost with
    | error => exact .inr ⟨_, _, rfl, rfl, rfl⟩
    | ok created =>
      dsimp only
      obtain ⟨_, hup, hap⟩ | ⟨_, _, hup, hun⟩ := updateNetwork_cases network
        { n with homeDerp := created.1, delegation := { n.delegation with derps := created.2 } }
      · rw [hup]
        exact .inl ⟨_, rfl, hap.mapRevision, hap.controlOutput⟩
      · rw [hup]
        exact .inr ⟨_, _, rfl, hun.mapRevision, hun.controlOutput⟩

variable {frame : Frame}

theorem soleFrame_wire (h : Decoder.Plain frame) : soleFrame frame.wire = .ok frame := by
  obtain ⟨fed, hfd, hfed, hpd⟩ := Decoder.unfragmented_initial.feed_of_le
    (show 0 + frame.wire.length ≤ _ by
      rw [Nat.zero_add]
      exact Frame.length_wire_le h.1)
  obtain ⟨_, hnx, hrs, hem⟩ := Decoder.decodes_unfragmented.complete hfed h
    (show fed.buffer.pending = frame.wire ++ [] by
      rw [hpd]
      exact (List.append_nil _).symm)
  obtain ⟨_, hla, -⟩ := Decoder.decodes_unfragmented.unfinished hrs (.inl hem)
  unfold soleFrame
  rw [hfd]
  dsimp only
  rw [hnx]
  dsimp only
  rw [hla]

/-- **A network map that comes as a control frame gets the next revision**, or
the node throws. -/
theorem handleControl_cases (lib : RelayLibrary) (hvd : frame.Valid)
    (hty : frame.type = .networkMap) (now : ℕ) (n : DelegatedNode) :
    (∃ n', handleControl lib frame.wire now n = .ok () n' ∧ Applied n n') ∨
      ∃ fault n', handleControl lib frame.wire now n = .error fault n' ∧ Unapplied n n' := by
  have hpl : Decoder.Plain frame := ⟨hvd, by rw [hty]; exact nofun⟩
  unfold handleControl
  rw [soleFrame_wire hpl]
  dsimp only
  rw [hty]
  cases ProtocolCodec.decodeNetworkConfig lib frame.payload with
  | error => exact .inr ⟨_, _, rfl, rfl, rfl⟩
  | ok network => exact updateNetwork_cases network n

end DelegatedNode

end Tailgate
