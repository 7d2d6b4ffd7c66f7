import Tailgate.Addresses
import Tailgate.BigEndian

/-!
# Direct paths

A node reaches a peer through a relay, or directly under an endpoint from which
the peer has answered: `PeerPathState` is what is known about that path, and
`Connection` has the paths of all peers. Its socket and the datagrams that wait
for it are not here. Times are in nanoseconds.
-/

namespace Tailgate

open List

def nanoseconds : ℕ := 10 ^ 9

/-! ## One peer -/

/-- **What is known about the direct path to a peer.** -/
structure PeerPathState where
  directEndpoint : Option Endpoint := none
  /-- The endpoints that have been verified, the oldest first. -/
  verifiedEndpoints : List Endpoint := []
  lastDirectProbe : Option ℕ := none
  /-- When something was sent that has not been answered. -/
  firstUnansweredDirectSend : Option ℕ := none

namespace PeerPathState

inductive ResetMode where
  | preserveVerifiedEndpoints
  | forgetVerifiedEndpoints
  deriving DecidableEq

def maximumVerifiedEndpoints : ℕ := 32

def directProbeInterval : ℕ := 5 * nanoseconds

variable (endpoint : Endpoint) (now : ℕ) (p : PeerPathState)

def hasDirectPath : Bool := p.directEndpoint.isSome

def isVerified : Bool :=
  p.verifiedEndpoints.contains endpoint

/-- Look for a path, unless there is one or the node looked for one a short
time ago. -/
def tryBeginProbe : Bool × PeerPathState :=
  if p.directEndpoint.isSome ∨ p.lastDirectProbe.any (now - · < directProbeInterval) then
    (false, p)
  else
    (true, { p with lastDirectProbe := some now })

/-- Keep an endpoint that has been verified, in place of the oldest one if
there are too many. -/
def rememberVerified : PeerPathState :=
  if p.isVerified endpoint then
    p
  else if p.verifiedEndpoints.length = maximumVerifiedEndpoints then
    { p with verifiedEndpoints := p.verifiedEndpoints.drop 1 ++ [endpoint] }
  else
    { p with verifiedEndpoints := p.verifiedEndpoints ++ [endpoint] }

/-- **Use an endpoint**; the answer is whether it is another one than
before. -/
def markDirect : Bool × PeerPathState :=
  (p.directEndpoint != some endpoint, rememberVerified endpoint
      { p with directEndpoint := some endpoint, firstUnansweredDirectSend := none })

/-- **Give the path up.** -/
def reset (mode : ResetMode) (p : PeerPathState) : PeerPathState :=
  { p with
    directEndpoint := none
    firstUnansweredDirectSend := none
    verifiedEndpoints :=
      if mode = .forgetVerifiedEndpoints then [] else p.verifiedEndpoints }

@[simp]
theorem directEndpoint_rememberVerified (ep : Endpoint) (p : PeerPathState) :
    (p.rememberVerified ep).directEndpoint = p.directEndpoint := by
  unfold rememberVerified
  split_ifs <;> rfl

@[simp]
theorem directEndpoint_markDirect : (p.markDirect endpoint).2.directEndpoint = some endpoint := by
  simp [markDirect]

@[simp]
theorem directEndpoint_tryBeginProbe :
    (p.tryBeginProbe now).2.directEndpoint = p.directEndpoint := by
  unfold tryBeginProbe
  split <;> rfl

end PeerPathState

/-! ## All peers -/

/-- **The paths of the peers that have been added.** -/
structure Connection where
  peers : List (Bytes × PeerPathState) := []

namespace Connection

variable (peer : Bytes) (c : Connection)

def hasPeer : Bool :=
  c.peers.any (·.1 == peer)

def path? : Option PeerPathState :=
  (c.peers.find? (·.1 == peer)).map Prod.snd

def modifyPath (f : PeerPathState → PeerPathState) (c : Connection) : Connection :=
  { peers := c.peers.map fun entry => if entry.1 = peer then (entry.1, f entry.2) else entry }

def addPeer : Bool × Connection :=
  if c.hasPeer peer then (false, c) else (true, { peers := c.peers ++ [(peer, {})] })

def removePeer : Bool × Connection :=
  (c.hasPeer peer, { peers := c.peers.filter (·.1 != peer) })

def atPath (f : PeerPathState → Bool × PeerPathState) (c : Connection) : Bool × Connection :=
  match c.path? peer with
  | none => (false, c)
  | some p => ((f p).1, c.modifyPath peer fun p => (f p).2)

def hasDirectPath (c : Connection) : Bool :=
  (c.path? peer).any PeerPathState.hasDirectPath

def directEndpoint (c : Connection) : Option Endpoint :=
  (c.path? peer).bind PeerPathState.directEndpoint

def tryBeginProbe (now : ℕ) (peer : Bytes) (c : Connection) : Bool × Connection :=
  c.atPath peer (PeerPathState.tryBeginProbe now)

def markDirect (endpoint : Endpoint) (c : Connection) : Bool × Connection :=
  c.atPath peer (PeerPathState.markDirect endpoint)

def resetPath (mode : PeerPathState.ResetMode) (c : Connection) : Connection :=
  c.modifyPath peer (.reset mode)

variable (other : Bytes)

@[simp]
theorem hasPeer_addPeer (c : Connection) :
    (c.addPeer peer).2.hasPeer other ↔ c.hasPeer other ∨ other = peer := by
  unfold addPeer
  split
  · refine ⟨.inl, fun h => h.elim id fun h => ?_⟩
    rwa [h]
  · simp only [hasPeer, any_append, any_cons, any_nil, Bool.or_false, Bool.or_eq_true, beq_iff_eq]
    exact or_congr_right eq_comm

@[simp]
theorem hasPeer_removePeer (c : Connection) :
    (c.removePeer peer).2.hasPeer other ↔ c.hasPeer other ∧ other ≠ peer := by
  simp only [removePeer, hasPeer, any_filter, any_eq_true, Bool.and_eq_true, bne_iff_ne, beq_iff_eq]
  constructor
  · rintro ⟨ent, hey, hne, rfl⟩
    exact ⟨⟨ent, hey, rfl⟩, hne⟩
  · rintro ⟨⟨ent, hey, rfl⟩, hne⟩
    exact ⟨ent, hey, hne, rfl⟩

@[simp]
theorem hasPeer_resetPath (mode : PeerPathState.ResetMode)
    (c : Connection) : (c.resetPath peer mode).hasPeer other = c.hasPeer other := by
  unfold resetPath modifyPath hasPeer
  rw [any_map]
  congr 1
  funext ent
  simp only [Function.comp]
  split <;> rfl

theorem isSome_path? (peer : Bytes) (c : Connection) :
    (c.path? peer).isSome = c.hasPeer peer := by
  unfold path? hasPeer
  rw [Option.isSome_map, isSome_find?]

theorem path?_modifyPath (f : PeerPathState → PeerPathState) (c : Connection) :
    (c.modifyPath peer f).path? other
      = if other = peer then (c.path? other).map f else c.path? other := by
  have hkey : (fun ent : Bytes × PeerPathState => ent.1 == other)
      ∘ (fun ent => if ent.1 = peer then (ent.1, f ent.2) else ent)
        = fun ent => ent.1 == other := by
    funext ent
    simp only [Function.comp]
    split <;> rfl
  unfold path? modifyPath
  rw [find?_map, hkey]
  cases hfd : c.peers.find? (·.1 == other) with
  | none => simp
  | some ent =>
    have hey : ent.1 = other := by simpa using find?_some hfd
    by_cases hot : other = peer <;> simp [hey, hot]

variable {peer c}

/-- What is done with the path of a peer leaves the direct endpoints alone if
it leaves the peer's alone. -/
theorem directEndpoint_atPath {f : PeerPathState → Bool × PeerPathState}
    (hf : ∀ p, (f p).2.directEndpoint = p.directEndpoint) (c : Connection) (other : Bytes) :
    (c.atPath peer f).2.directEndpoint other = c.directEndpoint other := by
  unfold atPath
  split
  · rfl
  · show ((c.modifyPath peer fun p => (f p).2).path? other).bind _ = _
    rw [path?_modifyPath]
    split
    · cases h : c.path? other with
      | none => simp [directEndpoint, h]
      | some => simp [directEndpoint, h, hf]
    · rfl

theorem markDirect_eq (h : ¬c.hasPeer peer)
    (ep : Endpoint) : c.markDirect peer ep = (false, c) := by
  rw [← isSome_path?, Option.not_isSome_iff_eq_none] at h
  unfold markDirect atPath
  rw [h]

/-- **An endpoint is used for a peer that has been added.** -/
theorem directEndpoint_markDirect (h : c.hasPeer peer) (endpoint : Endpoint) :
    (c.markDirect peer endpoint).2.directEndpoint peer = some endpoint := by
  rw [← isSome_path?] at h
  obtain ⟨p, h⟩ := Option.isSome_iff_exists.mp h
  unfold markDirect atPath
  rw [h]
  show ((c.modifyPath peer fun p => (p.markDirect endpoint).2).path? peer).bind _ = _
  rw [path?_modifyPath, if_pos rfl, h]
  exact PeerPathState.directEndpoint_markDirect endpoint p

end Connection

end Tailgate
