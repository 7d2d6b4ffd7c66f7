import Tailgate.PeerPaths

/-!
# Pings

A ping asks a peer for an answer, with a disco message or with a packet inside
the tunnel. The tracker keeps what has been asked. An answer inside the tunnel
is known by its token alone.
-/

namespace Tailgate

inductive PingMode where
  | disco
  | tsmp
  deriving DecidableEq

structure PingRequest where
  id : ℕ := 0
  target : String := ""
  pingMode : PingMode := .disco
  timeout : ℕ := 10 * nanoseconds
  relay : String := ""

/-- A request that is outstanding. -/
structure PendingPing where
  requestState : PingRequest := {}
  peer : Bytes := []
  discoTransaction : Bytes := []
  tsmpToken : Bytes := []
  started : ℕ := 0
  lastSent : ℕ := 0
  discoKey : Bytes := []
  peerName : String := ""
  peerAddress : String := ""
  relay : String := ""

structure PingResult where
  requestId : ℕ
  responded : Bool
  latency : ℤ
  peerName : String
  peerAddress : String
  relay : String
  peerApiPort : ℕ

/-- **The tracker.** -/
structure PingTracker where
  pending : List PendingPing := []

namespace PingTracker

def complete (ping : PendingPing) (responded : Bool) (peerApiPort now : ℕ) : PingResult where
  requestId := ping.requestState.id
  responded
  latency := now - ping.started
  peerName := ping.peerName
  peerAddress := ping.peerAddress
  relay := ping.relay
  peerApiPort

def isTsmp (token : Bytes) (ping : PendingPing) : Bool :=
  ping.requestState.pingMode == .tsmp && ping.tsmpToken == token

/-- **An answer inside the tunnel.** -/
def completeTsmp (token : Bytes) (peerApiPort now : ℕ) (s : PingTracker) :
    Option PingResult × PingTracker :=
  match s.pending.find? (isTsmp token) with
  | none => (none, s)
  | some ping =>
    (some (complete ping true peerApiPort now), { pending := s.pending.eraseP (isTsmp token) })

end PingTracker

end Tailgate
