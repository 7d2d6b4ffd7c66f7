import Tailgate.AppendedPeers
import Tailgate.Base64
import Tailgate.ChunkedStreams
import Tailgate.CollectionReading
import Tailgate.DelegationCodecs
import Tailgate.DerpClient
import Tailgate.DiscoAuthentication
import Tailgate.DriveRemotes
import Tailgate.HandoffRestoration
import Tailgate.HandshakeLimits
import Tailgate.HostedRecovery
import Tailgate.HostedReplacement
import Tailgate.HpackPrimitives
import Tailgate.MapRevisions
import Tailgate.MapStreamBytes
import Tailgate.PeerPacketDelivery
import Tailgate.PeerPackets
import Tailgate.PendingPackets
import Tailgate.PingRequests
import Tailgate.RecoveryThreads
import Tailgate.RegionProvisioning
import Tailgate.RelayServerLifetime
import Tailgate.RelayedRoutes
import Tailgate.ReplayProtection
import Tailgate.ResolverSupport
import Tailgate.SelectionAgreement
import Tailgate.SendQueues
import Tailgate.SessionInstallation
import Tailgate.StreamTransport
import Tailgate.StunResponses
import Tailgate.UnderlaySelection
