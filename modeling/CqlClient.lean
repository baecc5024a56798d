import CqlClient.Reassembly
import CqlClient.StreamLeak
import CqlClient.Confidentiality
import CqlClient.Fates
import CqlClient.MpmcJustified
import CqlClient.Deframe
import CqlClient.BoundsRows
import CqlClient.RoundTrip
import CqlClient.MpmcFifo
import CqlClient.Request
import CqlClient.TlsPipe
import CqlClient.HandshakeOrder
import CqlClient.AttemptEnds
import CqlClient.TlsHandshake
import CqlClient.Unsecured
import CqlClient.ServerDeframe
import CqlClient.ResultRows
import CqlClient.StreamBounds
import CqlClient.Refused
import CqlClient.Unsolicited
import CqlClient.EncoderBounds
import CqlClient.PagingToken
import CqlClient.SupportedMap
import CqlClient.TlsLoop
import CqlClient.TlsFeed
import CqlClient.TlsSizes
import CqlClient.Pool
import CqlClient.MpmcProgress
import CqlClient.MpmcQuiescent
import CqlClient.StreamBudget
import CqlClient.PoolRuns
import CqlClient.Cluster
import CqlClient.Socket
import CqlClient.Ownership
import CqlClient.Link
import CqlClient.Conversation
import CqlClient.RequestProgress
import CqlClient.Waiters
