import JxtaC.Advertisement.Files
import JxtaC.Bidipipe.States
import JxtaC.Bytevector.Bounds
import JxtaC.Bytevector.FailedRead
import JxtaC.Cm.Lifetimes
import JxtaC.Cm.Partition
import JxtaC.Cm.PendingDeltas
import JxtaC.Cm.Replica
import JxtaC.Cm.Transactions
import JxtaC.Cm.Upsert
import JxtaC.Discovery.Answers
import JxtaC.Discovery.Replicas
import JxtaC.DiscoveryResponse.Layers
import JxtaC.EndpointAddress.RoundTrip
import JxtaC.EndpointDemux.Runs
import JxtaC.EndpointFilters.Runs
import JxtaC.Hashtable.Occupancy
import JxtaC.JString.Refines
import JxtaC.JxtaId.Accepted
import JxtaC.JxtaVector.Refines
import JxtaC.Listener.Pool
import JxtaC.Message.NamesTable
import JxtaC.Message.ReadErrors
import JxtaC.Messengers
import JxtaC.MruCache
import JxtaC.NegativeCache.Workers
import JxtaC.Objecthashtable.Refines
import JxtaC.PacketHeader.Accepted
import JxtaC.PipeResolver.Requests
import JxtaC.Proffer.Documents
import JxtaC.Propagate.Chains
import JxtaC.Qos.Hops
import JxtaC.Queue
import JxtaC.Range
import JxtaC.RdvClient.Leases
import JxtaC.RdvHeaders
import JxtaC.RdvServer.Leases
import JxtaC.RelayServer.Agreement
import JxtaC.RelayStore.Release
import JxtaC.RelayStore.Timeout
import JxtaC.Resolver
import JxtaC.RouterClient
import JxtaC.SharedRoute.Calls
import JxtaC.SocketTunnel
import JxtaC.SrdiService.Batches
import JxtaC.SrdiService.Delta
import JxtaC.SrdiService.Threshold
import JxtaC.TcpConnection.Brigade
import JxtaC.TcpConnection.Transport
import JxtaC.TcpThreads.Deliveries
import JxtaC.TlsRetry
import JxtaC.Unipipe.Recipients
import JxtaC.Walk.Coverage
import JxtaC.WelcomeMessage.Lines
import JxtaC.XmlUtil
