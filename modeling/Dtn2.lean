import Dtn2.Bundling.Cbhe
import Dtn2.Fragmentation.Hostile
import Dtn2.Fragmentation.ProactiveBlocks
import Dtn2.Fragmentation.Reactive
import Dtn2.ConvLayers.CloseContact
import Dtn2.ConvLayers.Framing
import Dtn2.Prophet.AckOffer
import Dtn2.Prophet.MessageRoundTrip
import Dtn2.Prophet.SessionRuns
import Dtn2.Bundling.CustodyRuns
import Dtn2.Contacts.QueueRuns
import Dtn2.ConvLayers.Negotiation
import Dtn2.Routing.DTLSRNewest
import Dtn2.Bundling.PreparedOnce
import Dtn2.Security.Acceptance
import Dtn2.Security.OutgoingBlocks
import Dtn2.Discovery.BeaconRoundTrip
import Dtn2.Routing.ShortestRoute
import Dtn2.Prophet.EvictionOrder
import Dtn2.Prophet.Conservation
import Dtn2.Prophet.DictionaryNames
import Dtn2.Prophet.RouteHeap
import Dtn2.Prophet.RouteStore
import Dtn2.Prophet.Controller
import Dtn2.Routing.SessionBundles
import Dtn2.Bundling.Expiration
import Dtn2.Routing.DeferredDrain
import Dtn2.Bundling.StatusReportRoundTrip
import Dtn2.Fragmentation.HashKey
import Dtn2.Bundling.SequenceJoin
import Dtn2.Bundling.SequenceText
import Dtn2.Bundling.ProduceSlices
import Dtn2.Discovery.TypeTreeRoundTrip
import Dtn2.ConvLayers.ReceiveRuns
import Dtn2.Routing.TcaControlBundle
import Dtn2.Bundling.SdnvExact
import Dtn2.Security.Correlators
import Dtn2.Bpq.HashKey
import Dtn2.Naming.IpnGrammar
import Dtn2.Security.ValidateBundle
import Dtn2.Bundling.MetadataGenerate
import Dtn2.Security.BlockRuns
import Dtn2.Reg.APIRegistrationRuns
import Dtn2.Bpq.DeliverRuns
import Dtn2.Bundling.DictionaryRuns
import Dtn2.ConvLayers.PacketBoundaries
import Dtn2.Tunnel.TcpTunnelRuns
