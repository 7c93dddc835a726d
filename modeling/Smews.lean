import Smews.Memory.Correctness
import Smews.Input.Allocations
import Smews.System.Handshake
import Smews.System.FileSegments
import Smews.System.CometDelivery
import Smews.System.EmittedPackets
import Smews.System.Quiescence
import Smews.System.GeneratedResponse
import Smews.System.ReceivedPackets
import Smews.System.PacketBoundaries
import Smews.PanManager.Slip
import Smews.System.RemoteAddress
import Smews.System.EchoReplies
import Smews.System.UdpBindings
import Smews.Input.Matcher
import Smews.System.UrlRouting
import Smews.Core.Timers
import Smews.Core.CompressedIp
import Smews.System.AcknowledgedSegments
import Smews.System.SegmentSize
import Smews.System.ControlRecovery
import Smews.System.ContentLengths
import Smews.Core.ChecksumCalls
import Smews.Core.LinkLayerCache
import Smews.Targets.ArduinoSlip
import Smews.System.Retransmission
import Smews.System.Fairness
import Smews.System.RingIntegrity
import Smews.Targets.MbedSlip
import Smews.Targets.EthernetAddresses
import Smews.Apps.Dhcp
import Smews.Memory.AllocationSizes
import Smews.System.StreamDelivery
import Smews.System.WindowBookkeeping
import Smews.System.UrlArguments
import Smews.System.FileDelivery
import Smews.System.LifeCycle
import Smews.System.FailedSegments
import Smews.Library.Slot
import Smews.System.Resets
import Smews.System.Link
import Smews.Targets.ApduPackets
