import OsdpMaster.Crc16
import OsdpMaster.Protocol
import OsdpMaster.ProtocolRead
import OsdpMaster.ReadLaw
import OsdpMaster.FrameSpec
import OsdpMaster.ReadInput
import OsdpMaster.ReadSpec
import OsdpMaster.ReadRefinement
import OsdpMaster.ReadDeadline
import OsdpMaster.ReadTimer
import OsdpMaster.FlyBy
import OsdpMaster.CrcDetection
import OsdpMaster.ProtocolWrite
import OsdpMaster.WriteSpec
import OsdpMaster.PortWrites
import OsdpMaster.Pauses
import OsdpMaster.RoundTrip
import OsdpMaster.LongestFrame
import OsdpMaster.Lib.Trace
import OsdpMaster.Split
import OsdpMaster.Slave
import OsdpMaster.SlavePoll
import OsdpMaster.Bus
import OsdpMaster.ProtocolKept
import OsdpMaster.SlaveRun
import OsdpMaster.CallHistory
import OsdpMaster.QueueHistory
import OsdpMaster.ReplyBounds
import OsdpMaster.MessageBounds
import OsdpMaster.Retransmission
import OsdpMaster.Status
import OsdpMaster.SequenceNumbers
import OsdpMaster.OfflineDetection
import OsdpMaster.Pacing
import OsdpMaster.RetryBound
import OsdpMaster.Routing
import OsdpMaster.Addresses
import OsdpMaster.Lib.RoundRobin
import OsdpMaster.Selection
import OsdpMaster.Prepcom
import OsdpMaster.Descriptors
import OsdpMaster.Lib.RefCount
import OsdpMaster.Blob
import OsdpMaster.BlobInvariant
import OsdpMaster.BlobCount
import OsdpMaster.BlobFrame
import OsdpMaster.BlobShelf
import OsdpMaster.BlobBoxes
import OsdpMaster.Lib.Hex
import OsdpMaster.BlobStream
import OsdpMaster.BlobHex
import OsdpMaster.Lib.LittleEndian
import OsdpMaster.Lib.StopAndWait
import OsdpMaster.Filesend
import OsdpMaster.Upload
import OsdpMaster.UploadRefusal
import OsdpMaster.TimespecOps
import OsdpMaster.MemZero
import OsdpMaster.SplitJoin
import OsdpMaster.Lib.Numeral
import OsdpMaster.Lib.Bits
import OsdpMaster.Decoder
import OsdpMaster.CardValue
import OsdpMaster.DeviceId
import OsdpMaster.SyncQueue
import OsdpMaster.CommandDelivery
import OsdpMaster.Lib.Monitor
import OsdpMaster.HalfDuplex
import OsdpMaster.BusStep
import OsdpMaster.WireHistory
import OsdpMaster.CallSafety
import OsdpMaster.Lib.Potential
import OsdpMaster.CallBound
import OsdpMaster.ReplyDelivery
import OsdpMaster.Lib.Reduction
import OsdpMaster.Interference
import OsdpMaster.WholeProcess
import OsdpMaster.DataLog
import OsdpMaster.RetainedStatus
import OsdpMaster.StatusThreads
import OsdpMaster.DeliveryProgress
import OsdpMaster.DisabledSlave
import OsdpMaster.Lib.Assembly
import OsdpMaster.UploadDelivery
import OsdpMaster.Lib.WordSum
import OsdpMaster.ChecksumDetection
import OsdpMaster.Decoding
import OsdpMaster.Stations
import OsdpMaster.Startup
import OsdpMaster.Lib.TopicFilter
import OsdpMaster.Subscriptions
