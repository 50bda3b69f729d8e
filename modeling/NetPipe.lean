import NetPipe.Driver.Schedule
import NetPipe.Driver.Burst
import NetPipe.Driver.Nocache
import NetPipe.Driver.Mirror
import NetPipe.Driver.Collectives
import NetPipe.Driver.Delivery
import NetPipe.Mpi.Protocol
import NetPipe.Library.StraightLine
import NetPipe.Library.TagMatch
import NetPipe.Mpi.Tags
import NetPipe.Mpi.Doubles
import NetPipe.Driver.Accepted
import NetPipe.Tcp.Transfer
import NetPipe.Tcp.Workload
import NetPipe.Theo.Time
import NetPipe.Ibverbs.Datagram
import NetPipe.Ibverbs.Pollwait
import NetPipe.Disk.EndOfFile
import NetPipe.Driver.Trials
import NetPipe.MpLite.SendSlots
import NetPipe.Library.RwLock
import NetPipe.MpLite.Broadcast
import NetPipe.MpLite.Global
import NetPipe.MpLite.Gather
import NetPipe.MpLite.WindowLock
import NetPipe.MpLite.Bonding
import NetPipe.MpLite.Handles
import NetPipe.MpLite.Queues
import NetPipe.MpLite.InUse
import NetPipe.MpLite.Matching
import NetPipe.Library.Frames
import NetPipe.MpLite.Framing
import NetPipe.MpLite.FramingRuns
import NetPipe.Library.LinkedList
import NetPipe.MpLite.MsgIds
import NetPipe.MpLite.Gets
import NetPipe.MpLite.RoundTrip
import NetPipe.MpLite.SignalBalance
import NetPipe.MpLite.FenceRuns
import NetPipe.MpLite.ActiveTargetRuns
import NetPipe.Library.Pieces
import NetPipe.MpLite.OsRequests
import NetPipe.MpLite.OsAccumulate
import NetPipe.MpLite.TcpSync
import NetPipe.MpLite.SmpSync
import NetPipe.MpLite.Fifo
import NetPipe.MpLite.SmpRecv
import NetPipe.MpLite.ShmPool
import NetPipe.MpLite.Protect
import NetPipe.MpLite.Ssend
import NetPipe.Driver.Aggregate
import NetPipe.Driver.Summary
import NetPipe.Driver.IntRange
import NetPipe.Driver.Increasing
import NetPipe.MpLite.Cartesian
import NetPipe.MpLite.CartCreate
import NetPipe.MpLite.FortranStatus
import NetPipe.MpLite.LockOrder
import NetPipe.MpLite.LockQueue
import NetPipe.MpLite.EntryLife
import NetPipe.Disk.Strings
import NetPipe.MpLite.MpiCollectives
import NetPipe.MpLite.Shift
import NetPipe.MpLite.Probe
import NetPipe.Driver.Copies
import NetPipe.MpLite.TimeReport
import NetPipe.MpLite.Gfscanf
import NetPipe.MpLite.ConfigValues
import NetPipe.MpLite.Slots
import NetPipe.MpLite.MemBlocks
import NetPipe.Library.RedBlack
import NetPipe.Library.FirstMatch
import NetPipe.Vapi.MrRuns
import NetPipe.Vapi.EagerRuns
import NetPipe.Vapi.RendezvousRuns
import NetPipe.Library.RingCounts
import NetPipe.Vapi.SyncRing
