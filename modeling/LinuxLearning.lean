import LinuxLearning.Lib.Transition
import LinuxLearning.Lib.BoundedQueue
import LinuxLearning.Lib.Table
import LinuxLearning.Lib.OnesComplement
import LinuxLearning.Lib.Monitor
import LinuxLearning.Lib.LinkedList
import LinuxLearning.Lib.CString
import LinuxLearning.Lib.Decimal
import LinuxLearning.Lib.Fairness
import LinuxLearning.Lib.DnsMessage
import LinuxLearning.Ustack.Memory
import LinuxLearning.Ustack.Checksum
import LinuxLearning.Ustack.State
import LinuxLearning.Ustack.TcpInput
import LinuxLearning.Ustack.SocketApi
import LinuxLearning.Ustack.System
import LinuxLearning.Ustack.TcpOutput
import LinuxLearning.Ustack.TcbStep
import LinuxLearning.Ustack.Buffers
import LinuxLearning.Ustack.Lifetime
import LinuxLearning.Ustack.UdpSockets
import LinuxLearning.Ustack.UdpOutput
import LinuxLearning.Ustack.StatusDiagram
import LinuxLearning.Ustack.AckedData
import LinuxLearning.Ustack.SendSequence
import LinuxLearning.Ustack.Handshake
import LinuxLearning.Ustack.Accept
import LinuxLearning.Ustack.Teardown
import LinuxLearning.Ustack.OutputOrder
import LinuxLearning.Ustack.Uniqueness
import LinuxLearning.Ustack.EndOfStream
import LinuxLearning.Ustack.ByteStream
import LinuxLearning.Ustack.Descriptors
import LinuxLearning.Ustack.Connection
import LinuxLearning.Ustack.Demultiplexing
import LinuxLearning.Ustack.UdpReception
import LinuxLearning.Ustack.RingNames
import LinuxLearning.Ustack.BufferOwnership
import LinuxLearning.Ustack.Encoding
import LinuxLearning.Ustack.FrameReads
import LinuxLearning.Ustack.FrameSize
import LinuxLearning.Ustack.FrameRoundTrip
import LinuxLearning.Ustack.Reception
import LinuxLearning.Ustack.WakeUp
import LinuxLearning.Ustack.UdpSending
import LinuxLearning.Ustack.ServerSide
import LinuxLearning.Ustack.ChecksumTest
import LinuxLearning.Ustack.ArpBindings
import LinuxLearning.Ustack.Atomicity
import LinuxLearning.Kni.NgChecksum
import LinuxLearning.Kni.ArpLock
import LinuxLearning.Tcp.Stack
import LinuxLearning.Tcp.Handlers
import LinuxLearning.Tcp.Refinement
import LinuxLearning.ThreadPool.Pool
import LinuxLearning.ThreadPool.Moves
import LinuxLearning.ThreadPool.TaskQueue
import LinuxLearning.ThreadPool.Shutdown
import LinuxLearning.ThreadPool.WorkersExit
import LinuxLearning.ThreadPool.Deletion
import LinuxLearning.ContactBook.Book
import LinuxLearning.ContactBook.RoundTrip
import LinuxLearning.ContactBook.Operations
import LinuxLearning.ContactBook.Invariant
import LinuxLearning.Reactor.Server
import LinuxLearning.Reactor.Conversation
import LinuxLearning.Reactor.ResponseOrder
import LinuxLearning.Reactor.Framing
import LinuxLearning.Reactor.RequestCount
import LinuxLearning.Dns.Query
import LinuxLearning.Dns.Encoding
import LinuxLearning.Echo.Servers
import LinuxLearning.Echo.Interchange
import LinuxLearning.ThreadServer.Server
import LinuxLearning.ThreadServer.HandOff
import LinuxLearning.Http.Client
import LinuxLearning.Http.Chunks
import LinuxLearning.ThreadPool.TakingOrder
import LinuxLearning.ThreadPool.Creation
import LinuxLearning.ContactBook.Failures
import LinuxLearning.ContactBook.Splitter
import LinuxLearning.Dns.HostNames
import LinuxLearning.TcpServer.EventLoop
import LinuxLearning.TcpServer.UnreadData
import LinuxLearning.Replies.Frame
import LinuxLearning.Replies.Icmp
import LinuxLearning.Replies.Ustack
import LinuxLearning.Replies.Answers
import LinuxLearning.Ustack.ListenerWakeUp
import LinuxLearning.Ddos.BitCount
import LinuxLearning.Ddos.Detector
import LinuxLearning.Lib.Runs
import LinuxLearning.Lists.Macros
import LinuxLearning.Ustack.FdBitmap
import LinuxLearning.WordCount.Count
import LinuxLearning.Lib.Tickets
import LinuxLearning.Lib.WrappingCounter
import LinuxLearning.Lib.PowerOfTwo
import LinuxLearning.Lib.Linearizability
import LinuxLearning.Ring.State
import LinuxLearning.Ring.Creation
import LinuxLearning.Ring.Positions
import LinuxLearning.Ring.Invariant
import LinuxLearning.Ring.Linearizable
import LinuxLearning.Ring.Progress
import LinuxLearning.Ring.Sequential
import LinuxLearning.Lib.Network
import LinuxLearning.Lib.TableTotal
import LinuxLearning.Ustack.UdpFrame
import LinuxLearning.Ustack.ArpOutput
import LinuxLearning.Ustack.Network
import LinuxLearning.Ustack.EndToEnd
import LinuxLearning.Ustack.UdpServer
import LinuxLearning.Ustack.Crashes
import LinuxLearning.Lib.ServiceQueue
import LinuxLearning.Ustack.OutputProgress
import LinuxLearning.Ustack.TcpServer
import LinuxLearning.ThreadPool.Execution
import LinuxLearning.Counter.Increments
