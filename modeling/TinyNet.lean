import TinyNet.Library.MachineInt
import TinyNet.Library.FixedBuffer
import TinyNet.Epoll.FramingLoop
import TinyNet.Library.StepSystem
import TinyNet.Library.StreamFraming
import TinyNet.Epoll.Conservation
import TinyNet.Epoll.Chunking
import TinyNet.SendBuffer.Model
import TinyNet.SendBuffer.Concurrent
import TinyNet.SendBuffer.Sequential
import TinyNet.Epoll.WriteInterest
import TinyNet.AppThread.SpscQueue
import TinyNet.Library.Ownership
import TinyNet.AppThread.ObjectPool
import TinyNet.AppThread.Handoff
import TinyNet.AppThread.Invariant
import TinyNet.AppThread.Delivery
import TinyNet.Processor.Model
import TinyNet.Processor.Invariant
import TinyNet.Processor.Release
import TinyNet.Processor.Messages
import TinyNet.Epoll.Disconnect
import TinyNet.Library.DescriptorTable
import TinyNet.Processor.Teardown
import TinyNet.Service.Descriptors
import TinyNet.Service.ClosedOnce
import TinyNet.Service.Sharing
import TinyNet.Service.Discipline
import TinyNet.Kqueue.Agreement
import TinyNet.Epoll.Termination
import TinyNet.Kqueue.Filters
import TinyNet.Backends.FramingLoop
import TinyNet.Backends.Bounds
import TinyNet.Backends.Overflow
import TinyNet.Kqueue.Stream
import TinyNet.SendBuffer.Acceptance
import TinyNet.ObjectPool.Exclusive
import TinyNet.Kqueue.Workers
import TinyNet.Library.LinkedList
import TinyNet.ObjectPool.NonNull
import TinyNet.ObjectPool.Sequential
import TinyNet.Pool.Model
import TinyNet.Service.Reports
import TinyNet.Pool.FreeList
import TinyNet.ObjectPool.LinkedList
import TinyNet.ObjectPool.Linearization
import TinyNet.Service.StartAgreement
import TinyNet.Connection.Echo
import TinyNet.Library.Holders
import TinyNet.MpmcQueue.Fifo
import TinyNet.Processor.Shutdown
import TinyNet.Library.DeferredLinks
import TinyNet.Mpscq.Fifo
import TinyNet.SPSCQueue.Fifo
import TinyNet.Session.Establishing
import TinyNet.Session.Iocp
import TinyNet.AppThread.SpscCalls
import TinyNet.Kqueue.Reuse
import TinyNet.Connection.DirectSend
import TinyNet.ObjectPool.Calls
import TinyNet.Service.Isolation
import TinyNet.Session.IocpData
