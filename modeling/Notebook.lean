import Notebook.Cyber.Base.BoundedQueueRuns
import Notebook.Cyber.Base.QueueSize
import Notebook.Cyber.Base.ReentrantRWLockOwner
import Notebook.Cyber.Base.ConcurrentObjectPool
import Notebook.Cyber.Base.AtomicHashMapRuns
import Notebook.Cyber.Base.BlockWait
import Notebook.Cyber.Task.TaskSubmission
import Notebook.Cyber.Task.TaskManager
import Notebook.Cyber.Timer.TimingWheelRace
import Notebook.Cyber.Transport.Shm.SegmentRead
import Notebook.Cyber.Transport.Shm.SegmentAttach
import Notebook.Cyber.Transport.Dispatcher.IntraDispatcher
import Notebook.Cyber.ServiceDiscovery.GraphDirection
import Notebook.ShmTest.AllocMemoryCount
import Notebook.ShmTest.LocklessSet
import Notebook.ShmTest.AnyAliveRace
import Notebook.ShmTest.CreateTermination
import Notebook.ShmTest.RoundRobin
import Notebook.ShmTest.MessageInfo
import Notebook.ShmTest.SegmentLayout
import Notebook.Hela.OneContinuation
import Notebook.Cyber.Transport.Shm.ConditionNotifierCalls
import Notebook.Cyber.Transport.Shm.ShmChannelRuns
import Notebook.Cyber.ServiceDiscovery.ChannelManagerGraph
import Notebook.Cyber.Service.ClientService
import Notebook.Cyber.ServiceDiscovery.Ownership
import Notebook.Cyber.Node.Reader
import Notebook.Cyber.Scheduler.SchedulerChoreography
import Notebook.Cyber.Scheduler.RemoveTask
import Notebook.Cyber.Logger.AsyncLoggerRuns
import Notebook.Cyber.Logger.AsyncLoggerFlag
import Notebook.Cyber.ClassLoader.LiveObjects
import Notebook.Cyber.ClassLoader.IsLibraryLoaded
import Notebook.Cyber.Node.JoinTheTopology
import Notebook.Cyber.Data.ChannelBuffer
import Notebook.Cyber.Base.Signal
import Notebook.Cyber.Transport.Message.IdentityHash
import Notebook.Cyber.Transport.HistoryChannel
import Notebook.Cyber.ServiceDiscovery.TopologyManager
import Notebook.Hela.SchedulingRound
import Notebook.Hela.Backoff
import Notebook.Hela.RequestBounds
import Notebook.Hela.ProgressCounters
import Notebook.Cyber.Timer.PeriodicTimer
