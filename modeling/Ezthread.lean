import Ezthread.LockFreeStackHistory
import Ezthread.SpscQueue
import Ezthread.MpmcTickets
import Ezthread.Barrier
import Ezthread.Reduce
import Ezthread.PoolShutdown
import Ezthread.ParallelSort
import Ezthread.MpmcSerial
import Ezthread.BarrierRounds
import Ezthread.PoolFutures
import Ezthread.PoolPause
import Ezthread.PoolPending
import Ezthread.Algorithms
import Ezthread.AlgorithmExits
import Ezthread.BackPointers
import Ezthread.DeadlockDetector
import Ezthread.Latch
import Ezthread.Mutex
import Ezthread.OnceFlag
import Ezthread.TimedWaits
import Ezthread.TimerRunning
import Ezthread.WorkCompletion
import Ezthread.ChunkArithmetic
import Ezthread.FutureChain
import Ezthread.MpmcRefusals
import Ezthread.MpmcSize
import Ezthread.MpmcThrows
import Ezthread.NestedBudgets
import Ezthread.NestedDeadlock
import Ezthread.PackedReduce
import Ezthread.PoolDrift
import Ezthread.PoolStops
import Ezthread.SortFailures
import Ezthread.Event
import Ezthread.Handles
import Ezthread.KernelObjects
import Ezthread.LockRecords
import Ezthread.Lockstep
import Ezthread.MpmcWrap
import Ezthread.OnceNesting
import Ezthread.PoolConstruction
import Ezthread.SpscSize
import Ezthread.ThreadObjects
import Ezthread.WaitAll
import Ezthread.WaitAny
import Ezthread.ConditionWaits
import Ezthread.LockFreeStackNodes
import Ezthread.ThreadLocals
import Ezthread.LockedBlocks
import Ezthread.BlockRefinements
import Ezthread.QueueEmptiness
import Ezthread.RWLock
import Ezthread.ThreadLocalContents
import Ezthread.ThreadLocalPointers
import Ezthread.Ownership
import Ezthread.AsyncRun
import Ezthread.Permits
import Ezthread.Semaphore
import Ezthread.EventSignals
import Ezthread.PoolOrder
import Ezthread.PoolWakeups
import Ezthread.PromiseObjects
import Ezthread.SpinLock
import Ezthread.Contention
import Ezthread.StackProgress
import Ezthread.MpmcProgress
import Ezthread.Fifo
import Ezthread.MpmcLinear
