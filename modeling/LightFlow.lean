import LightFlow.Lib.Machine
import LightFlow.Lib.Counting
import LightFlow.Lib.Acyclic
import LightFlow.Lib.Threads
import LightFlow.Memory.ArenaRequests
import LightFlow.Memory.Balanced
import LightFlow.Memory.FromBuffer
import LightFlow.Memory.OneOwner
import LightFlow.Lib.Segment
import LightFlow.Lib.BreadthFirst
import LightFlow.Task.Graph
import LightFlow.Task.Wiring
import LightFlow.Task.Declaration
import LightFlow.Task.Subflow
import LightFlow.Task.Execute
import LightFlow.Task.Run
import LightFlow.Task.Workload
import LightFlow.Task.Ledger
import LightFlow.Task.LedgerStep
import LightFlow.Task.LedgerSplice
import LightFlow.Task.Balance
import LightFlow.Task.Outcome
import LightFlow.Task.Semantics
import LightFlow.Task.Walk
import LightFlow.Task.Barrier
import LightFlow.Task.Rerun
import LightFlow.Task.Account
import LightFlow.Task.Turns
import LightFlow.Task.Rounds
import LightFlow.Task.Straight
import LightFlow.Task.Loop
import LightFlow.Task.Rearm
import LightFlow.Task.Laps
import LightFlow.Task.Iterate
import LightFlow.Task.LoopRun
import LightFlow.Task.LoopEnd
import LightFlow.Task.Collect
import LightFlow.Task.OneLoop
import LightFlow.Task.StructuredLoop
import LightFlow.Task.NestedLoops
import LightFlow.Task.LoopEntry
import LightFlow.Task.LoopExit
import LightFlow.Task.LinearTasks
import LightFlow.Lib.Tiling
import LightFlow.Task.Building
import LightFlow.Task.BuildingSteps
import LightFlow.Task.ParallelFor
import LightFlow.Task.OutOfMemory
import LightFlow.Task.Branches
import LightFlow.Task.BoundedSearch
import LightFlow.Task.Announcements
import LightFlow.Task.HandedOver
import LightFlow.Task.InFlight
import LightFlow.Task.Ownership
import LightFlow.Task.Lifetime
import LightFlow.Gpu.Reactor
import LightFlow.Gpu.Claims
import LightFlow.Gpu.Signals
import LightFlow.Gpu.Sweeps
import LightFlow.Gpu.WaitSet
import LightFlow.Gpu.WaitPoints
import LightFlow.Gpu.SideBySide
import LightFlow.Scheduler.MainThread
import LightFlow.Scheduler.SubmissionOrder
import LightFlow.Scheduler.ChaseLevDeque
import LightFlow.Scheduler.DequeLists
import LightFlow.Scheduler.DequeWrap
import LightFlow.Scheduler.Pool
import LightFlow.Scheduler.PoolStep
import LightFlow.Scheduler.PoolMoves
import LightFlow.Scheduler.Parking
import LightFlow.Scheduler.Notifying
import LightFlow.Scheduler.WakeUps
import LightFlow.Scheduler.Holdings
import LightFlow.Scheduler.Shutdown
import LightFlow.Scheduler.IoQueue
import LightFlow.Scheduler.HandOver
import LightFlow.Scheduler.BatchRetry
import LightFlow.Scheduler.MpmcOrder
import LightFlow.Lib.Areas
import LightFlow.Scheduler.BatchSteals
import LightFlow.Scheduler.SingleSteals
import LightFlow.Scheduler.PoolOperations
import LightFlow.Memory.BlocksApart
import LightFlow.Lib.Objects
import LightFlow.Lib.Flags
import LightFlow.Vulkan.Stages
import LightFlow.Vulkan.Submission
import LightFlow.Vulkan.ReadBack
import LightFlow.Vulkan.ArenaSubmits
import LightFlow.Vulkan.SubmitsStand
import LightFlow.Gpu.WaitingGraph
import LightFlow.Gpu.WaitRun
import LightFlow.Gpu.WaitAccount
import LightFlow.Gpu.WaitClaims
import LightFlow.Gpu.WaitLaw
import LightFlow.Gpu.WaitOutcome
