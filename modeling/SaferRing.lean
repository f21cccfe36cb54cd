import SaferRing.Batch.Isolation
import SaferRing.Retention
import SaferRing.Delivery
import SaferRing.Exactness
import SaferRing.Ids
import SaferRing.Drop
import SaferRing.Batch.Order
import SaferRing.Batch.Borrowing
import SaferRing.Batch.Outcome
import SaferRing.Batch.Failure
import SaferRing.Batch.Cancelled
import SaferRing.Batch.Single
import SaferRing.Exclusive
import SaferRing.Mixed
import SaferRing.Backend.IoUring
import SaferRing.Backend.Epoll
import SaferRing.Backend.File
import SaferRing.Backend.Contract
import SaferRing.Compat
import SaferRing.Compat.Read
import SaferRing.Compat.Write
import SaferRing.Compat.Sequential
import SaferRing.Library.SlotTable
import SaferRing.Registry
import SaferRing.Registry.InUse
import SaferRing.Registry.Users
import SaferRing.Registry.Lookup
import SaferRing.Registry.Live
import SaferRing.Registry.Stale
import SaferRing.Ownership.Sharing
import SaferRing.Pool
import SaferRing.Pool.Conservation
import SaferRing.Tracking
import SaferRing.ById
import SaferRing.Wakers
import SaferRing.Wakers.Exact
import SaferRing.Batch.Cycles
import SaferRing.Batch.Construction
import SaferRing.Refusal
import SaferRing.Batch.Exact
import SaferRing.Library.RefCell
import SaferRing.Polling
import SaferRing.Draining
import SaferRing.Batch.Abandoned
import SaferRing.Buffers
import SaferRing.Batch.WakeUp
import SaferRing.Batch.Resolved
import SaferRing.Library.Fallible
import SaferRing.Registry.Atomic
import SaferRing.BufferGroup
import SaferRing.BufferGroup.Exclusive
import SaferRing.Pool.Uses
import SaferRing.Pool.Sizes
import SaferRing.Pool.Statistics
import SaferRing.SafeOperations.Owner
import SaferRing.Backend.Lengths
import SaferRing.Compat.Recursion
import SaferRing.Compat.Intact
import SaferRing.Batch.Dependents
import SaferRing.Allocation
import SaferRing.KernelVersion
import SaferRing.Logging.Metrics
import SaferRing.Registrations
import SaferRing.CpuList
import SaferRing.Config
import SaferRing.Features
import SaferRing.Library.Json.Strings
import SaferRing.Setup
import SaferRing.Library.Json.Tokens
import SaferRing.Library.Json.Values
import SaferRing.Library.Json.Objects
import SaferRing.Logging.Json
import SaferRing.Library.CompareExchange
import SaferRing.Perf
import SaferRing.Perf.Exact
import SaferRing.Perf.Stats
import SaferRing.Perf.Memory
import SaferRing.IoFutures
import SaferRing.IoFutures.Once
import SaferRing.IoFutures.Waiting
import SaferRing.Backend.Conservation
import SaferRing.Refinement
import SaferRing.Features.Detection
import SaferRing.Library.Lines
import SaferRing.Logging.Runs
import SaferRing.Logging.File
import SaferRing.Numa
