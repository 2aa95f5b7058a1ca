import RLock.Lib.KeyedStore
import RLock.Lib.Double
import RLock.Redis.Keyspace
import RLock.Redis.Lua
import RLock.Redis.Commands
import RLock.Scripts.Scripts
import RLock.Scripts.Preflight
import RLock.Scripts.Slots
import RLock.Scripts.Writes
import RLock.Scripts.Effects
import RLock.Scripts.Keys
import RLock.Scripts.Failure
import RLock.Scripts.Exclusion
import RLock.Lib.Decimal
import RLock.Lib.LazyTable
import RLock.Scripts.Tables
import RLock.Scripts.Leases
import RLock.Scripts.Passes
import RLock.Scripts.Owners
import RLock.Scripts.Release
import RLock.Lib.Machine
import RLock.Lib.Fleet
import RLock.Lib.Watch
import RLock.Lib.Fairness
import RLock.Lib.Channel
import RLock.Lib.Backoff
import RLock.Client.Options
import RLock.Client.Builder
import RLock.Client.Request
import RLock.Client.LockKeys
import RLock.Client.Lease
import RLock.Client.Trace
import RLock.Client.Waiting
import RLock.Client.Guard
import RLock.Client.Lifecycle
import RLock.Client.Clocked
import RLock.Client.Retry
import RLock.Client.KeepAlive
import RLock.Lib.Debt
import RLock.Client.Acquisition
import RLock.Client.Claim
import RLock.Client.Outcome
import RLock.Client.Ending
import RLock.Async.Acquire
import RLock.Async.Handoff
import RLock.Async.History
import RLock.Async.Outcome
import RLock.Async.Ending
import RLock.Async.Errors
import RLock.Async.Deadline
import RLock.Async.Claim
import RLock.Sync.Pool
import RLock.Sync.Acquire
import RLock.Sync.Handoff
import RLock.Sync.Outcome
import RLock.Sync.Ending
import RLock.Sync.Errors
import RLock.Sync.Claim
import RLock.Manager.Queue
import RLock.Manager.Drain
import RLock.Async.Manager
import RLock.Async.Leader
import RLock.Async.Shutdown
import RLock.Async.Seal
import RLock.Sync.Manager
import RLock.Sync.Leader
import RLock.Sync.Shutdown
import RLock.Sync.Retry
import RLock.Sync.Seal
import RLock.Manager.Barrier
import RLock.Manager.Releases
import RLock.Manager.Outcome
import RLock.Manager.Seal
import RLock.World.Network
import RLock.World.Clients
import RLock.World.Conservative
import RLock.World.Holders
