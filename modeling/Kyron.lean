import Kyron.Proofs.Channels.Broadcast
import Kyron.Proofs.Containers.ListOps
import Kyron.Proofs.Containers.ReusablePool
import Kyron.Proofs.Containers.Sequential
import Kyron.Proofs.Containers.SpmcArithmetic
import Kyron.Proofs.Containers.SpmcOverflow
import Kyron.Proofs.Containers.TriggerSystem
import Kyron.Proofs.Futures.Leaves
import Kyron.Proofs.Futures.Select
import Kyron.Proofs.Futures.SleepRun
import Kyron.Proofs.Io.BridgedFd
import Kyron.Proofs.Io.FdTable
import Kyron.Proofs.Io.FdsAccess
import Kyron.Proofs.Io.PollReadiness
import Kyron.Proofs.Io.RawReadBuf
import Kyron.Proofs.Io.ReadFuture
import Kyron.Proofs.Io.Registrations
import Kyron.Proofs.Io.WakeAll
import Kyron.Proofs.Scheduler.IoAccess
import Kyron.Proofs.Scheduler.Parked
import Kyron.Proofs.Scheduler.Parking
import Kyron.Proofs.Scheduler.Respawn
import Kyron.Proofs.Scheduler.TaskLog
import Kyron.Proofs.Scheduler.Ticks
import Kyron.Proofs.Scheduler.TriggerWorker
import Kyron.Proofs.Scheduler.Unpark
import Kyron.Proofs.Task.JoinHandle
import Kyron.Proofs.Task.References
import Kyron.Proofs.Task.SafetyJoin
import Kyron.Proofs.Threading.ThreadWaitBarrier
import Kyron.Proofs.Time.Calls
import Kyron.Proofs.Time.Clock
import Kyron.Proofs.Time.Timers
