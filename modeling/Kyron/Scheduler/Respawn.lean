import Kyron.Containers.Sequential

/-!
# `Kyron.Scheduler.Respawn`: putting a woken task back into a queue

The model of `AsyncScheduler::respawn` in `scheduler/scheduler_mt.rs` with
`spawn_from_runtime` and `spawn_outside_runtime`, and of `Handler::try_with_local_producer` in
`scheduler/context.rs`. A runtime has any number of engines. Each engine has one
`AsyncScheduler` with its global queue, and async workers with their local queues.

`respawn` is called on the scheduler of the task, but from any thread. The thread's handler, if
it has one, names the engine and the worker of the thread.
-/

set_option autoImplicit false

namespace Kyron.Scheduler

open Kyron.Containers

/-- The queues of the engines `E`, each with workers `W`, for tasks `T`. -/
structure Queues (E W T : Type) where
  /-- `AsyncScheduler::global_queue` of each engine. -/
  globalQueue : E → Queue T
  /-- The local queue of each async worker. -/
  localQueue : E → W → SpmcStealQueue T

/-- `HandlerImpl` in the context of a thread: an async worker of an engine, with its local
producer, or a dedicated worker of an engine. -/
inductive Handler (E W : Type)
  | async (engine : E) (worker : W)
  | dedicated (engine : E)
  deriving DecidableEq, Repr

/-- How a spawn ends. -/
inductive Outcome (E W : Type)
  /-- The task is queued, and `try_notify_siblings_workers(Some(current))` of the scheduler is
  called. -/
  | notifySiblings (scheduler : E) (current : W)
  /-- The task is queued, and `try_notify_siblings_worker_unconditional(None)` of the scheduler
  is called. -/
  | notifyUnconditional (scheduler : E)
  | panic (message : String)
  deriving DecidableEq, Repr

namespace Queues

variable {E W T : Type} [DecidableEq E] [DecidableEq W]

def setGlobal (s : Queues E W T) (e : E) (m : Queue T) : Queues E W T :=
  { s with globalQueue := Function.update s.globalQueue e m }

def setLocal (s : Queues E W T) (e : E) (w : W) (q : SpmcStealQueue T) : Queues E W T :=
  { s with localQueue :=
      Function.update s.localQueue e (Function.update (s.localQueue e) w q) }

/-- `spawn_from_runtime` of the scheduler `self`, on the local queue of a worker. The value that
does not fit goes with older ones to the global queue of `self`. -/
def spawnFromRuntime (s : Queues E W T) (self : E) (task : T) (engine : E) (worker : W) :
    Queues E W T × Outcome E W :=
  match Sequential.push (s.localQueue engine worker) task (s.globalQueue self) with
  | (q, m, none) =>
      ((s.setLocal engine worker q).setGlobal self m, .notifySiblings self worker)
  | (q, m, some _) =>
      ((s.setLocal engine worker q).setGlobal self m,
        .panic "Cannot push to queue anymore, overflow!")

/-- `spawn_outside_runtime` of the scheduler `self`. -/
def spawnOutsideRuntime (s : Queues E W T) (self : E) (task : T) : Queues E W T × Outcome E W :=
  match (s.globalQueue self).push task with
  | (m, true) => (s.setGlobal self m, .notifyUnconditional self)
  | (m, false) =>
      (s.setGlobal self m, .panic "Cannot push to global queue anymore, overflow!")

end Queues

/-- `Handler::try_with_local_producer`: the local producer of an async worker, or none. -/
def Handler.tryWithLocalProducer {E W α : Type} (handler : Handler E W)
    (a : Option (E × W) → α) : α :=
  match handler with
  | .async engine worker => a (some (engine, worker))
  | .dedicated _ => a none

namespace Queues

variable {E W T : Type} [DecidableEq E] [DecidableEq W]

/-- `respawn` of the scheduler `self`, from a thread with the given handler (`ctx_get_handler`).
A thread outside of the runtime has none. -/
def respawn (s : Queues E W T) (self : E) (handler : Option (Handler E W)) (task : T) :
    Queues E W T × Outcome E W :=
  match handler with
  | some handler =>
      handler.tryWithLocalProducer fun
        | some (engine, worker) => s.spawnFromRuntime self task engine worker
        | none => s.spawnOutsideRuntime self task
  | none => s.spawnOutsideRuntime self task

end Queues

end Kyron.Scheduler
