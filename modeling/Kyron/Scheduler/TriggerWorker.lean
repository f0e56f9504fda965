import Kyron.Containers.TriggerQueue
import Kyron.Task.AsyncTask

/-!
# `Kyron.Scheduler.TriggerWorker`: the tasks of a dedicated worker or of the safety worker

The model of the loops in `scheduler/workers/dedicated_worker.rs` and
`scheduler/workers/safety_worker.rs`, with the schedulers in `scheduler/scheduler_mt.rs` that push
to their queue. One worker takes tasks from a `TriggerQueue` through its local storage. Each of
the tasks is a `Task.Sys`, in which `none` is the worker and `some u` is any other activity.

The two workers differ in who pushes to the queue, and in what a refused push does.

* A task of a dedicated worker comes back to the queue by every wake and by the worker itself.
  `DedicatedSchedulerLocalInner::respawn` and `run_task` drop the result of the push.
  `respawn_into_safety` is an unrecoverable error. The spawn asserts that the push succeeded.
* A task of the async workers comes to the safety worker by a safety wake. A refused push is
  an unrecoverable error there. When the safety worker pushes the task back, it drops the
  result. All other pushes go to the queues of the async workers, which panic when they are full.

The lane of the worker in `Task.Sys` is the trigger queue with the local storage. For the safety
worker the normal lane is the queues of the async workers. Stopping the worker is left out.
-/

set_option autoImplicit false

namespace Kyron.Scheduler

open Kyron.Containers
open Kyron.Task

/-- The two kinds of workers with a trigger queue. -/
inductive TriggerKind
  | dedicated
  | safety
  deriving DecidableEq, Repr

/-- The lane of `Task.Sys` on which the tasks reach the worker. -/
def TriggerKind.lane : TriggerKind → Lane
  | .dedicated => .normal
  | .safety => .safety

/-- Where the loop of the worker stands when it does not run a task. -/
inductive LoopPc
  /-- Before the local storage is looked at. -/
  | run
  /-- In `pop_blocking_with_timeout`. -/
  | wait
  deriving DecidableEq, Repr

/-- The worker with its queue and the tasks `K`. `current` is the task that it has run last.
`fatal` says that an unrecoverable error, a panic or a failed assertion was reported. -/
structure TriggerWorker (K U : Type) where
  kind : TriggerKind
  queue : TriggerQueue K
  localStorage : List K
  loop : LoopPc
  current : Option K
  task : K → Sys (Option U)
  spawned : K → Bool
  fatal : Bool

inductive TriggerAction (K U : Type)
  /-- A task is spawned. `fits` says whether the queue of the async workers has room. -/
  | spawn (k : K) (fits : Bool)
  /-- An activity of a task makes a step that does not push. -/
  | act (k : K) (a : Action (Option U))
  /-- An activity of a task pushes it. -/
  | push (k : K) (t : Option U) (fits : Bool)
  /-- The worker makes the next step of its loop. -/
  | work
  /-- The blocking pop of the worker times out. -/
  | timeout
  deriving DecidableEq, Repr

/-- `LOCAL_STORAGE_SIZE_REDUCTION`. -/
def localStorageSizeReduction : Nat := 8

namespace TriggerWorker

variable {K U : Type} [DecidableEq K] [DecidableEq U]

/-- A worker before the first spawn. A task that is not spawned yet is in no queue. -/
def new (kind : TriggerKind) (capacity : Nat) : TriggerWorker K U where
  kind := kind
  queue := .new capacity
  localStorage := []
  loop := .run
  current := none
  task := fun _ => { Sys.spawned kind.lane true with entries := fun _ => 0 }
  spawned := fun _ => false
  fatal := false

/-- The size of the local storage. -/
def localSize (s : TriggerWorker K U) : Nat :=
  max 1 (s.queue.capacity / localStorageSizeReduction)

def setTask (s : TriggerWorker K U) (k : K) (sys : Sys (Option U)) : TriggerWorker K U :=
  { s with task := Function.update s.task k sys }

/-- The worker does not run a task. -/
def isFree (s : TriggerWorker K U) : Bool :=
  match s.current with
  | none => true
  | some k => (s.task k).pc none = .idle

/-- A push to the trigger queue. When it is refused the activity goes on at `refused`. -/
def pushTrigger (s : TriggerWorker K U) (k : K) (t : Option U) (refused : Pc) :
    TriggerWorker K U :=
  match s.queue.push k with
  | (queue, true) =>
      { s with queue }.setTask k (((s.task k).enqueue s.kind.lane).goto t .idle)
  | (queue, false) =>
      { s with queue, fatal := s.fatal || decide (refused = Pc.overflow) }.setTask k
        ((s.task k).goto t refused)

/-- A push to the queues of the async workers. -/
def pushAsync (s : TriggerWorker K U) (k : K) (t : Option U) (fits : Bool) :
    Option (TriggerWorker K U) :=
  ((s.task k).push t fits).map fun sys => { s with fatal := s.fatal || !fits }.setTask k sys

/-- A push of the task by its scheduler or by the worker that has polled it. -/
def push (s : TriggerWorker K U) (k : K) (t : Option U) (fits : Bool) :
    Option (TriggerWorker K U) :=
  match s.kind, (s.task k).pc t with
  | .dedicated, .respawn .normal => some (s.pushTrigger k t .idle)
  | .dedicated, .repush .normal => some (s.pushTrigger k t .idle)
  | .dedicated, .respawn .safety =>
      some ({ s with fatal := true }.setTask k ((s.task k).goto t .overflow))
  | .safety, .respawn .safety => some (s.pushTrigger k t .overflow)
  | .safety, .repush .safety => some (s.pushTrigger k t .idle)
  | .safety, .respawn .normal => s.pushAsync k t fits
  | .safety, .repush .normal => s.pushAsync k t fits
  | _, _ => none

/-- A spawn of a task. -/
def spawn (s : TriggerWorker K U) (k : K) (fits : Bool) : Option (TriggerWorker K U) :=
  if s.spawned k then none
  else
    let s := { s with spawned := Function.update s.spawned k true }
    match s.kind with
    | .dedicated =>
        match s.queue.push k with
        | (queue, true) => some ({ s with queue }.setTask k ((s.task k).enqueue .normal))
        | (_, false) => some { s with fatal := true }
    | .safety =>
        if fits then some (s.setTask k ((s.task k).enqueue .normal))
        else some { s with fatal := true }

/-- The steps of `Task.Sys` that leave the trigger queue alone. The worker only polls. The async
workers take tasks from their own queues, and have none of the tasks of a dedicated worker. -/
def leavesQueue (kind : TriggerKind) : Action (Option U) → Bool
  | .wake t | .wakeSafety t | .abort t | .attach t => t.isSome
  | .pop t lane => t.isSome && lane == .normal && kind == .safety
  | .push _ _ => false
  | .advance _ | .poll _ _ | .takeResult => true

/-- The next step of the loop of the worker. -/
def work (s : TriggerWorker K U) : Option (TriggerWorker K U) :=
  if s.isFree then
    match s.loop with
    | .run =>
        match s.localStorage.getLast? with
        | some k =>
            ((s.task k).step (.pop none s.kind.lane)).map fun sys =>
              { s with localStorage := s.localStorage.dropLast, current := some k }.setTask k sys
        | none =>
            let (queue, localStorage) := s.queue.popIntoVec s.localSize s.localStorage
            some { s with
              queue
              localStorage
              loop := if localStorage.isEmpty then .wait else .run }
    | .wait =>
        s.queue.pop.map fun (k, queue) =>
          { s with queue, localStorage := s.localStorage ++ [k], loop := .run }
  else none

def step (s : TriggerWorker K U) : TriggerAction K U → Option (TriggerWorker K U)
  | .spawn k fits => s.spawn k fits
  | .act k a =>
      if s.spawned k && leavesQueue s.kind a then ((s.task k).step a).map (s.setTask k) else none
  | .push k t fits => s.push k t fits
  | .work => s.work
  | .timeout => if s.loop = .wait then some { s with loop := .run } else none

end TriggerWorker

end Kyron.Scheduler
