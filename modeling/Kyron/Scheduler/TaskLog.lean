import Mathlib.Algebra.BigOperators.Group.Finset.Defs
import Mathlib.Algebra.Order.Group.Multiset
import Kyron.Scheduler.AsyncWorkers

/-!
# `Kyron.Scheduler.TaskLog`: what becomes of the tasks given to the scheduler

The async workers with a log of their tasks.

* `submitted`: the tasks given to `spawn_from_runtime` and `spawn_outside_runtime`. A task that is
  woken and queued again is submitted again.
* `picked`: the tasks that `try_pick_work` has returned, with the worker that runs them.
* `refused`: the tasks of the pushes that found no room and panicked.
* `sinceGlobal` and `sinceDrivers`: how many tasks a worker has picked since it has last fetched
  from the global queue, and since it has last run `process_work` in `maybe_run_driver`.
-/

set_option autoImplicit false

namespace Kyron.Scheduler

variable {n : Nat} {K O : Type}

/-- The tasks that a worker holds between two queues: the one that it is about to push, and the
stolen ones that are not published yet. -/
def AsyncPc.inHand : AsyncPc n K → List K
  | .push _ task _ => [task]
  | .publish tasks _ _ => tasks
  | _ => []

namespace AsyncWorkers

/-- The tasks in the global queue, in the local queues and in the hands of the workers. -/
def held (s : AsyncWorkers n K O) : Multiset K :=
  s.global + ∑ w, ((s.queue w).items : Multiset K) + ∑ w, ((s.loop w).pc.inHand : Multiset K)

/-- The tasks that the action submits. -/
def submits : AsyncAction n K O → List K
  | .spawn _ task | .spawnOutside _ task => [task]
  | _ => []

/-- The tasks that the action refuses. -/
def refuses (s : AsyncWorkers n K O) : AsyncAction n K O → List K
  | .overflow w => (s.loop w).pc.inHand
  | .spawnOutside _ task => if s.global.length = s.globalCapacity then [task] else []
  | _ => []

/-- The task that the action picks to run, with the worker. -/
def picks (s : AsyncWorkers n K O) : AsyncAction n K O → List (Fin n × K)
  | .advance w =>
      match (s.loop w).pc with
      | .pop _ _ => ((s.queue w).take 1).1.map fun task => (w, task)
      | _ => []
  | _ => []

/-- The worker that fetches from the global queue with this action. -/
def fetches (s : AsyncWorkers n K O) : AsyncAction n K O → Option (Fin n)
  | .advance w =>
      match (s.loop w).pc with
      | .fetchMove _ _ => some w
      | _ => none
  | _ => none

/-- The worker that is done with `process_work` with this action. -/
def runsDrivers (s : AsyncWorkers n K O) : AsyncAction n K O → Option (Fin n)
  | .advance w =>
      match (s.loop w).pc with
      | .within .timers => some w
      | _ => none
  | _ => none

end AsyncWorkers

/-- The workers with the log. -/
structure TaskLog (n : Nat) (K O : Type) where
  workers : AsyncWorkers n K O
  submitted : List K
  picked : List (Fin n × K)
  refused : List K
  sinceGlobal : Fin n → Nat
  sinceDrivers : Fin n → Nat

namespace TaskLog

def start (s : AsyncWorkers n K O) : TaskLog n K O := ⟨s, [], [], [], fun _ => 0, fun _ => 0⟩

/-- The number of picks since an event: back to zero with the event, one more with a pick. -/
def since (count : Fin n → Nat) (event : Option (Fin n)) (picks : List (Fin n × K)) (w : Fin n) :
    Nat :=
  if event = some w then 0 else count w + picks.countP fun pick => pick.1 = w

variable [DecidableEq O]

def step (l : TaskLog n K O) (a : AsyncAction n K O) : Option (TaskLog n K O) :=
  (l.workers.step a).map fun workers =>
    { workers
      submitted := l.submitted ++ AsyncWorkers.submits a
      picked := l.picked ++ l.workers.picks a
      refused := l.refused ++ l.workers.refuses a
      sinceGlobal := since l.sinceGlobal (l.workers.fetches a) (l.workers.picks a)
      sinceDrivers := since l.sinceDrivers (l.workers.runsDrivers a) (l.workers.picks a) }

end TaskLog

end Kyron.Scheduler
