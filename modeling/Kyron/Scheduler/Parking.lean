import Mathlib.Data.List.FinRange
import Mathlib.Data.Fintype.Basic
import Kyron.Time.Timers

/-!
# `Kyron.Scheduler.Parking`: who sleeps on the next timer

The model of `Drivers::park` and `register_timeout` in `scheduler/driver.rs`, with the parts of
`WorkerInteractor` (`workers/worker_types.rs`) and of the async scheduler that put a worker to
sleep and wake it. One engine has `n` async workers and `m` dedicated workers. Threads
interleave at every access to shared memory: the lock of the time driver,
`next_promised_wakeup`, the state byte of a worker and the list of parked workers.

* The timers are those of `Kyron.Time.Timers`. The lock around them is a reader-writer lock:
  a registration holds it for reading, processing and looking up the next deadline hold it for
  writing. Which thread holds it is read off the program counters.
* The clock counts milliseconds since the start. A timeout is the millisecond at which it ends:
  the source computes its length from the clock immediately before it waits.
* `num_of_searching_workers` counts the workers in `run true`. `parked_workers_indexes` is the
  flag `listed` of each worker, and a notifier may pick any worker in it.
* Accesses to the atomics happen in one order that all threads see. The source loads and stores
  `next_promised_wakeup` with `Relaxed`, so it allows at least the runs of the model.
* Whether a worker waits on the IO driver or on its condition variable is a free choice. When
  another thread accesses the fds, `select` leaves `poll` and may call it again with its whole
  timeout. That restart is left out: a wait ends no later than at its timeout.
* Shutdown is left out: a worker that stops looks at no timer anymore.
-/

set_option autoImplicit false

namespace Kyron.Scheduler

open Kyron.Time

/-- The state byte of a worker: `WORKER_STATE_EXECUTING`, `.._SLEEPING_CV`, `.._SLEEPING_IO` and
`.._NOTIFIED`. -/
inductive WorkerState
  | executing
  | sleepingCv
  | sleepingIo
  | notified
  deriving DecidableEq, Repr

/-- Where an async worker is. -/
inductive WorkerPc
  /-- In the run loop, in `LocalState::Searching` or not. -/
  | run (searching : Bool)
  /-- A task registers a timer: it holds the lock for reading. -/
  | register (expireAt : Nat)
  /-- `maybe_run_driver`: it holds the lock for writing. -/
  | process
  /-- In `park_worker` after `transition_to_parked`, before `park` reads the promise. -/
  | load
  /-- Before `next_process_time`, with `previous_wakeup_time` and the promise read. -/
  | access (previous promised : Nat)
  /-- In `next_process_time`: it holds the lock for writing. -/
  | lookup (previous promised : Nat)
  /-- After `next_process_time`. -/
  | decide (previous promised : Nat) (expire : Option Nat)
  /-- In `WorkerInteractor::park`, before `park_pre_stage`. -/
  | sleep (timeout : Option Nat)
  /-- In `park_pre_stage` that found a notification, before it stores the state. -/
  | rearm
  /-- Marked as sleeping, before `after_park_decision` stores the promise. -/
  | promise (expire : Nat)
  /-- Waiting. -/
  | parked (timeout : Option Nat)
  /-- Executing again, before `transition_from_parked`. -/
  | leave
  /-- The exit guard of `park`, before it has the lock. -/
  | exit
  /-- The exit guard of `park`: it holds the lock for writing. -/
  | exitProcess
  deriving DecidableEq, Repr

/-- An async worker: its program counter, the wakeup time stashed in its context, its state
byte, and whether its index is in `parked_workers_indexes`. -/
structure ParkWorker where
  pc : WorkerPc
  wakeupTime : Option Nat
  state : WorkerState
  listed : Bool
  deriving DecidableEq, Repr

/-- Where a dedicated worker is. -/
inductive DedicatedPc (n : Nat)
  | idle
  /-- A task registers a timer: it holds the lock for reading. -/
  | register (expireAt : Nat)
  /-- The timer is registered, before `should_notify_some_worker`. -/
  | notify
  /-- Before it takes an index from `parked_workers_indexes`. -/
  | choose
  /-- Before it unparks `worker` and then those of `rest`. -/
  | unpark (worker : Fin n) (rest : List (Fin n))
  deriving DecidableEq, Repr

/-- The drivers of a runtime and the workers that use them. -/
structure Parking (n m : Nat) where
  now : Nat
  timers : Timers
  nextPromisedWakeup : Nat
  workers : Fin n → ParkWorker
  dedicated : Fin m → DedicatedPc n

/-- What an async worker does in its run loop. -/
inductive RunAction
  | search (searching : Bool)
  | beginRegister (expireAt : Nat)
  | register (hasNode : Bool)
  | beginProcess
  | process
  | park
  deriving DecidableEq, Repr

/-- What an async worker does on its way to sleep. -/
inductive SleepAction
  | recheck
  | load
  | lock
  | tryWriteFails
  | lookup
  | decide
  | preStage (io : Bool)
  | promise
  deriving DecidableEq, Repr

/-- What an async worker does on its way back to the run loop. -/
inductive WakeAction
  | rearm
  | notified
  | ioEvent
  | timeout
  | leave
  | beginProcess
  | process
  deriving DecidableEq, Repr

/-- What a dedicated worker does. -/
inductive DedicatedAction (n : Nat)
  | beginRegister (expireAt : Nat)
  | register (hasNode : Bool)
  | notify
  | choose (pick : Option (Fin n))
  | unpark
  deriving DecidableEq, Repr

/-- What can happen next. `unpark` is an unpark from elsewhere in the runtime. -/
inductive ParkAction (n m : Nat)
  | tick (ms : Nat)
  | unpark (w : Fin n)
  | run (w : Fin n) (a : RunAction)
  | sleep (w : Fin n) (a : SleepAction)
  | wake (w : Fin n) (a : WakeAction)
  | dedicated (d : Fin m) (a : DedicatedAction n)
  deriving DecidableEq, Repr

/-- The threads that hold the lock of the time driver for writing. -/
def WorkerPc.holdsWrite : WorkerPc → Bool
  | .process | .lookup _ _ | .exitProcess => true
  | _ => false

def WorkerPc.holdsRead : WorkerPc → Bool
  | .register _ => true
  | _ => false

def DedicatedPc.holdsRead {n : Nat} : DedicatedPc n → Bool
  | .register _ => true
  | _ => false

namespace Parking

variable {n m : Nat}

/-- All workers in their run loop, no timer and no promise. -/
def new (n m : Nat) : Parking n m where
  now := 0
  timers := Timers.new
  nextPromisedWakeup := 0
  workers := fun _ =>
    { pc := .run false, wakeupTime := none, state := .executing, listed := false }
  dedicated := fun _ => .idle

/-- The lock can be taken for reading. -/
def CanRead (s : Parking n m) : Prop := ∀ w, (s.workers w).pc.holdsWrite = false

/-- The lock can be taken for writing. -/
def CanWrite (s : Parking n m) : Prop :=
  (∀ w, (s.workers w).pc.holdsWrite = false ∧ (s.workers w).pc.holdsRead = false) ∧
    ∀ d, (s.dedicated d).holdsRead = false

instance (s : Parking n m) : Decidable s.CanRead :=
  inferInstanceAs (Decidable (∀ w, (s.workers w).pc.holdsWrite = false))

instance (s : Parking n m) : Decidable s.CanWrite :=
  inferInstanceAs (Decidable
    ((∀ w, (s.workers w).pc.holdsWrite = false ∧ (s.workers w).pc.holdsRead = false) ∧
      ∀ d, (s.dedicated d).holdsRead = false))

def setWorker (s : Parking n m) (w : Fin n) (x : ParkWorker) : Parking n m :=
  { s with workers := Function.update s.workers w x }

def setDedicated (s : Parking n m) (d : Fin m) (pc : DedicatedPc n) : Parking n m :=
  { s with dedicated := Function.update s.dedicated d pc }

/-- A worker that only moves its program counter. -/
def goto (s : Parking n m) (w : Fin n) (pc : WorkerPc) : Parking n m :=
  s.setWorker w { s.workers w with pc }

/-- `WorkerInteractor::unpark`: whatever the state byte was, it is `NOTIFIED` now. -/
def unpark (s : Parking n m) (w : Fin n) : Parking n m :=
  s.setWorker w { s.workers w with state := .notified }

/-- `move_to_executing` up to `transition_from_parked`. -/
def moveToExecuting (s : Parking n m) (w : Fin n) : Parking n m :=
  s.setWorker w { s.workers w with pc := .leave, state := .executing }

/-- The timers after a registration. A refused one changes nothing. -/
def tryRegister (s : Parking n m) (expireAt : Nat) (hasNode : Bool) :
    Except CommonErrors (Parking n m) :=
  (s.timers.registerTimeout expireAt hasNode).map fun timers => { s with timers }

/-- `process_timeouts` under the lock, with the clock read under the lock. -/
def processTimeouts (s : Parking n m) : Parking n m :=
  { s with timers := s.timers.processTimeouts s.now }

/-- `park` after `next_process_time`. It sleeps without a timeout when there is no deadline, and
when the deadline is the promise of another worker. Otherwise the timeout is the deadline, and a
timeout of no length does not sleep at all. -/
def decidePark (s : Parking n m) (w : Fin n) (previous promised : Nat) :
    Option Nat → Parking n m
  | none => s.goto w (.sleep none)
  | some expire =>
      if expire = promised ∧ previous ≠ expire then
        s.goto w (.sleep none)
      else if expire ≤ s.now then
        s.moveToExecuting w
      else
        s.goto w (.sleep (some expire))

/-- `park_pre_stage` and, without a timeout, the wait. `io` says whether the worker got the
access to the IO driver and sleeps there. -/
def preStage (s : Parking n m) (w : Fin n) (timeout : Option Nat) (io : Bool) :
    Option (Parking n m) :=
  let x := s.workers w
  match x.state with
  | .executing =>
      let state := if io then .sleepingIo else .sleepingCv
      match timeout with
      | none => some (s.setWorker w { x with pc := .parked none, state })
      | some expire => some (s.setWorker w { x with pc := .promise expire, state })
  | .notified => some (s.setWorker w { x with pc := .rearm, listed := false })
  | _ => none

/-- `after_park_decision` of `park_with_timeout`, then the wait. -/
def afterParkDecision (s : Parking n m) (w : Fin n) (expire : Nat) : Parking n m :=
  { s with nextPromisedWakeup := expire }.setWorker w
    { s.workers w with pc := .parked (some expire), wakeupTime := some expire }

/-- `try_notify_siblings_worker_unconditional(None)` up to its first unpark: an index from the
list of parked workers, or all workers when the list is empty. -/
def chooseSibling (s : Parking n m) (d : Fin m) : Option (Fin n) → Option (Parking n m)
  | some w =>
      if (s.workers w).listed then
        some ((s.setWorker w { s.workers w with listed := false }).setDedicated d (.unpark w []))
      else
        none
  | none =>
      if ∀ w, (s.workers w).listed = false then
        match List.finRange n with
        | [] => some (s.setDedicated d .idle)
        | w :: rest => some (s.setDedicated d (.unpark w rest))
      else
        none

/-- A step in the run loop. -/
def stepRun (s : Parking n m) (w : Fin n) (a : RunAction) : Option (Parking n m) :=
  match a, (s.workers w).pc with
  | .search searching, .run _ => some (s.goto w (.run searching))
  | .beginRegister expireAt, .run false =>
      if s.CanRead then some (s.goto w (.register expireAt)) else none
  | .register hasNode, .register expireAt =>
      match s.tryRegister expireAt hasNode with
      | .ok s' => some (s'.goto w (.run false))
      | .error _ => some (s.goto w (.run false))
  | .beginProcess, .run false => if s.CanWrite then some (s.goto w .process) else none
  | .process, .process => some (s.processTimeouts.goto w (.run false))
  | .park, .run _ => some (s.setWorker w { s.workers w with pc := .load, listed := true })
  | _, _ => none

/-- A step on the way to sleep, from `park_worker` to the wait. -/
def stepSleep (s : Parking n m) (w : Fin n) (a : SleepAction) : Option (Parking n m) :=
  match a, (s.workers w).pc with
  | .recheck, .load =>
      -- The last searcher found work in a queue: it does not park.
      some (s.setWorker w { s.workers w with pc := .run false, listed := false })
  | .load, .load =>
      some (s.goto w (.access ((s.workers w).wakeupTime.getD 0) s.nextPromisedWakeup))
  | .lock, .access previous promised =>
      if s.CanWrite then some (s.goto w (.lookup previous promised)) else none
  | .tryWriteFails, .access previous promised =>
      -- A worker that repeats its own promise waits for the lock instead.
      if previous ≠ promised ∧ ¬ s.CanWrite then
        some (s.goto w (.decide previous promised none))
      else
        none
  | .lookup, .lookup previous promised =>
      some (s.goto w (.decide previous promised s.timers.nextProcessTime))
  | .decide, .decide previous promised expire => some (s.decidePark w previous promised expire)
  | .preStage io, .sleep timeout => s.preStage w timeout io
  | .promise, .promise expire => some (s.afterParkDecision w expire)
  | _, _ => none

/-- A step on the way back, from the end of the wait to the end of the exit guard. -/
def stepWake (s : Parking n m) (w : Fin n) (a : WakeAction) : Option (Parking n m) :=
  match a, (s.workers w).pc with
  | .rearm, .rearm => some (s.setWorker w { s.workers w with pc := .exit, state := .executing })
  | .notified, .parked _ =>
      if (s.workers w).state = .notified then some (s.moveToExecuting w) else none
  | .ioEvent, .parked _ =>
      if (s.workers w).state = .sleepingIo then some (s.moveToExecuting w) else none
  | .timeout, .parked (some expire) =>
      -- `park_with_timeout` clears the stashed time of a wait that timed out.
      if expire ≤ s.now then
        some (s.setWorker w
          { s.workers w with pc := .leave, state := .executing, wakeupTime := none })
      else
        none
  | .leave, .leave => some (s.setWorker w { s.workers w with pc := .exit, listed := false })
  | .beginProcess, .exit => if s.CanWrite then some (s.goto w .exitProcess) else none
  | .process, .exitProcess => some (s.processTimeouts.goto w (.run false))
  | _, _ => none

/-- A step of a dedicated worker. -/
def stepDedicated (s : Parking n m) (d : Fin m) (a : DedicatedAction n) : Option (Parking n m) :=
  match a, s.dedicated d with
  | .beginRegister expireAt, .idle =>
      if s.CanRead then some (s.setDedicated d (.register expireAt)) else none
  | .register hasNode, .register expireAt =>
      match s.tryRegister expireAt hasNode with
      | .ok s' => some (s'.setDedicated d .notify)
      | .error _ => some (s.setDedicated d .idle)
  | .notify, .notify =>
      -- `should_notify_some_worker`: with a searching worker, nobody is unparked.
      if ∃ w, (s.workers w).pc = .run true then
        some (s.setDedicated d .idle)
      else
        some (s.setDedicated d .choose)
  | .choose pick, .choose => s.chooseSibling d pick
  | .unpark, .unpark w [] => some ((s.unpark w).setDedicated d .idle)
  | .unpark, .unpark w (w' :: rest) => some ((s.unpark w).setDedicated d (.unpark w' rest))
  | _, _ => none

/-- One step of a thread or of the clock. -/
def step (s : Parking n m) : ParkAction n m → Option (Parking n m)
  | .tick ms => some { s with now := s.now + ms }
  | .unpark w => some (s.unpark w)
  | .run w a => s.stepRun w a
  | .sleep w a => s.stepSleep w a
  | .wake w a => s.stepWake w a
  | .dedicated d a => s.stepDedicated d a

end Parking

end Kyron.Scheduler
