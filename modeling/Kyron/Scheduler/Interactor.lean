import Mathlib.Logic.Function.Basic
import Kyron.Lib.Transition

/-!
# `Kyron.Scheduler.Interactor`: stopping a worker that parks and is unparked

The model of `WorkerInteractor` in `scheduler/workers/worker_types.rs`, with the run loop of one
async worker. The worker, one call of `request_stop` and any number of threads that call
`unpark` share the state word of the worker, its mutex, its condition variable and the waker of
the IO driver. Every access to one of them is a step.

* The condition variable knows only this worker. `cvWoken` says that it was notified while the
  worker waits, and the worker may also come back without that.
* The waker of the IO driver is a pipe. The worker holds the IO driver while it sleeps on it,
  so only its own `process_io` takes bytes out: up to 32 of them when it returns.
* `process_io` returns on any event. A wait with a timeout may find at any check that its time
  is up.
* The list of parked workers is left out, and so is what the worker does between two parks.
-/

set_option autoImplicit false

namespace Kyron.Scheduler

/-- `WorkerState`: `WORKER_STATE_EXECUTING`, `.._SLEEPING_CV`, `.._SLEEPING_IO`, `.._NOTIFIED` and
`.._SHUTTINGDOWN`. -/
inductive WorkerWord
  | executing
  | sleepingCv
  | sleepingIo
  | notified
  | shuttingDown
  deriving DecidableEq, Repr

/-- The three ways of `park` that wait. -/
inductive ParkMode
  /-- `park_on_cv`. -/
  | cv
  /-- `park_on_cv_timeout`. -/
  | cvTimeout
  /-- In `process_io` of the IO driver. -/
  | io
  deriving DecidableEq, Repr

/-- Where the worker stands. -/
inductive RunPc
  /-- At the head of the loop, before `is_shutdown_requested`. -/
  | run
  /-- In the body of the loop, before a park. -/
  | busy
  /-- In `park`, before the mutex. -/
  | lock (mode : ParkMode)
  /-- With the mutex, before the exchange of `park_pre_stage`. -/
  | preStage (mode : ParkMode)
  /-- With the mutex, in a `park_pre_stage` that found `NOTIFIED`, before it stores. -/
  | rearm
  /-- With the mutex, leaving `park`. -/
  | unlock
  /-- With the mutex, before `park_condition_check_and_transition`. -/
  | cvCheck (timed : Bool)
  /-- With the mutex, decided to wait. -/
  | cvSleep (timed : Bool)
  /-- Waiting for the condition variable, without the mutex. -/
  | cvWait (timed : Bool)
  /-- Back from the wait, before the mutex. -/
  | cvLock (timed : Bool)
  /-- With the mutex, marked as sleeping on the IO driver. -/
  | ioUnlock
  /-- In `process_io`, without the mutex. -/
  | ioWait
  /-- Back from `process_io`, before the mutex. -/
  | ioLock
  /-- Before the swap of `move_to_executing`, with the mutex or without. -/
  | move (locked : Bool)
  /-- In a `move_to_executing` that found `SHUTTINGDOWN`, before it puts that back. -/
  | putBack (locked : Bool)
  /-- Out of the loop. -/
  | stopped
  /-- `park_pre_stage` found a state that it does not expect. -/
  | failed
  deriving DecidableEq, Repr

/-- Where the call of `request_stop` stands. -/
inductive StopPc
  | idle
  /-- With the mutex, before the swap. -/
  | swap
  /-- With the mutex, after the swap that returned `prev`. -/
  | notify (prev : WorkerWord)
  /-- With the mutex, leaving. -/
  | unlock
  | done
  deriving DecidableEq, Repr

/-- Where a call of `unpark` stands. -/
inductive UnparkPc
  | idle
  /-- The worker was sleeping on its condition variable. Before the mutex. -/
  | lock
  /-- With the mutex, which is released at once. -/
  | sync
  /-- Before `notify_one`. -/
  | notify
  /-- The worker was sleeping on the IO driver. Before the driver is unparked. -/
  | ioUnpark
  /-- The worker was shutting down. Before that state is put back. -/
  | putBack
  deriving DecidableEq, Repr

/-- Who holds the mutex of the worker. -/
inductive MtxHolder (U : Type)
  | worker
  | stop
  | unpark (u : U)
  deriving DecidableEq, Repr

/-- A worker with its interactor, one `request_stop` and the threads `U` that unpark it. -/
structure Interactor (U : Type) where
  word : WorkerWord
  mtx : Option (MtxHolder U)
  cvWoken : Bool
  ioPipe : Nat
  worker : RunPc
  stop : StopPc
  unparks : U → UnparkPc

inductive InteractorAction (U : Type)
  /-- A task was run and the loop starts again. -/
  | again
  /-- The worker parks, without a mode when the time to sleep is zero. -/
  | park (mode : Option ParkMode)
  /-- The worker makes its next step. -/
  | advance
  /-- The time of the wait is up. -/
  | elapsed
  /-- The wait on the condition variable ends. -/
  | cvReturns
  /-- `process_io` returns. -/
  | ioReturns
  /-- `request_stop` is called, or makes its next step. -/
  | stop
  /-- `unpark` is called, or makes its next step. -/
  | unpark (u : U)
  deriving DecidableEq, Repr

namespace Interactor

variable {U : Type} [DecidableEq U]

def new : Interactor U where
  word := .executing
  mtx := none
  cvWoken := false
  ioPipe := 0
  worker := .run
  stop := .idle
  unparks := fun _ => .idle

/-- `cv.notify_one()`. -/
def notifyOne (s : Interactor U) : Interactor U :=
  match s.worker with
  | .cvWait _ => { s with cvWoken := true }
  | _ => s

/-- `park_pre_stage`, from the exchange on. -/
def parkPreStage (s : Interactor U) (mode : ParkMode) : Interactor U :=
  match s.word with
  | .executing =>
      match mode with
      | .cv => { s with word := .sleepingCv, worker := .cvCheck false }
      | .cvTimeout => { s with word := .sleepingCv, worker := .cvCheck true }
      | .io => { s with word := .sleepingIo, worker := .ioUnlock }
  | .notified => { s with worker := .rearm }
  | .shuttingDown => { s with worker := .unlock }
  | .sleepingCv | .sleepingIo => { s with worker := .failed }

/-- `park_condition_check_and_transition`. -/
def parkConditionCheckAndTransition (s : Interactor U) (timed : Bool) : Interactor U :=
  match s.word with
  | .notified => { s with word := .executing, worker := .unlock }
  | .shuttingDown => { s with worker := .unlock }
  | .executing | .sleepingCv | .sleepingIo => { s with worker := .cvSleep timed }

/-- The end of `move_to_executing`: out of `park`, or to the release of the mutex. -/
def afterMove (locked : Bool) : RunPc := if locked then .unlock else .run

/-- The swap of `move_to_executing`. -/
def moveToExecuting (s : Interactor U) (locked : Bool) : Interactor U :=
  if s.word = .shuttingDown then { s with word := .executing, worker := .putBack locked }
  else { s with word := .executing, worker := afterMove locked }

/-- The worker takes the mutex when it is free, and goes on at `pc`. -/
def lockWorker (s : Interactor U) (pc : RunPc) : Option (Interactor U) :=
  if s.mtx = none then some { s with mtx := some .worker, worker := pc } else none

/-- The next step of the worker where it has only one. -/
def stepWorker (s : Interactor U) : Option (Interactor U) :=
  match s.worker with
  | .run =>
      if s.word = .shuttingDown then some { s with worker := .stopped }
      else some { s with worker := .busy }
  | .lock mode => s.lockWorker (.preStage mode)
  | .preStage mode => some (s.parkPreStage mode)
  | .rearm => some { s with word := .executing, worker := .unlock }
  | .unlock => some { s with mtx := none, worker := .run }
  | .cvCheck timed => some (s.parkConditionCheckAndTransition timed)
  | .cvSleep timed => some { s with mtx := none, cvWoken := false, worker := .cvWait timed }
  | .cvLock timed => s.lockWorker (.cvCheck timed)
  | .ioUnlock => some { s with mtx := none, worker := .ioWait }
  | .ioLock => s.lockWorker (.move true)
  | .move locked => some (s.moveToExecuting locked)
  | .putBack locked => some { s with word := .shuttingDown, worker := afterMove locked }
  | .busy | .cvWait _ | .ioWait | .stopped | .failed => none

/-- The next step of `request_stop`. -/
def stepStop (s : Interactor U) : Option (Interactor U) :=
  match s.stop with
  | .idle => if s.mtx = none then some { s with mtx := some .stop, stop := .swap } else none
  | .swap => some { s with word := .shuttingDown, stop := .notify s.word }
  | .notify .sleepingCv => some { s.notifyOne with stop := .unlock }
  | .notify .sleepingIo => some { s with ioPipe := s.ioPipe + 1, stop := .unlock }
  | .notify _ => some { s with stop := .unlock }
  | .unlock => some { s with mtx := none, stop := .done }
  | .done => none

def setUnpark (s : Interactor U) (u : U) (pc : UnparkPc) : Interactor U :=
  { s with unparks := Function.update s.unparks u pc }

/-- Where `unpark` goes on after its swap. -/
def afterSwap : WorkerWord → UnparkPc
  | .notified | .executing => .idle
  | .sleepingCv => .lock
  | .sleepingIo => .ioUnpark
  | .shuttingDown => .putBack

/-- The next step of a call of `unpark`. -/
def stepUnpark (s : Interactor U) (u : U) : Option (Interactor U) :=
  match s.unparks u with
  | .idle => some ({ s with word := .notified }.setUnpark u (afterSwap s.word))
  | .lock =>
      if s.mtx = none then some ({ s with mtx := some (.unpark u) }.setUnpark u .sync) else none
  | .sync => some ({ s with mtx := none }.setUnpark u .notify)
  | .notify => some (s.notifyOne.setUnpark u .idle)
  | .ioUnpark => some ({ s with ioPipe := s.ioPipe + 1 }.setUnpark u .idle)
  | .putBack => some ({ s with word := .shuttingDown }.setUnpark u .idle)

def step (s : Interactor U) : InteractorAction U → Option (Interactor U)
  | .again => if s.worker = .busy then some { s with worker := .run } else none
  | .park mode =>
      if s.worker = .busy then
        match mode with
        | none => some { s with worker := .move false }
        | some mode => some { s with worker := .lock mode }
      else none
  | .advance => s.stepWorker
  | .elapsed =>
      match s.worker with
      | .cvSleep true => some { s with worker := .move true }
      | _ => none
  | .cvReturns =>
      match s.worker with
      | .cvWait timed => some { s with cvWoken := false, worker := .cvLock timed }
      | _ => none
  | .ioReturns =>
      if s.worker = .ioWait then some { s with ioPipe := s.ioPipe - 32, worker := .ioLock }
      else none
  | .stop => s.stepStop
  | .unpark u => s.stepUnpark u

end Interactor

end Kyron.Scheduler
