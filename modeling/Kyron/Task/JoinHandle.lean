import Kyron.Task.AsyncTask

/-!
# `Kyron.Task.JoinHandle`: one task and its join handle

The model of `scheduler/join_handle.rs` on top of the task. The activities of the task are the
workers and wakers `some t` and the owner of the join handle, `none`: it polls the handle, always
with the waker of the same task, and aborts through it, one call after the other.

* `set_waker` writes the waker first and sets the bit `TASK_JOIN_HANDLE_ATTACHED` then.
* A worker that completes the task and found the bit takes the waker and wakes it, in a step of
  its own after the exchange.
* `get_future_ret` loads the word, and only then looks at the stage.

The stage `Completed` holds a value. What the future returned, what the polls of the handle
answered and how often the waker was woken is recorded on the side.
-/

set_option autoImplicit false

namespace Kyron.Task

/-- `FutureState`. -/
inductive FutureState
  | new
  | polled
  | finished
  deriving DecidableEq, Repr

/-- The answers of `JoinHandle::poll`. -/
inductive JoinPoll (V : Type)
  | pending
  /-- `Ready(Ok(v))`. -/
  | ok (v : V)
  /-- `Ready(Err(OperationAborted))`. -/
  | operationAborted
  deriving DecidableEq, Repr

/-- The unrecoverable errors of `JoinHandle::poll`. -/
inductive JoinPanic
  /-- The waker was not set, and there is no result. -/
  | noData
  /-- The task is completed, but the result is gone. -/
  | alreadyDone
  /-- The handle is polled after it was ready. -/
  | polledFinished
  deriving DecidableEq, Repr

/-- Where the owner of the handle stands. -/
inductive HandlePc
  | idle
  /-- In `set_waker`, after the waker was written. -/
  | setWaker
  /-- In `get_future_ret`, before the load. -/
  | getState
  /-- In `get_future_ret`, after it loaded a completed word. -/
  | takeStage
  /-- In `abort`. -/
  | aborting
  | panicked (e : JoinPanic)
  deriving DecidableEq, Repr

/-- Where a worker stands that has completed the task. -/
inductive WakingPc
  | no
  /-- It found the bit of the join handle, before it takes the waker. -/
  | takeWaker
  /-- It found no waker, which is an unrecoverable error. -/
  | noWaker
  deriving DecidableEq, Repr

/-- A poll of the handle that has returned: whether the task was completed and canceled when it
began, and the answer. -/
structure PollRecord (V : Type) where
  completed : Bool
  canceled : Bool
  answer : JoinPoll V
  deriving DecidableEq, Repr

structure JoinSys (T V : Type) where
  sys : Sys (Option T)
  /-- The value in the stage `Completed`. -/
  stored : Option V
  /-- `handle_waker` holds a waker. -/
  handleWaker : Bool
  waking : T → WakingPc
  /-- The state of the handle. -/
  state : FutureState
  handle : HandlePc
  /-- Whether the task was completed and canceled when the poll in progress began. -/
  began : Bool × Bool
  /-- What the future has returned. -/
  returned : Option V
  /-- The polls of the handle that have returned, the last one first. -/
  log : List (PollRecord V)
  /-- How often the waker of the handle was woken. -/
  wakings : Nat

inductive JoinHandleAction (T V : Type)
  | wake (t : T)
  | wakeSafety (t : T)
  | pop (t : T) (lane : Lane)
  | advance (t : T)
  /-- The future returns `Pending`. -/
  | pending (t : T)
  /-- The future returns a value. -/
  | ready (t : T) (v : V)
  | push (t : T) (fits : Bool)
  /-- A worker that has completed the task takes the waker of the handle and wakes it. -/
  | wakeHandle (t : T)
  /-- The handle is polled. -/
  | poll
  /-- The task is aborted through the handle. -/
  | abort
  /-- The owner of the handle makes its next step. -/
  | handle
  deriving DecidableEq, Repr

namespace JoinSys

variable {T V : Type} [DecidableEq T]

def spawned (lane : Lane) (hasSafety : Bool) : JoinSys T V where
  sys := Sys.spawned lane hasSafety
  stored := none
  handleWaker := false
  waking := fun _ => .no
  state := .new
  handle := .idle
  began := (false, false)
  returned := none
  log := []
  wakings := 0

/-- A step of a worker or a waker, which must not be busy with the waker of the handle. -/
def worker (s : JoinSys T V) (t : T) (a : Action (Option T)) : Option (JoinSys T V) :=
  if s.waking t = .no then (s.sys.step a).map fun sys => { s with sys } else none

/-- The next step of the activity completes the task, and `transition_to_completed` answers
`HadConnectedJoinHandle`. -/
def hadConnectedJoinHandle (s : Sys (Option T)) (t : Option T) : Bool :=
  match s.pc t with
  | .update (.toCompleted _) (some v) =>
      match TaskState.transitionToCompleted v with
      | .ok (some _, .hadConnectedJoinHandle) => decide (s.state = v)
      | _ => false
  | _ => false

/-- A step of a worker on the word or the stage. -/
def advance (s : JoinSys T V) (t : T) : Option (JoinSys T V) :=
  (s.worker t (.advance (some t))).map fun s' =>
    if hadConnectedJoinHandle s.sys (some t) then
      { s' with waking := Function.update s'.waking t .takeWaker }
    else s'

/-- The future returns a value, which goes into the stage. -/
def ready (s : JoinSys T V) (t : T) (v : V) : Option (JoinSys T V) :=
  (s.worker t (.poll (some t) true)).map fun s' => { s' with stored := some v, returned := some v }

/-- The end of `poll_core` after `HadConnectedJoinHandle`. -/
def wakeHandle (s : JoinSys T V) (t : T) : Option (JoinSys T V) :=
  if s.waking t = .takeWaker then
    if s.handleWaker then
      some { s with
        handleWaker := false
        wakings := s.wakings + 1
        waking := Function.update s.waking t .no }
    else some { s with waking := Function.update s.waking t .noWaker }
  else none

/-- The poll in progress returns, and `assign_and_propagate` sets the state of the handle. -/
def answer (s : JoinSys T V) (r : JoinPoll V) : JoinSys T V :=
  { s with
    handle := .idle
    state := match r with
      | .pending => .polled
      | .ok _ | .operationAborted => .finished
    log := ⟨s.began.1, s.began.2, r⟩ :: s.log }

/-- `JoinHandle::poll` begins. -/
def poll (s : JoinSys T V) : Option (JoinSys T V) :=
  if s.handle = .idle then
    let s := { s with began := (s.sys.state.isCompleted, s.sys.state.isCanceled) }
    match s.state with
    | .new =>
        (s.sys.step (.attach none)).map fun sys =>
          { s with sys, handleWaker := true, handle := .setWaker }
    | .polled => some { s with handle := .getState }
    | .finished => some { s with handle := .panicked .polledFinished }
  else none

/-- `set_waker` goes on. When it returns, `JoinHandle::poll` answers `Pending` if the bit was set
and asks for the result otherwise. -/
def stepSetWaker (s : JoinSys T V) : Option (JoinSys T V) :=
  (s.sys.advance none).map fun sys =>
    let s' := { s with sys }
    match s.sys.pc none with
    | .update .setWaker (some v) =>
        if sys.pc none = .idle then
          if (TaskState.setWaker v).2 then s'.answer .pending else { s' with handle := .getState }
        else s'
    | _ => s'

/-- `get_future_ret` loads the word. Without a result a new handle fails and a polled one answers
`Pending`. -/
def getState (s : JoinSys T V) : JoinSys T V :=
  if s.sys.state.isCanceled then s.answer .operationAborted
  else if !s.sys.state.isCompleted then
    match s.state with
    | .new => { s with handle := .panicked .noData }
    | .polled | .finished => s.answer .pending
  else { s with handle := .takeStage }

/-- `get_future_ret` takes the result out of the stage. -/
def takeStage (s : JoinSys T V) : JoinSys T V :=
  let s' := { s with sys := { s.sys with stage := .extracted }, stored := none }
  match s.sys.stage, s.stored with
  | .completed, some v => s'.answer (.ok v)
  | _, _ => { s' with handle := .panicked .alreadyDone }

/-- The next step of the owner of the handle. -/
def stepHandle (s : JoinSys T V) : Option (JoinSys T V) :=
  match s.handle with
  | .setWaker => s.stepSetWaker
  | .getState => some s.getState
  | .takeStage => some s.takeStage
  | .aborting =>
      (s.sys.advance none).map fun sys =>
        { s with sys, handle := if sys.pc none = .idle then .idle else .aborting }
  | .idle | .panicked _ => none

def step (s : JoinSys T V) : JoinHandleAction T V → Option (JoinSys T V)
  | .wake t => s.worker t (.wake (some t))
  | .wakeSafety t => s.worker t (.wakeSafety (some t))
  | .pop t lane => s.worker t (.pop (some t) lane)
  | .advance t => s.advance t
  | .pending t => s.worker t (.poll (some t) false)
  | .ready t v => s.ready t v
  | .push t fits => s.worker t (.push (some t) fits)
  | .wakeHandle t => s.wakeHandle t
  | .poll => s.poll
  | .abort =>
      if s.handle = .idle then
        (s.sys.step (.abort none)).map fun sys => { s with sys, handle := .aborting }
      else none
  | .handle => s.stepHandle

end JoinSys

end Kyron.Task
