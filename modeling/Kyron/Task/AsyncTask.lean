import Kyron.Lib.Transition
import Kyron.Task.State

/-!
# `Kyron.Task.AsyncTask`: one task, its queues and everyone who touches it

The model of `scheduler/task/async_task.rs` together with the worker loops that poll a task.
One task is shared by any number of activities. An activity is one call in progress: a wake
(`schedule`), a safety wake (`schedule_safety`), an `abort`, the attachment of a join handle
(`set_waker`), or a worker that has taken a reference to the task from a queue and polls it.
A future that wakes itself while it is polled is a second activity.

Every access to the state word is one step. `fetch_update_with_return` is a load followed by
compare-and-exchange attempts: a failed attempt hands back the current word and the closure
runs again on it. The stage of the task is written and read in steps of its own.

The queues are reduced to what matters for one task: how many entries for it each lane holds.
The normal lane is the local queues and the global queue of the async workers, the safety lane
is the queue of the safety worker with its local storage. A push can be refused. The waker of
the join handle and the values that the future computes are left out.
-/

set_option autoImplicit false

namespace Kyron.Task

/-- The two ways on which a task reaches a worker. -/
inductive Lane
  | normal
  | safety
  deriving DecidableEq, Repr

/-- `TaskStage`, without the future and the result that it holds. -/
inductive TaskStage
  | extracted
  | inProgress
  | completed
  deriving DecidableEq, Repr

/-- The calls that update the state word. A worker of a lane makes the last three. -/
inductive Op
  | schedule
  | scheduleSafety
  | abort
  | setWaker
  | toRunning (worker : Lane)
  | toIdle (worker : Lane)
  | toCompleted (worker : Lane)
  deriving DecidableEq, Repr

/-- Where an activity stands. -/
inductive Pc
  /-- Not in a call. -/
  | idle
  /-- In `fetch_update_with_return`, with the word read last, or none before the first load. -/
  | update (op : Op) (val : Option TaskStateSnapshot)
  /-- After a `Done` result of a wake, before `respawn` or `respawn_into_safety` pushes. -/
  | respawn (lane : Lane)
  /-- In `poll_core`, before the stage is looked at. -/
  | polling (worker : Lane)
  /-- In the `poll` of the future. -/
  | inFuture (worker : Lane)
  /-- After `TaskPollResult::Notified`, before the worker pushes the task back. -/
  | repush (worker : Lane)
  /-- Before `clear_stage`. -/
  | clearStage
  /-- A queue was full and the push ended in a panic. -/
  | overflow
  /-- An assertion failed, or `poll_core` found a stage it does not expect. -/
  | panicked (p : Panic)
  deriving DecidableEq, Repr

/-- The closure of a call, with the place where the call goes on for each result. -/
def Op.closure (op : Op) (prev : TaskStateSnapshot) :
    Except Panic (Option TaskStateSnapshot × Pc) :=
  match op with
  | .schedule =>
      let (next, res) := TaskState.setNotified prev
      .ok (next, match res with
        | .done => .respawn .normal
        | .alreadyNotified => .idle
        | .running => .idle)
  | .scheduleSafety =>
      let (next, res) := TaskState.setSafetyNotified prev
      .ok (next, match res with
        | .done => .respawn .safety
        | .alreadyNotified => .idle
        | .running => .idle)
  | .abort =>
      let (next, res) := TaskState.transitionToCanceled prev
      .ok (next, match res with
        | .done => .clearStage
        | .alreadyDone => .idle
        | .doneWhileRunning => .idle)
  | .setWaker => .ok ((TaskState.setWaker prev).1, .idle)
  | .toRunning worker => do
      let (next, res) ← TaskState.transitionToRunning prev
      .ok (next, match res with
        | .done => .polling worker
        | .aborted => .idle
        | .alreadyRunning => .idle)
  | .toIdle worker => do
      let (next, res) ← TaskState.transitionToIdle prev
      .ok (next, match res with
        | .done => .idle
        | .notified => .repush worker
        | .aborted => .clearStage)
  | .toCompleted _ => do
      let (next, res) ← TaskState.transitionToCompleted prev
      .ok (next, match res with
        | .done => .idle
        | .hadConnectedJoinHandle => .idle
        | .aborted => .clearStage)

/-- Whether a successful exchange of the call starts a poll. -/
def Op.startsPoll : Op → Bool
  | .toRunning _ => true
  | _ => false

/-- One task with its queue entries and activities. `polls` counts the polls that have
started. `hasSafety` says whether the engine has a safety worker. -/
structure Sys (T : Type) where
  state : TaskStateSnapshot
  stage : TaskStage
  entries : Lane → Nat
  hasSafety : Bool
  polls : Nat
  pc : T → Pc

/-- What can happen. The first argument of each is the activity. -/
inductive Action (T : Type)
  /-- A waker of the task is used. -/
  | wake (t : T)
  /-- A safety waker of the task is used. -/
  | wakeSafety (t : T)
  | abort (t : T)
  /-- The join handle attaches its waker. -/
  | attach (t : T)
  /-- A worker takes an entry of the task. -/
  | pop (t : T) (lane : Lane)
  /-- The activity makes its next step on the state word or the stage. -/
  | advance (t : T)
  /-- The future returns. -/
  | poll (t : T) (ready : Bool)
  /-- The activity pushes the task, and the queue has room or not. -/
  | push (t : T) (fits : Bool)
  /-- The join handle asks for the result, `get_future_ret`. -/
  | takeResult
  deriving DecidableEq, Repr

namespace Sys

variable {T : Type} [DecidableEq T]

/-- A task as `spawn` leaves it: idle, not notified, with one entry in a queue. -/
def spawned (lane : Lane) (hasSafety : Bool) : Sys T where
  state := TaskStateSnapshot.new
  stage := .inProgress
  entries := fun l => if l = lane then 1 else 0
  hasSafety := hasSafety
  polls := 0
  pc := fun _ => .idle

/-- Moves an activity. -/
def goto (s : Sys T) (t : T) (p : Pc) : Sys T := { s with pc := Function.update s.pc t p }

/-- Adds an entry to a lane. -/
def enqueue (s : Sys T) (lane : Lane) : Sys T :=
  { s with entries := Function.update s.entries lane (s.entries lane + 1) }

/-- Removes an entry from a lane. -/
def dequeue (s : Sys T) (lane : Lane) : Sys T :=
  { s with entries := Function.update s.entries lane (s.entries lane - 1) }

/-- One attempt of `fetch_update_with_return` on the word `val` read before. -/
def attempt (s : Sys T) (t : T) (op : Op) (val : TaskStateSnapshot) : Sys T :=
  match op.closure val with
  | .error p => s.goto t (.panicked p)
  | .ok (none, next) => s.goto t next
  | .ok (some new, next) =>
      if s.state = val then
        { s with
            state := new
            polls := if op.startsPoll then s.polls + 1 else s.polls }.goto t next
      else
        s.goto t (.update op (some s.state))

/-- The next step of an activity on the state word or the stage. -/
def advance (s : Sys T) (t : T) : Option (Sys T) :=
  match s.pc t with
  | .update op none => some (s.goto t (.update op (some s.state)))
  | .update op (some val) => some (s.attempt t op val)
  | .polling worker =>
      match s.stage with
      | .inProgress => some (s.goto t (.inFuture worker))
      | .extracted => some (s.goto t (.panicked .stageExtracted))
      | .completed => some (s.goto t (.panicked .stageCompleted))
  | .clearStage => some ({ s with stage := .extracted }.goto t .idle)
  | _ => none

/-- A push of the task. `respawn` and the async worker panic when their queue is full. The
safety worker ignores the result of its push. Without a safety worker `respawn_into_safety`
does nothing. -/
def push (s : Sys T) (t : T) (fits : Bool) : Option (Sys T) :=
  match s.pc t with
  | .respawn .normal | .repush .normal =>
      if fits then some ((s.enqueue .normal).goto t .idle) else some (s.goto t .overflow)
  | .respawn .safety =>
      if !s.hasSafety then some (s.goto t .idle)
      else if fits then some ((s.enqueue .safety).goto t .idle)
      else some (s.goto t .overflow)
  | .repush .safety =>
      if fits then some ((s.enqueue .safety).goto t .idle) else some (s.goto t .idle)
  | _ => none

/-- The step function. Wakers exist only once the task has been polled. -/
def step (s : Sys T) : Action T → Option (Sys T)
  | .wake t =>
      if s.pc t = .idle ∧ 0 < s.polls then some (s.goto t (.update .schedule none)) else none
  | .wakeSafety t =>
      if s.pc t = .idle ∧ 0 < s.polls then some (s.goto t (.update .scheduleSafety none))
      else none
  | .abort t => if s.pc t = .idle then some (s.goto t (.update .abort none)) else none
  | .attach t => if s.pc t = .idle then some (s.goto t (.update .setWaker none)) else none
  | .pop t lane =>
      if s.pc t = .idle ∧ 0 < s.entries lane then
        some ((s.dequeue lane).goto t (.update (.toRunning lane) none))
      else
        none
  | .advance t => s.advance t
  | .poll t ready =>
      match s.pc t with
      | .inFuture worker =>
          if ready then
            some ({ s with stage := .completed }.goto t (.update (.toCompleted worker) none))
          else
            some (s.goto t (.update (.toIdle worker) none))
      | _ => none
  | .push t fits => s.push t fits
  | .takeResult =>
      if s.state.isCanceled then some s
      else if !s.state.isCompleted then some s
      else some { s with stage := .extracted }

end Sys

end Kyron.Task
