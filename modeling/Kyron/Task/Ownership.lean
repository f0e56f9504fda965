import Kyron.Task.AsyncTask

/-!
# `Kyron.Task.Ownership`: who drops the future, and what `abort` answers

`Owned` is a task with a record of what its callers see. The future lives in the stage, so it is
dropped by the step that replaces the stage `InProgress`: in `clear_stage`, or where `poll_core`
stores the result. A call of `abort` answers true after its `clear_stage` and false otherwise.

The record does not take part in the steps of the task.
-/

set_option autoImplicit false

namespace Kyron.Task

structure Owned (T : Type) where
  sys : Sys T
  /-- How often the future was dropped. -/
  drops : Nat
  /-- The future has returned `Ready`. -/
  ready : Bool
  /-- Some call of `abort` has answered true. -/
  aborted : Bool
  /-- The activity is in a call of `abort`. -/
  inAbort : T → Bool
  /-- The last call of `abort` by the activity made a task that did not run a canceled one. -/
  moved : T → Bool
  /-- What the last call of `abort` by the activity has answered. -/
  answer : T → Option Bool

namespace Owned

variable {T : Type} [DecidableEq T]

def spawned (lane : Lane) (hasSafety : Bool) : Owned T where
  sys := Sys.spawned lane hasSafety
  drops := 0
  ready := false
  aborted := false
  inAbort := fun _ => false
  moved := fun _ => false
  answer := fun _ => none

/-- The future is dropped when a step replaces the stage that holds it. -/
def countDrop (s : Owned T) (next : Sys T) : Owned T :=
  if s.sys.stage = .inProgress ∧ next.stage ≠ .inProgress then { s with drops := s.drops + 1 }
  else s

/-- An activity begins a call of `abort`. -/
def beginAbort (s : Owned T) (t : T) : Owned T :=
  { s with
    inAbort := Function.update s.inAbort t true
    moved := Function.update s.moved t false
    answer := Function.update s.answer t none }

/-- The step made a task that did not run a canceled one. -/
def movesToCanceled (s next : Sys T) : Bool :=
  !s.state.isRunning && !s.state.isCanceled && next.state.isCanceled

/-- An activity makes a step inside its call of `abort`. The call ends when the activity is idle
again, with true if that was its `clear_stage`. -/
def stepAbort (s : Owned T) (t : T) (next : Sys T) : Owned T :=
  let moved := Function.update s.moved t (s.moved t || movesToCanceled s.sys next)
  if next.pc t = .idle then
    let done := decide (s.sys.pc t = .clearStage)
    { s with
      moved
      inAbort := Function.update s.inAbort t false
      answer := Function.update s.answer t (some done)
      aborted := s.aborted || done }
  else { s with moved }

/-- What is recorded of a step. -/
def record (s : Owned T) (a : Action T) (next : Sys T) : Owned T :=
  match a with
  | .abort t => s.beginAbort t
  | .advance t => if s.inAbort t then s.stepAbort t next else s
  | .poll _ ready => { s with ready := s.ready || ready }
  | _ => s

def step (s : Owned T) (a : Action T) : Option (Owned T) :=
  (s.sys.step a).map fun next => { (s.countDrop next).record a next with sys := next }

end Owned

end Kyron.Task
