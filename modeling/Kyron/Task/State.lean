import Mathlib.Logic.Function.Basic

/-!
# `Kyron.Task.State`: the state word of a task

The model of `scheduler/task/task_state.rs`. `TaskStateSnapshot` wraps the 32 bit word. Every
transition of `TaskState` is the closure that the source hands to
`fetch_update_with_return`: from the word that was read it answers the word to store, or none
to leave the word, and the result of the call. The closures of `transition_to_running`,
`transition_to_idle` and `transition_to_completed` assert, so they answer in `Except Panic`.
-/

set_option autoImplicit false

namespace Kyron.Task

/-- `TASK_STATE_IDLE`. -/
def taskStateIdle : UInt32 := 0b00000001

/-- `TASK_STATE_RUNNING`. -/
def taskStateRunning : UInt32 := 0b00000010

/-- `TASK_STATE_COMPLETED`. -/
def taskStateCompleted : UInt32 := 0b00000100

/-- `TASK_STATE_CANCELED`. -/
def taskStateCanceled : UInt32 := 0b00001000

/-- `TASK_JOIN_HANDLE_ATTACHED`. -/
def taskJoinHandleAttached : UInt32 := 0b00010000

/-- `TASK_NOTIFIED`. -/
def taskNotified : UInt32 := 0b00100000

/-- `TASK_NOTIFIED_SAFETY`. -/
def taskNotifiedSafety : UInt32 := 0b01000000

/-- The assertions and unrecoverable errors of a task. -/
inductive Panic
  /-- `transition_to_running`: `assert!(prev.is_idle())`. -/
  | runningNotIdle
  /-- `transition_to_idle`: `assert!(prev.is_running())`. -/
  | idleNotRunning
  /-- `transition_to_idle`: `assert!(!prev.is_idle())`. -/
  | idleAlreadyIdle
  /-- `transition_to_completed`: `assert!(prev.is_running())`. -/
  | completedNotRunning
  /-- `transition_to_completed`: `assert!(!prev.is_completed())`. -/
  | completedTwice
  /-- `poll_core` finds `TaskStage::Extracted`. -/
  | stageExtracted
  /-- `poll_core` finds `TaskStage::Completed`. -/
  | stageCompleted
  deriving DecidableEq, Repr

inductive TransitionToIdle
  | done
  | notified
  | aborted
  deriving DecidableEq, Repr

inductive TransitionToRunning
  | done
  | aborted
  | alreadyRunning
  deriving DecidableEq, Repr

inductive TransitionToCompleted
  | done
  | hadConnectedJoinHandle
  | aborted
  deriving DecidableEq, Repr

inductive TransitionToNotified
  | done
  | alreadyNotified
  | running
  deriving DecidableEq, Repr

inductive TransitionToSafetyNotified
  | done
  | alreadyNotified
  | running
  deriving DecidableEq, Repr

inductive TransitionToCanceled
  | done
  | alreadyDone
  | doneWhileRunning
  deriving DecidableEq, Repr

/-- `TaskStateSnapshot`: the state word. -/
structure TaskStateSnapshot where
  bits : UInt32
  deriving DecidableEq, Repr

namespace TaskStateSnapshot

/-- `TaskState::new`: an idle task. -/
def new : TaskStateSnapshot := ⟨taskStateIdle⟩

def isCompleted (v : TaskStateSnapshot) : Bool :=
  (v.bits &&& taskStateCompleted) == taskStateCompleted

def isRunning (v : TaskStateSnapshot) : Bool :=
  (v.bits &&& taskStateRunning) == taskStateRunning

def isIdle (v : TaskStateSnapshot) : Bool :=
  (v.bits &&& taskStateIdle) == taskStateIdle

def isCanceled (v : TaskStateSnapshot) : Bool :=
  (v.bits &&& taskStateCanceled) == taskStateCanceled

/-- `is_notified`: one of the two notification bits is set. -/
def isNotified (v : TaskStateSnapshot) : Bool :=
  (v.bits &&& (taskNotified ||| taskNotifiedSafety)) != 0

def isSafetyNotified (v : TaskStateSnapshot) : Bool :=
  (v.bits &&& taskNotifiedSafety) != 0

def hasJoinHandle (v : TaskStateSnapshot) : Bool :=
  (v.bits &&& taskJoinHandleAttached) == taskJoinHandleAttached

def setJoinHandle (v : TaskStateSnapshot) : TaskStateSnapshot :=
  ⟨v.bits ||| taskJoinHandleAttached⟩

/-- `set_running`: flips the idle and the running bit. -/
def setRunning (v : TaskStateSnapshot) : TaskStateSnapshot :=
  ⟨v.bits ^^^ (taskStateRunning ||| taskStateIdle)⟩

/-- `set_idle`: flips the idle and the running bit. -/
def setIdle (v : TaskStateSnapshot) : TaskStateSnapshot :=
  ⟨v.bits ^^^ (taskStateRunning ||| taskStateIdle)⟩

def setNotified (v : TaskStateSnapshot) : TaskStateSnapshot :=
  ⟨v.bits ||| taskNotified⟩

def setSafetyNotified (v : TaskStateSnapshot) : TaskStateSnapshot :=
  ⟨v.bits ||| taskNotifiedSafety⟩

def setCanceled (v : TaskStateSnapshot) : TaskStateSnapshot :=
  ⟨v.bits ||| taskStateCanceled⟩

/-- `unset_notified`: clears both notification bits. -/
def unsetNotified (v : TaskStateSnapshot) : TaskStateSnapshot :=
  ⟨v.bits &&& ~~~(taskNotified ||| taskNotifiedSafety)⟩

end TaskStateSnapshot

namespace TaskState

open TaskStateSnapshot

/-- The closure of `transition_to_completed`. -/
def transitionToCompleted (prev : TaskStateSnapshot) :
    Except Panic (Option TaskStateSnapshot × TransitionToCompleted) :=
  if !prev.isRunning then
    .error .completedNotRunning
  else if prev.isCompleted then
    .error .completedTwice
  else if prev.isCanceled then
    .ok (none, .aborted)
  else
    .ok (some ⟨taskStateCompleted⟩, if prev.hasJoinHandle then .hadConnectedJoinHandle else .done)

/-- The closure of `transition_to_running`. -/
def transitionToRunning (prev : TaskStateSnapshot) :
    Except Panic (Option TaskStateSnapshot × TransitionToRunning) :=
  if prev.isRunning then
    .ok (none, .alreadyRunning)
  else if !prev.isIdle then
    .error .runningNotIdle
  else if prev.isCompleted then
    .ok (none, .done)
  else if prev.isCanceled then
    .ok (none, .aborted)
  else
    .ok (some prev.unsetNotified.setRunning, .done)

/-- The closure of `transition_to_idle`. -/
def transitionToIdle (prev : TaskStateSnapshot) :
    Except Panic (Option TaskStateSnapshot × TransitionToIdle) :=
  if !prev.isRunning then
    .error .idleNotRunning
  else if prev.isIdle then
    .error .idleAlreadyIdle
  else if prev.isCanceled then
    .ok (none, .aborted)
  else
    .ok (some prev.setIdle, if prev.isNotified then .notified else .done)

/-- The closure of `transition_to_canceled`. -/
def transitionToCanceled (old : TaskStateSnapshot) :
    Option TaskStateSnapshot × TransitionToCanceled :=
  if old.isCompleted || old.isCanceled then
    (none, .alreadyDone)
  else
    (some old.setCanceled, if old.isRunning then .doneWhileRunning else .done)

/-- The closure of `set_waker`. -/
def setWaker (old : TaskStateSnapshot) : Option TaskStateSnapshot × Bool :=
  if old.isCompleted || old.isCanceled then
    (none, false)
  else
    (some old.setJoinHandle, true)

/-- The closure of `set_notified`. -/
def setNotified (old : TaskStateSnapshot) : Option TaskStateSnapshot × TransitionToNotified :=
  if old.isCompleted || old.isNotified || old.isCanceled then
    (none, .alreadyNotified)
  else
    (some old.setNotified, if old.isRunning then .running else .done)

/-- The closure of `set_safety_notified`. Only the safety bit counts as already notified. -/
def setSafetyNotified (old : TaskStateSnapshot) :
    Option TaskStateSnapshot × TransitionToSafetyNotified :=
  if old.isCompleted || old.isSafetyNotified || old.isCanceled then
    (none, .alreadyNotified)
  else
    (some old.setSafetyNotified, if old.isRunning then .running else .done)

end TaskState

end Kyron.Task
