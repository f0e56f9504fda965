import Kyron.Task.AsyncTask

/-!
# `Kyron.Task.SafetyJoin`: a task that joins safety tasks of several engines

A runtime has several engines, each with or without a safety worker. A task of one of them, the
joiner, awaits the join handles of safety tasks, which were spawned on any engine. When a safety
task completes, `poll_core` wakes the joiner through the waker in its join handle. It makes a
safety waker of it when the result is an error and the task was spawned with a safety worker in
its context: that is a property of the engine of the safety task. Where the wake goes is decided
by `respawn_into_safety` of the scheduler of the joiner.

The joiner is a `Sys` with everything that can happen to a task. Its wakers are regular ones, and
safety wakers are made only by a completion.
-/

set_option autoImplicit false

namespace Kyron.Task

/-- The engines of a runtime, the one of the joiner and that of each safety task. -/
structure Engines (E C : Type) where
  hasSafety : E → Bool
  joiner : E
  child : C → E

/-- The joiner, and which safety tasks have completed. -/
structure SafetyJoin (T C : Type) where
  joiner : Sys T
  completed : C → Bool

inductive JoinAction (T C : Type)
  /-- Something happens to the joiner. -/
  | joiner (a : Action T)
  /-- A safety task completes, with an error or not, and wakes the joiner. -/
  | complete (c : C) (t : T) (isErr : Bool)
  deriving DecidableEq, Repr

namespace SafetyJoin

variable {E T C : Type} [DecidableEq T] [DecidableEq C]

def new (r : Engines E C) : SafetyJoin T C where
  joiner := Sys.spawned .normal (r.hasSafety r.joiner)
  completed := fun _ => false

/-- The end of `poll_core`: a safety waker if `is_safety_err && self.is_with_safety`. -/
def wakeJoiner (isWithSafety isSafetyErr : Bool) (t : T) : Action T :=
  if isSafetyErr && isWithSafety then .wakeSafety t else .wake t

def step (r : Engines E C) (s : SafetyJoin T C) : JoinAction T C → Option (SafetyJoin T C)
  | .joiner (.wakeSafety _) => none
  | .joiner a => (s.joiner.step a).map fun joiner => { s with joiner }
  | .complete c t isErr =>
      if s.completed c then none
      else
        (s.joiner.step (wakeJoiner (r.hasSafety (r.child c)) isErr t)).map fun joiner =>
          { joiner, completed := Function.update s.completed c true }

end SafetyJoin

end Kyron.Task
