import Mathlib.Data.List.Basic

/-!
# `Kyron.Containers.TriggerQueue`: the bounded queue of a dedicated worker

The model of the queue operations of `containers/trigger_queue.rs`. Every operation runs under the
mutex of the queue, so it is one step. `Queue` is a ring of `capacity` slots, here the list of
its elements from the tail to the head. The condition variable is left out: it decides when a
blocking pop looks at the queue, not what it finds there.
-/

set_option autoImplicit false

namespace Kyron.Containers

/-- `TriggerQueue`. -/
structure TriggerQueue (α : Type) where
  capacity : Nat
  data : List α
  deriving DecidableEq, Repr

namespace TriggerQueue

variable {α : Type}

def new (capacity : Nat) : TriggerQueue α where
  capacity := capacity
  data := []

/-- `push`. A full queue refuses the value. -/
def push (q : TriggerQueue α) (value : α) : TriggerQueue α × Bool :=
  if q.data.length = q.capacity then (q, false)
  else ({ q with data := q.data ++ [value] }, true)

/-- `pop`, which a blocking pop makes when the queue is not empty. -/
def pop (q : TriggerQueue α) : Option (α × TriggerQueue α) :=
  match q.data with
  | [] => none
  | value :: rest => some (value, { q with data := rest })

/-- `pop_into_vec`: pops until the queue is empty or the container of `size` places is full. -/
def popIntoVec (q : TriggerQueue α) (size : Nat) (container : List α) :
    TriggerQueue α × List α :=
  let n := size - container.length
  ({ q with data := q.data.drop n }, container ++ q.data.take n)

end TriggerQueue

end Kyron.Containers
