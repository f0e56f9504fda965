/-!
# `Kyron.Futures.FutureState`: how the leaf futures return

The model of `futures/mod.rs`. A leaf future computes a `FutureInternalReturn`, and
`assign_and_propagate` makes it the state of the future and the answer of its poll.
-/

set_option autoImplicit false

namespace Kyron.Futures

/-- `FutureState`. -/
inductive FutureState
  | new
  | polled
  | finished
  deriving DecidableEq, Repr

/-- `core::task::Poll`. -/
inductive Poll (α : Type)
  | pending
  | ready (v : α)
  deriving DecidableEq, Repr

/-- `FutureInternalReturn`. -/
structure FutureInternalReturn (α : Type) where
  state : FutureState
  value : Option α
  deriving DecidableEq, Repr

namespace FutureInternalReturn

variable {α : Type}

def polled : FutureInternalReturn α := ⟨.polled, none⟩

def ready (v : α) : FutureInternalReturn α := ⟨.finished, some v⟩

/-- `into`. -/
def toPoll (r : FutureInternalReturn α) : Poll α :=
  match r.value with
  | some v => .ready v
  | none => .pending

/-- `assign_and_propagate`: the new state of the future and the answer. -/
def assignAndPropagate (r : FutureInternalReturn α) : FutureState × Poll α := (r.state, r.toPoll)

end FutureInternalReturn

end Kyron.Futures
