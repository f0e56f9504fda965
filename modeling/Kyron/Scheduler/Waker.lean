/-!
# `Kyron.Scheduler.Waker`: wakers, and the store that holds one of them

The model of `AtomicWakerStore` in `scheduler/waker.rs`. A waker is a data pointer and a table of
functions. The wakers of the runtime point to a task and have the table `VTABLE`, but a future
may also be polled with a waker that somebody else has made, with any pointer and any table.

The store keeps the data pointer alone, and null stands for an empty store. What is taken out of
it is a waker with the table `VTABLE`, whatever was put in.
-/

set_option autoImplicit false

namespace Kyron.Scheduler

/-- The table of functions of a waker. -/
inductive WakerVTable (F : Type)
  /-- `VTABLE`, with the functions for tasks. -/
  | task
  /-- `VTABLE` of `safety_waker.rs`, with the functions for the safety worker. -/
  | safety
  /-- A table from elsewhere. -/
  | other (f : F)
  deriving DecidableEq, Repr

/-- A `Waker`. `P` are the addresses other than null. -/
structure Waker (P F : Type) where
  data : Option P
  vtable : WakerVTable F
  deriving DecidableEq, Repr

/-- `create_waker`, of the task at an address. -/
def createWaker {P F : Type} (task : P) : Waker P F := ⟨some task, .task⟩

/-- `create_safety_waker`. -/
def createSafetyWaker {P F : Type} (waker : Waker P F) : Waker P F := ⟨waker.data, .safety⟩

/-- `AtomicWakerStore`. -/
structure AtomicWakerStore (P : Type) where
  data : Option P
  deriving DecidableEq, Repr

namespace AtomicWakerStore

variable {P F : Type}

/-- `AtomicWakerStore::default`. -/
def empty : AtomicWakerStore P := ⟨none⟩

/-- `swap`: the waker that was in the store, and the store after that. -/
def swap (store : AtomicWakerStore P) (waker : Option (Waker P F)) :
    Option (Waker P F) × AtomicWakerStore P :=
  (store.data.map createWaker, ⟨waker.bind Waker.data⟩)

/-- `take`. -/
def take (store : AtomicWakerStore P) : Option (Waker P F) × AtomicWakerStore P :=
  store.swap none

end AtomicWakerStore

end Kyron.Scheduler
