import Mathlib.Data.Fintype.BigOperators
import Kyron.Lib.RefCount
import Kyron.Task.AsyncTask

/-!
# `Kyron.Task.References`: who keeps a task alive

The model of the reference counting around `TaskRef` in `scheduler/task/async_task.rs`, with the
two waker tables and `AtomicWakerStore` in `scheduler/waker.rs` and `scheduler/safety_waker.rs`,
the `JoinHandle`, and `run_task` of the workers with its `TaskContextGuard`. It is a layer over
one task: `References` adds the strong count of the `Arc` and the places that hold a reference.

* `spawn` leaves three references behind: one in a queue, one in the join handle, and its own
  `Arc`, which goes away when `spawn` returns.
* A waker is one reference, whichever table it has. `wake` passes it on to `schedule`, and
  `wake_by_ref` passes a clone on. `create_safety_waker` changes the table only.
* `AtomicWakerStore` keeps the pointer of a waker and forgets the table.
* A worker that has popped a reference clones it for the waker of the context, and again for the
  running task of the thread. After the poll it drops these two, and then the popped one unless
  it went back to a queue.
* A call on the join handle borrows the reference of the handle.

Every change of the count is one step. A reference that is dropped as the last one releases the
task. An activity that has panicked keeps what it holds: how a panic unwinds is left out.
-/

set_option autoImplicit false

namespace Kyron.Task

open Kyron.Lib

/-- The references that an activity holds. -/
inductive Holding
  | nothing
  /-- The reference that `schedule` or `schedule_safety` was called with. -/
  | waking
  /-- A worker with the reference from the queue, before it clones it for the waker. -/
  | popped
  /-- A worker, before it clones the reference for the running task of its thread. -/
  | withWaker
  /-- A worker in `poll`, or in the push after it. -/
  | polling
  /-- A worker that has pushed the task back, with the running task and the waker to drop. -/
  | respawned
  /-- A worker, before it drops the waker. `task` says whether it still has the popped one. -/
  | unguarded (task : Bool)
  /-- A worker, before it drops the popped reference. -/
  | unwakered
  deriving DecidableEq, Repr

/-- How many references these are. -/
def Holding.refs : Holding → Nat
  | .nothing => 0
  | .waking | .popped | .unwakered => 1
  | .withWaker | .respawned => 2
  | .polling => 3
  | .unguarded task => if task then 2 else 1

/-- What is left when the reference was passed on to a push. -/
def Holding.passOn : Holding → Holding
  | .waking => .nothing
  | .polling => .respawned
  | h => h

/-- What is left after the next drop at the end of a call. -/
def Holding.afterDrop : Holding → Option Holding
  | .waking => some .nothing
  | .polling => some (.unguarded true)
  | .respawned => some (.unguarded false)
  | .unguarded true => some .unwakered
  | .unguarded false => some .nothing
  | .unwakered => some .nothing
  | .nothing | .popped | .withWaker => none

/-- The join handle of the task. -/
inductive Handle (T : Type)
  | dropped
  | owned
  /-- An activity is in a call on the handle. -/
  | borrowed (t : T)
  deriving DecidableEq, Repr

/-- The reference of the handle. A call borrows it. -/
def Handle.refs {T : Type} : Handle T → Nat
  | .dropped => 0
  | .owned | .borrowed _ => 1

/-- A task with its reference count and what holds the references. `wakers` are the wakers of the
task outside of the stores, by table. -/
structure References (T S : Type) where
  sys : Sys T
  count : RefCount
  /-- The `Arc` of a `spawn` that has not returned. -/
  spawning : Bool
  wakers : Lane → Nat
  /-- Whether an `AtomicWakerStore` holds a waker of the task. -/
  stores : S → Bool
  handle : Handle T
  holds : T → Holding

inductive RefAction (T S : Type)
  /-- `spawn` returns and drops its `Arc`. -/
  | spawnReturns
  /-- A waker is cloned. -/
  | cloneWaker (table : Lane)
  /-- The future clones the waker of the context in which the activity polls it. -/
  | cloneContext (t : T)
  | dropWaker (table : Lane)
  /-- `create_safety_waker`. -/
  | createSafetyWaker (table : Lane)
  /-- `AtomicWakerStore::swap`. It is given a waker of the task, or another waker or none. -/
  | swap (store : S) (given : Option Lane)
  /-- `wake` of a waker. -/
  | wake (t : T) (table : Lane)
  /-- `wake_by_ref` of a waker. -/
  | wakeByRef (t : T) (table : Lane)
  /-- The future calls `wake_by_ref` of the context in which `poller` polls it. -/
  | wakeContext (t poller : T)
  | abort (t : T)
  | attach (t : T)
  | takeResult
  /-- The call on the join handle returns. -/
  | handleReturns (t : T)
  | dropHandle
  | pop (t : T) (lane : Lane)
  /-- `create_waker(task.clone())`. -/
  | createWaker (t : T)
  /-- `TaskContextGuard::new(task.clone())`. -/
  | setRunningTask (t : T)
  | advance (t : T)
  | poll (t : T) (ready : Bool)
  | push (t : T) (fits : Bool)
  /-- The next drop of a reference at the end of a call. -/
  | dropRef (t : T)
  deriving DecidableEq, Repr

/-- The wake of a waker with the given table. -/
def wakeAction {T : Type} (t : T) : Lane → Action T
  | .normal => .wake t
  | .safety => .wakeSafety t

namespace Sys

variable {T : Type}

/-- How many entries the queues hold. -/
def queued (s : Sys T) : Nat := s.entries .normal + s.entries .safety

end Sys

namespace References

variable {T S : Type} [DecidableEq T] [DecidableEq S]

def spawned (lane : Lane) (hasSafety : Bool) : References T S where
  sys := Sys.spawned lane hasSafety
  count := .new 3
  spawning := true
  wakers := fun _ => 0
  stores := fun _ => false
  handle := .owned
  holds := fun _ => .nothing

/-- `clone_vtable`. -/
def increment (s : References T S) : References T S := { s with count := s.count.increment }

/-- `drop_vtable`. -/
def decrement (s : References T S) : References T S := { s with count := s.count.decrement }

def setHolds (s : References T S) (t : T) (h : Holding) : References T S :=
  { s with holds := Function.update s.holds t h }

def addWaker (s : References T S) (table : Lane) : References T S :=
  { s with wakers := Function.update s.wakers table (s.wakers table + 1) }

def removeWaker (s : References T S) (table : Lane) : References T S :=
  { s with wakers := Function.update s.wakers table (s.wakers table - 1) }

/-- A step of the task itself. -/
def act (s : References T S) (a : Action T) : Option (References T S) :=
  (s.sys.step a).map fun sys => { s with sys }

/-- The activity is in no call. -/
def isFree (s : References T S) (t : T) : Bool :=
  s.holds t = .nothing && s.handle ≠ .borrowed t

/-- `wake` and `wake_by_ref` call `schedule` with a reference. -/
def schedule (s : References T S) (t : T) (table : Lane) : Option (References T S) :=
  if s.isFree t then (s.setHolds t .waking).act (wakeAction t table) else none

/-- `swap`: the waker that was given is forgotten, and the pointer that was there becomes a waker
with the table of `waker.rs`. -/
def swap (s : References T S) (store : S) (given : Option Lane) : References T S :=
  let s' := match given with
    | some table => s.removeWaker table
    | none => s
  let s' := if s.stores store then s'.addWaker .normal else s'
  { s' with stores := Function.update s.stores store given.isSome }

/-- The activity is in a call with a reference of its own. -/
def inCall (s : References T S) (t : T) : Bool := s.holds t = .waking || s.holds t = .polling

/-- The future is polled by the activity, so it can use the waker of the context. -/
def inFuture (s : References T S) (t : T) : Bool :=
  match s.sys.pc t with
  | .inFuture _ => s.holds t = .polling
  | _ => false

/-- A push takes the reference. A push that is refused without a panic, and the safety wake
without a safety worker, drop it. -/
def afterPush (s : References T S) (t : T) (sys : Sys T) : References T S :=
  let s' := { s with sys }
  if sys.pc t = .overflow then s'
  else
    let s' := s'.setHolds t (s.holds t).passOn
    if sys.queued = s.sys.queued then s'.decrement else s'

/-- A call on the join handle begins. -/
def borrow (s : References T S) (t : T) (a : Action T) : Option (References T S) :=
  if s.handle = .owned ∧ s.holds t = .nothing then { s with handle := .borrowed t }.act a else none

def step (s : References T S) : RefAction T S → Option (References T S)
  | .spawnReturns => if s.spawning then some { s with spawning := false }.decrement else none
  | .cloneWaker table =>
      if 0 < s.wakers table then some (s.increment.addWaker table) else none
  | .cloneContext t => if s.inFuture t then some (s.increment.addWaker .normal) else none
  | .dropWaker table =>
      if 0 < s.wakers table then some (s.removeWaker table).decrement else none
  | .createSafetyWaker table =>
      if 0 < s.wakers table then some ((s.removeWaker table).addWaker .safety) else none
  | .swap store (some table) =>
      if 0 < s.wakers table then some (s.swap store (some table)) else none
  | .swap store none => some (s.swap store none)
  | .wake t table =>
      if 0 < s.wakers table then (s.removeWaker table).schedule t table else none
  | .wakeByRef t table => if 0 < s.wakers table then s.increment.schedule t table else none
  | .wakeContext t poller => if s.inFuture poller then s.increment.schedule t .normal else none
  | .abort t => s.borrow t (.abort t)
  | .attach t => s.borrow t (.attach t)
  | .takeResult => if s.handle = .owned then s.act .takeResult else none
  | .handleReturns t =>
      if s.handle = .borrowed t ∧ s.sys.pc t = .idle then some { s with handle := .owned }
      else none
  | .dropHandle =>
      if s.handle = .owned then some { s with handle := .dropped }.decrement else none
  | .pop t lane =>
      if s.isFree t then (s.setHolds t .popped).act (.pop t lane) else none
  | .createWaker t =>
      if s.holds t = .popped then some (s.increment.setHolds t .withWaker) else none
  | .setRunningTask t =>
      if s.holds t = .withWaker then some (s.increment.setHolds t .polling) else none
  | .advance t =>
      if s.inCall t ∨ s.handle = .borrowed t then s.act (.advance t) else none
  | .poll t ready => if s.holds t = .polling then s.act (.poll t ready) else none
  | .push t fits =>
      if s.inCall t then (s.sys.step (.push t fits)).map (s.afterPush t) else none
  | .dropRef t =>
      if s.sys.pc t = .idle then
        (s.holds t).afterDrop.map fun h => (s.setHolds t h).decrement
      else none

/-- The references that exist, wherever they are. -/
def total [Fintype T] [Fintype S] (s : References T S) : Nat :=
  s.sys.queued + (s.wakers .normal + s.wakers .safety) + (∑ x, (s.stores x).toNat)
    + s.handle.refs + s.spawning.toNat + ∑ t, (s.holds t).refs

end References

end Kyron.Task
