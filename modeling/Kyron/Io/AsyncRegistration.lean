import Kyron.Containers.IntrusiveList
import Kyron.Io.Readiness
import Kyron.Lib.Transition

/-!
# `Kyron.Io.AsyncRegistration`: one registration, its waiters and its wakes

The model of `RegistrationInfo` and `ReadinessFuture` in `io/async_registration.rs`. One
registration is shared by any number of futures, calls of `wake` by the driver, calls of
`poll_register_interest` and calls of `clear_readiness`. A future is polled or dropped by one
thread at a time, so each future has one place where it stands. The other calls are made by
activities.

The readiness word is read and updated in single steps, outside the lock. The list of waiters
and the two slots are touched only under the lock of the wakers. `wake_all` goes over the
waiters one by one: it unlinks those that match and keeps up to `MAX_WAKEUPS` wakers to wake
after it has released the lock. The list is the sequence of its items; `removeSpec` is what
`remove` does to it, and where that has no answer the call hangs with the lock held.

For each future the model keeps what the waiting guarantee is about: the waker of the most
recent poll, whether that poll returned `Pending`, and whether that waker has been woken since
that poll began. The identities of wakers are a parameter.
-/

set_option autoImplicit false

namespace Kyron.Io

open Kyron.Containers

/-- `FutureState`. -/
inductive FutureState
  | new
  | polled
  | finished
  deriving DecidableEq, Repr

/-- `MAX_WAKEUPS`: how many wakers `wake_all` keeps to wake outside of the lock. -/
def maxWakeups : Nat := 6

/-- Where a future stands in its `poll` or `drop`. -/
inductive FuturePc (W : Type)
  | idle
  /-- `poll`, before `is_ready`. -/
  | isReady (waker : W)
  /-- First `poll`, before the lock. -/
  | lock (waker : W)
  /-- First `poll`, with the lock, before `is_ready` is checked again. -/
  | recheck (waker : W)
  /-- First `poll`, with the lock, before `push_back`. -/
  | push (waker : W)
  /-- Before the lock for `remove`, of a `poll` that found `result` or of a `drop`. -/
  | removeLock (result : Option ReadinessState)
  /-- With the lock, before `remove`. -/
  | remove (result : Option ReadinessState)
  /-- In a `remove` that never ends, with the lock. -/
  | hung
  deriving DecidableEq, Repr

/-- A `ReadinessFuture` with its list item. The last four fields are its history. -/
structure ReadinessFuture (W : Type) where
  state : FutureState
  interest : IoEventInterest
  waker : Option W
  pc : FuturePc W
  lastWaker : Option W
  pending : Bool
  woken : Bool
  dropped : Bool
  deriving DecidableEq, Repr

/-- Where an activity stands in `wake` or `poll_register_interest`. -/
inductive CallPc (F W : Type)
  | idle
  /-- `wake`, before `mark_state`. -/
  | mark (state : ReadinessState)
  /-- `wake_all`, before the lock. -/
  | wakeLock (readiness : ReadinessState)
  /-- `wake_all`, with the lock, before the slots are taken. -/
  | slots (readiness : ReadinessState)
  /-- `wake_all`, with the lock, with the waiters still to look at and the wakers kept. -/
  | waiters (readiness : ReadinessState) (todo : List F) (kept : List W)
  /-- `wake_all`, after the lock, with the wakers still to wake. -/
  | waking (kept : List W)
  /-- `elem.waker.as_ref().unwrap()` on no waker. -/
  | panicked
  /-- `poll_register_interest`, before `is_ready`. -/
  | registerReady (interest : IoEventInterest) (waker : W)
  /-- `poll_register_interest`, before the lock. -/
  | registerLock (interest : IoEventInterest) (waker : W)
  /-- `poll_register_interest`, with the lock, before `is_ready` is checked again. -/
  | registerRecheck (interest : IoEventInterest) (waker : W)
  /-- `poll_register_interest`, with the lock, before the waker is stored. -/
  | registerStore (interest : IoEventInterest) (waker : W)
  deriving DecidableEq, Repr

/-- A registration with its futures `F`, its activities `T` and the wakers `W`. `lock` is the
holder of the lock of the wakers. -/
structure Registration (F T W : Type) where
  readiness : ReadinessState
  read : Option W
  write : Option W
  waiters : List F
  lock : Option (F ⊕ T)
  futures : F → ReadinessFuture W
  calls : T → CallPc F W

/-- What can happen on a registration. -/
inductive Action (F T W : Type)
  /-- A `poll` of a future begins. -/
  | poll (f : F) (waker : W)
  /-- The `drop` of a future begins. -/
  | drop (f : F)
  /-- A future makes its next step. -/
  | advance (f : F)
  /-- A call `wake(state)` begins. -/
  | wake (t : T) (state : ReadinessState)
  /-- A call of `poll_register_interest` begins. -/
  | register (t : T) (interest : IoEventInterest) (waker : W)
  /-- An activity makes its next step. -/
  | step (t : T)
  /-- A call of `clear_readiness`. -/
  | clear (readiness : ReadinessState) (interest : IoEventInterest)
  deriving DecidableEq, Repr

namespace Registration

variable {F T W : Type} [DecidableEq F] [DecidableEq T] [DecidableEq W]

/-- A new registration whose futures have the given interests. -/
def new (interests : F → IoEventInterest) : Registration F T W where
  readiness := ⟨0⟩
  read := none
  write := none
  waiters := []
  lock := none
  futures := fun f =>
    { state := .new, interest := interests f, waker := none, pc := .idle, lastWaker := none,
      pending := false, woken := false, dropped := false }
  calls := fun _ => .idle

def setFuture (s : Registration F T W) (f : F) (r : ReadinessFuture W) : Registration F T W :=
  { s with futures := Function.update s.futures f r }

def setCall (s : Registration F T W) (t : T) (pc : CallPc F W) : Registration F T W :=
  { s with calls := Function.update s.calls t pc }

/-- A waker is woken: the futures that were last polled with it have been woken. -/
def wakeWaker (s : Registration F T W) (w : W) : Registration F T W :=
  { s with futures := fun f =>
      if (s.futures f).lastWaker = some w then { s.futures f with woken := true }
      else s.futures f }

/-- The end of a `poll` that found the interest ready. -/
def finishPoll (s : Registration F T W) (f : F) : Registration F T W :=
  s.setFuture f { s.futures f with state := .finished, pc := .idle }

/-- The end of a `poll` that returns `Pending`. -/
def pendPoll (s : Registration F T W) (f : F) : Registration F T W :=
  s.setFuture f { s.futures f with state := .polled, pc := .idle, pending := true }

/-- A future takes the lock when it is free, and goes on at `pc`. -/
def lockFuture (s : Registration F T W) (f : F) (pc : FuturePc W) : Option (Registration F T W) :=
  if s.lock = none then
    some ({ s with lock := some (.inl f) }.setFuture f { s.futures f with pc })
  else
    none

/-- The next step of a future. -/
def advance (s : Registration F T W) (f : F) : Option (Registration F T W) :=
  let r := s.futures f
  match r.pc with
  | .idle => none
  | .isReady w =>
      match r.state, s.readiness.isReady r.interest with
      | .new, some _ => some (s.finishPoll f)
      | .new, none => some (s.setFuture f { r with pc := .lock w })
      | .polled, some result => some (s.setFuture f { r with pc := .removeLock (some result) })
      -- The node is left as it is, linked or not.
      | .polled, none => some (s.pendPoll f)
      | .finished, _ => none
  | .lock w => s.lockFuture f (.recheck w)
  | .recheck w =>
      match s.readiness.isReady r.interest with
      | some _ => some ({ s with lock := none }.finishPoll f)
      | none => some (s.setFuture f { r with pc := .push w })
  | .push w =>
      some ({ s with lock := none, waiters := s.waiters ++ [f] }.setFuture f
        { r with waker := some w, state := .polled, pc := .idle, pending := true })
  | .removeLock result => s.lockFuture f (.remove result)
  | .remove result =>
      match IntrusiveList.removeSpec s.waiters f with
      -- `remove` does not return, and the lock is never released.
      | none => some (s.setFuture f { r with pc := .hung })
      | some (_, waiters) =>
          match result with
          | some _ => some ({ s with lock := none, waiters }.finishPoll f)
          | none => some ({ s with lock := none, waiters }.setFuture f
              { r with pc := .idle, dropped := true })
  | .hung => none

/-- The closure of `remove_if` in `wake_all` on one waiter. -/
def wakeWaiter (s : Registration F T W) (t : T) (readiness : ReadinessState) (f : F)
    (todo : List F) (kept : List W) : Registration F T W :=
  let r := s.futures f
  match readiness.intersection (.ofInterest r.interest) with
  | none => s.setCall t (.waiters readiness todo kept)
  | some _ =>
      match r.waker with
      | none => s.setCall t .panicked
      | some w =>
          let s := { s with waiters := s.waiters.erase f }
          if kept.length < maxWakeups then
            s.setCall t (.waiters readiness todo (kept ++ [w]))
          else
            (s.wakeWaker w).setCall t (.waiters readiness todo kept)

/-- An activity takes the lock when it is free, and goes on at `pc`. -/
def lockCall (s : Registration F T W) (t : T) (pc : CallPc F W) : Option (Registration F T W) :=
  if s.lock = none then some ({ s with lock := some (.inr t) }.setCall t pc) else none

/-- The next step of an activity. -/
def stepCall (s : Registration F T W) (t : T) : Option (Registration F T W) :=
  match s.calls t with
  | .idle => none
  | .mark state =>
      let readiness := s.readiness.markState state
      some ({ s with readiness }.setCall t (.wakeLock readiness))
  | .wakeLock readiness => s.lockCall t (.slots readiness)
  | .slots readiness =>
      let read := if readiness.isReadable then s.read.toList else []
      let write := if readiness.isWritable then s.write.toList else []
      some ({ s with
          read := if readiness.isReadable then none else s.read
          write := if readiness.isWritable then none else s.write }.setCall t
        (.waiters readiness s.waiters (read ++ write)))
  | .waiters readiness (f :: todo) kept => some (s.wakeWaiter t readiness f todo kept)
  -- The lock is dropped before the wakers are called.
  | .waiters _ [] kept => some ({ s with lock := none }.setCall t (.waking kept))
  | .waking (w :: kept) => some ((s.wakeWaker w).setCall t (.waking kept))
  | .waking [] => some (s.setCall t .idle)
  | .panicked => none
  | .registerReady interest w =>
      match s.readiness.isReady interest with
      | some _ => some (s.setCall t .idle)
      | none => some (s.setCall t (.registerLock interest w))
  | .registerLock interest w => s.lockCall t (.registerRecheck interest w)
  | .registerRecheck interest w =>
      match s.readiness.isReady interest with
      | some _ => some ({ s with lock := none }.setCall t .idle)
      | none => some (s.setCall t (.registerStore interest w))
  | .registerStore interest w =>
      if interest.isReadable then
        some ({ s with lock := none, read := some w }.setCall t .idle)
      else
        some ({ s with lock := none, write := some w }.setCall t .idle)

/-- The step function. A future is not polled after it has finished, and neither polled nor
dropped after it was dropped. -/
def step (s : Registration F T W) : Action F T W → Option (Registration F T W)
  | .poll f w =>
      let r := s.futures f
      if r.pc = .idle ∧ r.state ≠ .finished ∧ r.dropped = false then
        some (s.setFuture f
          { r with pc := .isReady w, lastWaker := some w, pending := false, woken := false })
      else
        none
  | .drop f =>
      let r := s.futures f
      if r.pc = .idle ∧ r.dropped = false then
        some (s.setFuture f { r with pc := .removeLock none })
      else
        none
  | .advance f => s.advance f
  | .wake t state => if s.calls t = .idle then some (s.setCall t (.mark state)) else none
  | .register t interest w =>
      if s.calls t = .idle then some (s.setCall t (.registerReady interest w)) else none
  | .step t => s.stepCall t
  | .clear readiness interest =>
      some { s with readiness := (s.readiness.clearReadiness readiness interest).getD s.readiness }

end Registration

end Kyron.Io
