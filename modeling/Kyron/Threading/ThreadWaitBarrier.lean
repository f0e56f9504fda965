import Mathlib.Logic.Function.Basic
import Kyron.Lib.Transition

/-!
# `Kyron.Threading.ThreadWaitBarrier`: waiting until a number of threads are ready

The model of `ThreadWaitBarrier` and `ThreadReadyNotifier` in
`kyron-foundation/src/threading/thread_wait_barrier.rs`. The barrier is made for a number of
threads. `get_notifier` hands out at most as many notifiers, and each notifier can be used for one
call of `ready`. `wait_for_all` waits until the count is down to zero, or for a given time.

Any number of calls of `get_notifier` and `ready` run at the same time, and one thread calls
`wait_for_all`, which may do so again. Every access to the counter of notifiers, to the mutex, to
the count behind it and to the condition variable is a step.

* `fetch_update` is a load followed by attempts of a weak compare-and-exchange, each of which may
  fail without a reason.
* A notifier may be dropped without a call of `ready`.
* `wait_timeout_while` is the loop of the standard library: it looks at the condition with the
  mutex, then at the time that is left, and then gives the mutex away and waits in one step. A
  wait may end at any time, whether it was notified or not.
* The count behind the mutex is a `u32`. A decrement of zero would be an overflow.
-/

set_option autoImplicit false

namespace Kyron.Threading

/-- Where a call of `get_notifier` or of `ready` stands. -/
inductive NotifierPc
  | idle
  /-- In `get_notifier`, before the load of `ntf_cnt`. -/
  | load
  /-- In `get_notifier`, before the exchange of the loaded value. -/
  | exchange (current : Nat)
  /-- In `ready`, before the mutex. -/
  | lock
  /-- In `ready`, with the mutex, before the count goes down. -/
  | decrement
  /-- In `ready`, before the mutex is released. -/
  | unlock
  /-- In `ready`, before `notify_one`. -/
  | notify
  /-- The count was zero already. -/
  | overflow
  deriving DecidableEq, Repr

/-- Where the thread in `wait_for_all` stands. -/
inductive WaiterPc
  | idle
  /-- Before the mutex, at the start or on the way back from a wait. -/
  | lock
  /-- With the mutex, before the condition is looked at. -/
  | check
  /-- With the mutex, the count was not zero. -/
  | timeLeft
  /-- With the mutex, decided to wait. -/
  | block
  /-- Waiting for the condition variable, without the mutex. -/
  | sleep
  /-- `wait_for_all` has returned, `Err(Timeout)` if it has timed out and `Ok` otherwise. `left`
  is the count that it has seen last. -/
  | done (timedOut : Bool) (left : Nat)
  deriving DecidableEq, Repr

/-- Who holds the mutex. -/
inductive BarrierParty (A : Type)
  | waiter
  | call (a : A)
  deriving DecidableEq, Repr

/-- `ThreadWaitBarrier`, with the calls `A`. `notifiers` are the notifiers that were handed out
and not used yet. The last two fields are not part of the source: how often the count went down,
and whether `get_notifier` has answered `None`. -/
structure ThreadWaitBarrier (A : Type) where
  expectedCnt : Nat
  ntfCnt : Nat
  value : Nat
  lock : Option (BarrierParty A)
  notifiers : Nat
  calls : A → NotifierPc
  waiter : WaiterPc
  readies : Nat
  refused : Bool

inductive BarrierAction (A : Type)
  | getNotifier (a : A)
  | ready (a : A)
  /-- A notifier is dropped. -/
  | drop
  /-- The exchange of a call fails without a reason. -/
  | exchangeFails (a : A)
  /-- A call of `get_notifier` or `ready` makes its next step. -/
  | advance (a : A)
  | waitForAll
  /-- The waiter makes its next step. -/
  | waiter
  /-- The time of the waiter is up when it looks. -/
  | timeUp
  /-- The wait on the condition variable ends. -/
  | wakeUp
  deriving DecidableEq, Repr

namespace ThreadWaitBarrier

variable {A : Type} [DecidableEq A]

def new (threadToWait : Nat) : ThreadWaitBarrier A where
  expectedCnt := threadToWait
  ntfCnt := 0
  value := threadToWait
  lock := none
  notifiers := 0
  calls := fun _ => .idle
  waiter := .idle
  readies := 0
  refused := false

def goto (s : ThreadWaitBarrier A) (a : A) (pc : NotifierPc) : ThreadWaitBarrier A :=
  { s with calls := Function.update s.calls a pc }

/-- `cv.notify_one()`. -/
def notifyOne (s : ThreadWaitBarrier A) : ThreadWaitBarrier A :=
  if s.waiter = .sleep then { s with waiter := .lock } else s

/-- An attempt of `fetch_update` with the loaded value. -/
def exchange (s : ThreadWaitBarrier A) (a : A) (current : Nat) : ThreadWaitBarrier A :=
  if current ≥ s.expectedCnt then { s with refused := true }.goto a .idle
  else if s.ntfCnt = current then
    { s with ntfCnt := current + 1, notifiers := s.notifiers + 1 }.goto a .idle
  else s.goto a (.exchange s.ntfCnt)

/-- The next step of a call. -/
def stepCall (s : ThreadWaitBarrier A) (a : A) : Option (ThreadWaitBarrier A) :=
  match s.calls a with
  | .load => some (s.goto a (.exchange s.ntfCnt))
  | .exchange current => some (s.exchange a current)
  | .lock =>
      if s.lock = none then some ({ s with lock := some (.call a) }.goto a .decrement) else none
  | .decrement =>
      if s.value = 0 then some (s.goto a .overflow)
      else some ({ s with value := s.value - 1, readies := s.readies + 1 }.goto a .unlock)
  | .unlock => some ({ s with lock := none }.goto a .notify)
  | .notify => some (s.notifyOne.goto a .idle)
  | .idle | .overflow => none

/-- The next step of the waiter. -/
def stepWaiter (s : ThreadWaitBarrier A) : Option (ThreadWaitBarrier A) :=
  match s.waiter with
  | .lock => if s.lock = none then some { s with lock := some .waiter, waiter := .check } else none
  | .check =>
      if s.value > 0 then some { s with waiter := .timeLeft }
      else some { s with lock := none, waiter := .done false s.value }
  | .timeLeft => some { s with waiter := .block }
  | .block => some { s with lock := none, waiter := .sleep }
  | .idle | .sleep | .done _ _ => none

def step (s : ThreadWaitBarrier A) : BarrierAction A → Option (ThreadWaitBarrier A)
  | .getNotifier a => if s.calls a = .idle then some (s.goto a .load) else none
  | .ready a =>
      if s.calls a = .idle ∧ 0 < s.notifiers then
        some ({ s with notifiers := s.notifiers - 1 }.goto a .lock)
      else none
  | .drop => if 0 < s.notifiers then some { s with notifiers := s.notifiers - 1 } else none
  | .exchangeFails a =>
      match s.calls a with
      | .exchange current =>
          if current < s.expectedCnt then some (s.goto a (.exchange s.ntfCnt)) else none
      | _ => none
  | .advance a => s.stepCall a
  | .waitForAll =>
      match s.waiter with
      | .idle | .done _ _ => some { s with waiter := .lock }
      | _ => none
  | .waiter => s.stepWaiter
  | .timeUp =>
      match s.waiter with
      | .timeLeft =>
          some { s with lock := none, waiter := .done true s.value }
      | _ => none
  | .wakeUp => if s.waiter = .sleep then some { s with waiter := .lock } else none

end ThreadWaitBarrier

end Kyron.Threading
