import Mathlib.Logic.Function.Basic
import Kyron.Lib.Transition

/-!
# `Kyron.Io.FdsAccess`: changing the descriptors under a running poll

The model of how `Inner::select` and `Inner::access_fds` of `mio/selector/unix/poll.rs` share
the table of descriptors. `select` keeps the lock of the table while it is in `poll`, so a call
of `access_fds` first writes a byte to the wake pipe, which is one of the descriptors polled.
`num_of_accesses` makes `select` step aside until the calls are through.

One thread calls `select` again and again, any number of threads call `access_fds`. Every access
to the lock, to the counter, to the pipe and to the condition variable is a step.

* The pipe is a number of bytes below its capacity. A write to a full pipe is `EAGAIN`, which
  `wake` ignores. `clear_read_fd` makes one successful read of up to 32 bytes.
* `poll` returns when the pipe holds a byte, when another descriptor has an event, when it times
  out with nothing ready, or with `EINTR`. Which descriptors those are does not matter here.
* What the accessor does to the table is left out.
-/

set_option autoImplicit false

namespace Kyron.Io

/-- Where the thread of `select` stands. -/
inductive SelectPc
  /-- Not in `select`. -/
  | outside
  /-- Before the lock of the table, at the start or on the way back from the wait. -/
  | lock
  /-- With the lock, before it loads `num_of_accesses`. -/
  | check
  /-- Waiting for `accesses_finished`, without the lock. -/
  | wait
  /-- In `poll`, with the lock. -/
  | poll
  deriving DecidableEq, Repr

/-- Where a call of `access_fds` stands. -/
inductive AccessPc
  | idle
  /-- After `num_of_accesses` was raised, before the byte is written. -/
  | wake
  /-- Before the lock of the table. -/
  | lock
  /-- With the lock, before `num_of_accesses` is lowered. -/
  | access
  /-- With the lock, after it was lowered from `prev`. -/
  | unlock (prev : Nat)
  /-- Without the lock, before the pipe is cleared. -/
  | clear (prev : Nat)
  /-- Before `accesses_finished` is notified if this was the last call. -/
  | notify (prev : Nat)
  deriving DecidableEq, Repr

/-- Who holds the lock of the table. -/
inductive FdsHolder (A : Type)
  | select
  | access (a : A)
  deriving DecidableEq, Repr

/-- The selector, shared by the thread of `select` and the calls `A`. -/
structure FdsAccess (A : Type) where
  lock : Option (FdsHolder A)
  numOfAccesses : Nat
  pipe : Nat
  pipeCapacity : Nat
  select : SelectPc
  calls : A → AccessPc

/-- How `poll` returns. -/
inductive PollResult
  /-- `EINTR`. -/
  | interrupted
  /-- Nothing was ready in time. -/
  | timeout
  /-- The pipe has a byte, or some of the other descriptors have an event. -/
  | ready (others : Nat)
  deriving DecidableEq, Repr

inductive FdsAction (A : Type)
  /-- `select` is called. -/
  | select
  /-- The thread of `select` makes its next step. -/
  | advance
  /-- The wait for `accesses_finished` ends without a notification. -/
  | spurious
  | pollReturns (result : PollResult)
  /-- `access_fds` is called, or makes its next step. -/
  | access (a : A)
  deriving DecidableEq, Repr

/-- The size of the buffer of `clear_read_fd`. -/
def clearBufferSize : Nat := 32

namespace FdsAccess

variable {A : Type} [DecidableEq A]

def new (pipeCapacity : Nat) : FdsAccess A where
  lock := none
  numOfAccesses := 0
  pipe := 0
  pipeCapacity := pipeCapacity
  select := .outside
  calls := fun _ => .idle

def goto (s : FdsAccess A) (a : A) (pc : AccessPc) : FdsAccess A :=
  { s with calls := Function.update s.calls a pc }

/-- `InternalWaker::wake`. -/
def wake (s : FdsAccess A) : FdsAccess A :=
  { s with pipe := if s.pipe < s.pipeCapacity then s.pipe + 1 else s.pipe }

/-- `InternalWaker::clear`. -/
def clear (s : FdsAccess A) : FdsAccess A := { s with pipe := s.pipe - clearBufferSize }

/-- The next step of a call of `access_fds`. -/
def stepAccess (s : FdsAccess A) (a : A) : Option (FdsAccess A) :=
  match s.calls a with
  | .idle => some ({ s with numOfAccesses := s.numOfAccesses + 1 }.goto a .wake)
  | .wake => some (s.wake.goto a .lock)
  | .lock =>
      if s.lock = none then some ({ s with lock := some (.access a) }.goto a .access) else none
  | .access =>
      some ({ s with numOfAccesses := s.numOfAccesses - 1 }.goto a (.unlock s.numOfAccesses))
  | .unlock prev => some ({ s with lock := none }.goto a (.clear prev))
  | .clear prev => some (s.clear.goto a (.notify prev))
  | .notify prev =>
      if prev = 1 ∧ s.select = .wait then some ({ s with select := .lock }.goto a .idle)
      else some (s.goto a .idle)

/-- The next step of the thread of `select`, outside of `poll` and the wait. -/
def stepSelect (s : FdsAccess A) : Option (FdsAccess A) :=
  match s.select with
  | .lock =>
      if s.lock = none then some { s with lock := some .select, select := .check } else none
  | .check =>
      if s.numOfAccesses ≠ 0 then some { s with lock := none, select := .wait }
      else some { s with select := .poll }
  | .outside | .wait | .poll => none

/-- `poll` returns. With an event for the pipe alone the loop goes on, and so it does after
`EINTR`. Otherwise `select` reports its events and returns. -/
def pollReturns (s : FdsAccess A) : PollResult → Option (FdsAccess A)
  | .interrupted => some { s with select := .check }
  | .timeout => if s.pipe = 0 then some { s with lock := none, select := .outside } else none
  | .ready others =>
      if s.pipe = 0 ∧ others = 0 then none
      else if s.pipe ≠ 0 ∧ others = 0 then some { s with select := .check }
      else some { s with lock := none, select := .outside }

def step (s : FdsAccess A) : FdsAction A → Option (FdsAccess A)
  | .select => if s.select = .outside then some { s with select := .lock } else none
  | .advance => s.stepSelect
  | .spurious => if s.select = .wait then some { s with select := .lock } else none
  | .pollReturns result => if s.select = .poll then s.pollReturns result else none
  | .access a => s.stepAccess a

end FdsAccess

end Kyron.Io
