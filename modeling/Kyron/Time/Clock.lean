import Mathlib.Logic.Function.Basic
import Kyron.Lib.Transition

/-!
# `Kyron.Time.Clock`: the clock that never goes back

The model of `Clock::now` in `time/clock.rs`, as it is built for `x86_64`. The readings of
`std::time::Instant::now` may go back there (on virtual machines), so the clock keeps the last
instant that it has given, behind a mutex, and never answers with an earlier one. The mutex is
filled by the first call, under a `Once`.

Threads interleave at every access to the `Once`, to the mutex and to the system clock. The
reading is taken before the mutex, and it is a free choice. An instant is a number.
-/

set_option autoImplicit false

namespace Kyron.Time

/-- `std::sync::Once`. -/
inductive OnceState (T : Type)
  | incomplete
  /-- The closure of `call_once` is run by a thread, and all others wait. -/
  | running (t : T)
  | complete
  deriving DecidableEq, Repr

/-- Where a thread stands in `now`. -/
inductive ClockPc
  | idle
  /-- Before `call_once`. -/
  | once
  /-- In the closure, before the mutex. -/
  | initLock
  /-- In the closure, with the mutex, before the reading that is stored. -/
  | initReplace
  | initUnlock
  /-- The closure is over. -/
  | initDone
  /-- Before the reading. -/
  | read
  /-- Before the mutex. -/
  | lock (now : Nat)
  /-- With the mutex, before the last instant is compared and replaced. -/
  | compare (now : Nat)
  /-- Before the mutex is released and the value is returned. -/
  | unlock (now value : Nat)
  /-- `last.unwrap()` found `None`. -/
  | panicked
  deriving DecidableEq, Repr

/-- A call that has returned: how many calls had returned when it began, its reading of the system
clock, and the instant returned. -/
structure ClockCall where
  before : Nat
  reading : Nat
  value : Nat
  deriving DecidableEq, Repr

/-- The statics `INIT` and `LAST_INSTANT`, and the threads. The last three fields are not part of
the source: `before` for the calls in progress, all readings made, and the calls that have
returned, in order. -/
structure Clock (T : Type) where
  init : OnceState T
  lock : Option T
  last : Option Nat
  pc : T → ClockPc
  before : T → Nat
  readings : List Nat
  calls : List ClockCall

inductive ClockAction (T : Type)
  /-- `now` is called. -/
  | now (t : T)
  /-- A thread makes its next step. -/
  | advance (t : T)
  /-- A thread reads the system clock. -/
  | reads (t : T) (reading : Nat)
  deriving DecidableEq, Repr

namespace Clock

variable {T : Type} [DecidableEq T]

def new : Clock T where
  init := .incomplete
  lock := none
  last := none
  pc := fun _ => .idle
  before := fun _ => 0
  readings := []
  calls := []

def goto (s : Clock T) (t : T) (pc : ClockPc) : Clock T :=
  { s with pc := Function.update s.pc t pc }

/-- The last instant is replaced if the reading is later, and is the answer. -/
def compare (s : Clock T) (t : T) (now : Nat) : Clock T :=
  match s.last with
  | none => s.goto t .panicked
  | some last =>
      if now > last then { s with last := some now }.goto t (.unlock now now)
      else s.goto t (.unlock now last)

def advance (s : Clock T) (t : T) : Option (Clock T) :=
  match s.pc t with
  | .once =>
      match s.init with
      | .incomplete => some ({ s with init := .running t }.goto t .initLock)
      | .running _ => none
      | .complete => some (s.goto t .read)
  | .initLock =>
      if s.lock = none then some ({ s with lock := some t }.goto t .initReplace) else none
  | .initUnlock => some ({ s with lock := none }.goto t .initDone)
  | .initDone => some ({ s with init := .complete }.goto t .read)
  | .lock now =>
      if s.lock = none then some ({ s with lock := some t }.goto t (.compare now)) else none
  | .compare now => some (s.compare t now)
  | .unlock reading value =>
      some ({ s with
        lock := none
        calls := s.calls ++ [ClockCall.mk (s.before t) reading value] }.goto t .idle)
  | .idle | .initReplace | .read | .panicked => none

def step (s : Clock T) : ClockAction T → Option (Clock T)
  | .now t =>
      if s.pc t = .idle then
        some ({ s with before := Function.update s.before t s.calls.length }.goto t .once)
      else none
  | .advance t => s.advance t
  | .reads t reading =>
      match s.pc t with
      | .initReplace =>
          some ({ s with last := some reading, readings := s.readings ++ [reading] }.goto t
            .initUnlock)
      | .read => some ({ s with readings := s.readings ++ [reading] }.goto t (.lock reading))
      | _ => none

end Clock

end Kyron.Time
