import Kyron.Io.AsyncRegistration
import Kyron.Io.Selector

/-!
# `Kyron.Io.PollReadiness`: the polls of a reader and a writer

`AsyncRegistration::poll_readiness` is `poll_register_interest` of the registration in
`Kyron.Io.AsyncRegistration`. A reader polls for `READABLE` and has the read slot, a writer polls
for `WRITABLE` and has the write slot. Next to the registration this module notes for each of the
two directions what its last poll has returned, and whether the waker of that poll has been woken
since.
-/

set_option autoImplicit false

namespace Kyron.Io

/-- The interest that a task of the direction polls for. -/
def Direction.interest : Direction → IoEventInterest
  | .readable => .readable
  | .writable => .writable

/-- What a poll has returned. A poll that returns `Pending` has stored its waker. -/
inductive ReadinessPoll (W : Type)
  | ready (readiness : ReadinessState)
  | pending (waker : W)
  deriving DecidableEq, Repr

/-- What is noted of a direction: the waker of its last poll if that one returned `Pending`, whether
it has been woken since then, and the last readiness that a poll has returned. -/
structure PollLog (W : Type) where
  pending : Option W
  woken : Bool
  reported : Option ReadinessState
  deriving DecidableEq, Repr

namespace PollLog

variable {W : Type} [DecidableEq W]

def new : PollLog W where
  pending := none
  woken := false
  reported := none

/-- A poll returns, or a waker may be woken. -/
def note (log : PollLog W) (woken : Option W) : Option (ReadinessPoll W) → PollLog W
  | some (.ready readiness) => { log with pending := none, reported := some readiness }
  | some (.pending waker) => { log with pending := some waker, woken := false }
  | none => if woken.isSome ∧ log.pending = woken then { log with woken := true } else log

end PollLog

namespace Registration

variable {F T W : Type}

/-- What the poll in place `pc` returns in its next step, and for which interest, if it does. -/
def returnedAt (readiness : ReadinessState) :
    CallPc F W → Option (IoEventInterest × ReadinessPoll W)
  | .registerReady interest _ | .registerRecheck interest _ =>
      (readiness.isReady interest).map fun r => (interest, .ready r)
  | .registerStore interest waker => some (interest, .pending waker)
  | _ => none

/-- What a poll for the interest of a direction returns in the step. -/
def returned (s : Registration F T W) (d : Direction) : Action F T W → Option (ReadinessPoll W)
  | .step t =>
      match returnedAt s.readiness (s.calls t) with
      | some (interest, result) => if interest = d.interest then some result else none
      | none => none
  | _ => none

/-- The waker that the step of an activity in place `pc` wakes. -/
def wokenAt (futures : F → ReadinessFuture W) : CallPc F W → Option W
  | .waking (waker :: _) => some waker
  | .waiters readiness (f :: _) kept =>
      if (readiness.intersection (.ofInterest (futures f).interest)).isSome &&
          !decide (kept.length < maxWakeups) then
        (futures f).waker
      else
        none
  | _ => none

/-- The waker that the step wakes. -/
def woken (s : Registration F T W) : Action F T W → Option W
  | .step t => wokenAt s.futures (s.calls t)
  | _ => none

end Registration

/-- A registration with what is noted of its polls. -/
structure PollSystem (F T W : Type) where
  registration : Registration F T W
  log : Direction → PollLog W

namespace PollSystem

variable {F T W : Type} [DecidableEq F] [DecidableEq T] [DecidableEq W]

def new (interests : F → IoEventInterest) : PollSystem F T W where
  registration := .new interests
  log := fun _ => .new

def step (s : PollSystem F T W) (a : Action F T W) : Option (PollSystem F T W) :=
  (s.registration.step a).map fun registration =>
    { registration
      log := fun d => (s.log d).note (s.registration.woken a) (s.registration.returned d a) }

end PollSystem

end Kyron.Io
