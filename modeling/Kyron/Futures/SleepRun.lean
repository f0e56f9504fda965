import Kyron.Futures.Leaves

/-!
# `Kyron.Futures.SleepRun`: a `Sleep` next to the clock and the driver

The clock goes on, the `Sleep` is polled, other timers are registered and the driver processes
what is due, in any order. Every reading of the clock is the clock at that moment, so the readings
are any non-decreasing sequence. The history is kept next to the state: the reading of the last
`process_timeouts`, and whether one of them has woken the timer of the `Sleep`.
-/

set_option autoImplicit false

namespace Kyron.Futures

open Kyron.Time

/-- A `Sleep` with its driver, and the history. -/
structure SleepRun (Pool W : Type) where
  timer : SleepTimer Pool W
  processed : Option Instant
  fired : Bool

/-- What can happen. -/
inductive SleepAction (W : Type)
  | tick (nanos : Nat)
  | poll (waker : W)
  /-- Another timer is registered. -/
  | register (expireAt : Instant) (waker : W)
  /-- `process_timeouts(Clock::now())`, with a bound for its loop. -/
  | process (fuel : Nat)

namespace SleepRun

variable {Pool W : Type}

def new (p : Pool) (startTime expireAt : Instant) : SleepRun Pool W where
  timer := .new p startTime expireAt
  processed := none
  fired := false

/-- A call that panics has no next state. -/
def step (pool : NodePool Pool) (s : SleepRun Pool W) : SleepAction W → Option (SleepRun Pool W)
  | .tick nanos => some { s with timer := { s.timer with clock := s.timer.clock + nanos } }
  | .poll waker => (s.timer.poll pool waker).map fun (timer, _) => { s with timer }
  | .register expireAt waker =>
      (s.timer.move pool (.register expireAt waker)).map fun timer => { s with timer }
  | .process fuel =>
      (s.timer.processTimeouts pool fuel).map fun (timer, woken) =>
        { timer, processed := some s.timer.clock,
          fired := s.fired || woken.any fun d => d.waker.1 }

end SleepRun

end Kyron.Futures
