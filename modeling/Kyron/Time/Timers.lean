import Kyron.Time.Driver

/-!
# `Kyron.Time.Timers`: the time driver without its wheel

What the rest of the runtime uses of the time driver is small: which deadlines are pending,
and up to which millisecond they were processed. `Timers` is that view. Its operations say
what the driver is for, and `Kyron.Proofs.Time.Timers` proves that the wheel computes them.

A registration can also fail because the node pool is exhausted. The view has no pool, so
`registerTimeout` is told whether there was a free node.
-/

set_option autoImplicit false

namespace Kyron.Time

/-- The pending deadlines and the last processed time, in milliseconds since the start. -/
structure Timers where
  pending : List Nat
  lastCheckTime : Nat
  deriving DecidableEq, Repr

namespace Timers

/-- No timer at time 0. -/
def new : Timers := { pending := [], lastCheckTime := 0 }

/-- A registration: refused in the past, too far ahead, or for want of a node. -/
def registerTimeout (t : Timers) (expireAt : Nat) (hasNode : Bool) : Except CommonErrors Timers :=
  if expireAt < t.lastCheckTime then
    .error .alreadyDone
  else if maxTimeoutTime.toNat < expireAt - t.lastCheckTime then
    .error .wrongArgs
  else if hasNode then
    .ok { t with pending := expireAt :: t.pending }
  else
    .error .noSpaceLeft

/-- Processing at `now`: every deadline that is not later than `now` is woken and gone. -/
def processTimeouts (t : Timers) (now : Nat) : Timers where
  pending := t.pending.filter fun e => now < e
  lastCheckTime := now

/-- The earliest pending deadline. -/
def nextProcessTime (t : Timers) : Option Nat := t.pending.min?

end Timers

end Kyron.Time
