import Mathlib.Data.Finset.Card
import Mathlib.Data.Fintype.Basic
import Mathlib.Data.List.FinRange
import Kyron.Lib.Transition
import Kyron.Time.Driver

/-!
# `Kyron.Time.Calls`: the calls that reach the timer wheel

Outside of the tests a driver is used through `register_timeout` and `process_timeouts` alone.
`Inner.call` is one such call that returns. A call that panics has no next state: a deadline
before the start of the driver, a time before the last processed one, and an accepted deadline
that the five levels cannot hold.

`NodePool.HoldsNodes` is what a pool made for `k` timers is assumed to do beyond
`NodePool.Lawful`: it refuses an allocation exactly when all its `k` nodes are in use.
-/

set_option autoImplicit false

namespace Kyron.Time

/-- The pool has `k` nodes and `used` lists those that are handed out. It refuses an allocation
only when all of them are, so a freed node is used again. -/
structure NodePool.HoldsNodes {P : Type} (pool : NodePool P) (k : Nat)
    (used : P → Finset NodeAddr) : Prop where
  lawful : pool.Lawful fun p a => a ∈ used p
  allocate_none : ∀ p, pool.allocate p = none ↔ (used p).card = k

/-- A pool of `k` nodes that keeps a flag for each node in use. -/
def flagPool (k : Nat) : NodePool (Fin k → Bool) where
  allocate := fun flags =>
    ((List.finRange k).find? fun a => !flags a).map fun a =>
      (a.val, Function.update flags a true)
  deallocate := fun flags addr =>
    if h : addr < k then Function.update flags ⟨addr, h⟩ false else flags

/-- The nodes of a `flagPool` that are in use. -/
def flaggedNodes {k : Nat} (flags : Fin k → Bool) : Finset NodeAddr :=
  (Finset.univ.filter fun a => flags a = true).map Fin.valEmbedding

/-- A call to the driver. `fuel` bounds the loop of `process_internal`. -/
inductive DriverCall (W : Type)
  | registerTimeout (expireAt : Instant) (waker : W)
  | processTimeouts (fuel : Nat) (now : Instant)

namespace Inner

variable {P W : Type}

/-- `process_timeouts`, with at most `fuel` iterations of the loop. -/
def processTimeouts (pool : NodePool P) (fuel : Nat) (s : Inner P W) (now : Instant) :
    Option (Except Panic (Inner P W × List (TimeoutData W))) :=
  s.processInternal pool fuel (s.instantIntoU64 now)

/-- The state after a call that returns. -/
def call (pool : NodePool P) (s : Inner P W) : DriverCall W → Option (Inner P W)
  | .registerTimeout expireAt waker =>
      match s.registerTimeout pool expireAt waker with
      | .ok (s', _) => some s'
      | .error _ => none
  | .processTimeouts fuel now =>
      match s.processTimeouts pool fuel now with
      | some (.ok (s', _)) => some s'
      | _ => none

/-- An iteration of the loop of `process_internal(now)` after which the loop goes on. -/
def GoesOn (pool : NodePool P) (now : UInt64) (s s' : Inner P W) : Prop :=
  ∃ woken, s.processStep pool now = .ok (s', woken, true)

end Inner

end Kyron.Time
