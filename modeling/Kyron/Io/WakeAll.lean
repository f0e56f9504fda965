import Kyron.Io.Driver

/-!
# `Kyron.Io.WakeAll`: `wake_all` on the intrusive list

The model of `RegistrationInfo::wake_all` in `io/async_registration.rs` with the containers of the
source. The waiters are in an intrusive list, and `remove_if` unlinks those that match while it goes
over them. Up to `MAX_WAKEUPS` wakers are put into an array and woken after the lock is released.
The closure of `remove_if` wakes the ones that find no place there.

`RegistrationInfo.wakeAll` in `Kyron.Io.Driver` is the same call on a sequence of waiters.
-/

set_option autoImplicit false

namespace Kyron.Io

open Kyron.Containers

/-- `WakerElems`, without its link. -/
structure WakerElems (W : Type) where
  waker : Option W
  interest : IoEventInterest
  deriving DecidableEq, Repr

/-- `offloader`, and how far the iterator over it has come. -/
structure Offloader (W : Type) where
  places : List (Option W)
  iter : Nat
  deriving DecidableEq, Repr

namespace Offloader

variable {W : Type}

def new : Offloader W where
  places := List.replicate maxWakeups none
  iter := 0

/-- A waker is put into the next place of the iterator, if there is one. -/
def put (o : Offloader W) (waker : W) : Option (Offloader W) :=
  if o.iter < o.places.length then
    some { places := o.places.set o.iter (some waker), iter := o.iter + 1 }
  else
    none

/-- The wakers that the last loop takes: those before the first empty place. -/
def taken (o : Offloader W) : List W := (o.places.takeWhile Option.isSome).filterMap id

end Offloader

/-- `WakersCollection`, with the memory of the links of its list. -/
structure LinkedWakers (P W : Type) where
  read : Option W
  write : Option W
  waiters : IntrusiveList P
  memory : Memory P

namespace LinkedWakers

variable {P W : Type}

/-- A slot is taken if its direction is ready. The answer is what stays in the slot, or none where
`iter.next().unwrap()` panics. -/
def takeSlot (ready : Bool) (slot : Option W) (o : Offloader W) :
    Option (Option W × Offloader W) :=
  if ready then
    match slot with
    | some waker => (o.put waker).map fun o => (none, o)
    | none => some (none, o)
  else
    some (slot, o)

/-- The closure of `remove_if`. Its state is the array and the wakers that it has woken itself, or
none after a panic, where no further item is looked at. -/
def wakeElem (readiness : ReadinessState) (elems : P → WakerElems W) :
    Option (Offloader W × List W) → P → Bool × Option (Offloader W × List W)
  | none, _ => (false, none)
  | some (o, woken), item =>
      match readiness.intersection (.ofInterest (elems item).interest) with
      | none => (false, some (o, woken))
      | some _ =>
          match (elems item).waker with
          | none => (false, none)
          | some waker =>
              match o.put waker with
              | some o => (true, some (o, woken))
              | none => (true, some (o, woken ++ [waker]))

/-- `wake_all`: the wakers that it wakes, in that order, and what stays. None stands for a panic. -/
def wakeAll [DecidableEq P] (s : LinkedWakers P W) (elems : P → WakerElems W)
    (readiness : ReadinessState) : Except Fault (Option (List W × LinkedWakers P W)) :=
  match takeSlot readiness.isReadable s.read .new with
  | none => .ok none
  | some (read, o) =>
      match takeSlot readiness.isWritable s.write o with
      | none => .ok none
      | some (write, o) => do
          let (waiters, memory, st) ←
            s.waiters.removeIf (wakeElem readiness elems) s.memory (some (o, []))
          .ok (st.map fun (o, woken) => (woken ++ o.taken, { read, write, waiters, memory }))

end LinkedWakers

end Kyron.Io
