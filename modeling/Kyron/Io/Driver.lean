import Kyron.Io.AsyncRegistration
import Kyron.Io.Selector

/-!
# `Kyron.Io.Driver`: what the driver does with the events of `select`

The model of the loop of `process_io` in `io/driver.rs`, and of `RegistrationInfo::wake` as one
call. `wake_all` holds the lock of the wakers while it takes them, so here it is a function of
the wakers that it finds. `Registration` in `Kyron.Io.AsyncRegistration` has the same call step by
step, among the futures that come and go.

An element of the list has a waker: `push_back` is called after the waker has been stored.
-/

set_option autoImplicit false

namespace Kyron.Io

/-- `WakerElems`, while it is in the list. -/
structure WakerElem (W : Type) where
  waker : W
  interest : IoEventInterest
  deriving DecidableEq, Repr

/-- `WakersCollection`. -/
structure WakersCollection (W : Type) where
  read : Option W
  write : Option W
  waiters : List (WakerElem W)
  deriving DecidableEq, Repr

/-- `RegistrationInfo`, without its key. -/
structure RegistrationInfo (W : Type) where
  readiness : ReadinessState
  wakers : WakersCollection W
  deriving DecidableEq, Repr

/-- `ReadinessState::from_mio_event`. -/
def ReadinessState.fromMioEvent (event : IoEvent) : ReadinessState :=
  let state : UInt32 := if event.interest.isReadable then readinessStateReadable else 0
  let state := if event.interest.isWritable then state ||| readinessStateWritable else state
  .fromComponents state.toUInt16 0

namespace RegistrationInfo

variable {W : Type}

/-- The `remove_if` of `wake_all`, with the wakers kept so far. It answers the wakers that it wakes
under the lock because no more can be kept, the wakers kept, and the waiters that stay. -/
def wakeWaiters (readiness : ReadinessState) :
    List (WakerElem W) → List W → List W × List W × List (WakerElem W)
  | [], kept => ([], kept, [])
  | elem :: waiters, kept =>
      match readiness.intersection (.ofInterest elem.interest) with
      | some _ =>
          if kept.length < maxWakeups then
            wakeWaiters readiness waiters (kept ++ [elem.waker])
          else
            let (woken, kept, left) := wakeWaiters readiness waiters kept
            (elem.waker :: woken, kept, left)
      | none =>
          let (woken, kept, left) := wakeWaiters readiness waiters kept
          (woken, kept, elem :: left)

/-- `wake_all`: the wakers that it wakes, in that order, and the wakers that stay. -/
def wakeAll (wakers : WakersCollection W) (readiness : ReadinessState) :
    List W × WakersCollection W :=
  let read := if readiness.isReadable then wakers.read.toList else []
  let write := if readiness.isWritable then wakers.write.toList else []
  let (woken, kept, left) := wakeWaiters readiness wakers.waiters (read ++ write)
  (woken ++ kept,
    { read := if readiness.isReadable then none else wakers.read
      write := if readiness.isWritable then none else wakers.write
      waiters := left })

/-- `wake`. -/
def wake (info : RegistrationInfo W) (state : ReadinessState) : List W × RegistrationInfo W :=
  let readiness := info.readiness.markState state
  let (woken, wakers) := wakeAll info.wakers readiness
  (woken, { readiness, wakers })

end RegistrationInfo

/-- `WAKER_IO_ID`. -/
def wakerIoId : UInt64 := 0xAABBCCDD

/-- The loop of `process_io` over the collected events. A registration is found by its identifier.
The answer is the wakers that are woken and the registrations after that. -/
def processEvents {W : Type} :
    List IoEvent → (UInt64 → RegistrationInfo W) → List W × (UInt64 → RegistrationInfo W)
  | [], infos => ([], infos)
  | event :: events, infos =>
      -- The own waker of the driver.
      if event.id = wakerIoId then processEvents events infos
      else
        let (woken, info) := (infos event.id).wake (.fromMioEvent event)
        let (others, infos) := processEvents events (Function.update infos event.id info)
        (woken ++ others, infos)

end Kyron.Io
