import Kyron.Channels.SpscSystem
import Kyron.Io.Driver
import Kyron.Lib.LeafFuture
import Kyron.Task.State
import Kyron.Time.Driver

/-!
# `Kyron.Futures.Leaves`: where the leaf futures keep their wakers

The models of `JoinHandle`, `Sleep`, `ReadinessFuture` and the `ReceiverFuture` of the spsc
channel, as far as wakers go. Each of them keeps the waker in another place: the header of the
task, a node of the timer wheel, an item of the list of waiters, and an atomic pointer. Calls run
one after the other, and any waker may be used in any poll.

The timer wheel and the list of waiters hold the wakers of other futures too. There a waker comes
with a mark, which is set for the future that is looked at.
-/

set_option autoImplicit false

namespace Kyron.Futures

open Kyron.Channels
open Kyron.Io (IoEventInterest ReadinessState RegistrationInfo WakerElem WakersCollection)
open Kyron.Lib
open Kyron.Scheduler
open Kyron.Task
open Kyron.Time (Instant NodePool TimeoutData)

/-- The part of `poll` that returns `Pending`. -/
def pendingState {S O : Type} : Option (S × Poll O) → Option S
  | some (s, .pending) => some s
  | _ => none

/-! ### `JoinHandle` -/

/-- A task and its join handle. -/
structure JoinTask (V P F : Type) where
  word : TaskStateSnapshot
  /-- The value in the stage `Completed`. -/
  stage : Option V
  handleWaker : Option (Waker P F)
  isWithSafety : Bool
  state : FutureState

/-- What happens to the task up to its completion. -/
inductive TaskMove
  | notify
  | notifySafety
  | run
  | idle
  | abort
  deriving DecidableEq, Repr

namespace JoinTask

variable {V P F : Type}

def new (isWithSafety : Bool) : JoinTask V P F where
  word := .new
  stage := none
  handleWaker := none
  isWithSafety := isWithSafety
  state := .new

/-- `get_future_ret`. -/
def getFutureRet (s : JoinTask V P F) : JoinTask V P F × Except CommonErrors V :=
  if s.word.isCanceled then (s, .error .operationAborted)
  else if !s.word.isCompleted then (s, .error .noData)
  else
    match s.stage with
    | some v => ({ s with stage := none }, .ok v)
    | none => (s, .error .alreadyDone)

/-- `set_waker` of the task. -/
def setWaker (s : JoinTask V P F) (waker : Waker P F) : JoinTask V P F × Bool :=
  let (word, wasSet) := TaskState.setWaker s.word
  ({ s with handleWaker := some waker, word := word.getD s.word }, wasSet)

/-- `assign_and_propagate`. -/
def assignAndPropagate (s : JoinTask V P F) (r : FutureInternalReturn (Except CommonErrors V)) :
    JoinTask V P F × Poll (Except CommonErrors V) :=
  let (state, answer) := r.assignAndPropagate
  ({ s with state }, answer)

/-- `JoinHandle::poll`. There is no answer where it fails with an unrecoverable error. -/
def poll (s : JoinTask V P F) (waker : Waker P F) :
    Option (JoinTask V P F × Poll (Except CommonErrors V)) :=
  match s.state with
  | .new =>
      let (s, wasSet) := s.setWaker waker
      if wasSet then some (s.assignAndPropagate .polled)
      else
        match s.getFutureRet with
        | (s, .ok v) => some (s.assignAndPropagate (.ready (.ok v)))
        | (s, .error .operationAborted) =>
            some (s.assignAndPropagate (.ready (.error .operationAborted)))
        | _ => none
  | .polled =>
      match s.getFutureRet with
      | (s, .ok v) => some (s.assignAndPropagate (.ready (.ok v)))
      | (s, .error .noData) => some (s.assignAndPropagate .polled)
      | (s, .error .operationAborted) =>
          some (s.assignAndPropagate (.ready (.error .operationAborted)))
      | _ => none
  | .finished => none

/-- The word changes as the closure of the transition says. -/
def update (s : JoinTask V P F) (word : Option TaskStateSnapshot) : JoinTask V P F :=
  { s with word := word.getD s.word }

def move (s : JoinTask V P F) : TaskMove → Option (JoinTask V P F)
  | .notify => some (s.update (TaskState.setNotified s.word).1)
  | .notifySafety => some (s.update (TaskState.setSafetyNotified s.word).1)
  | .run =>
      match TaskState.transitionToRunning s.word with
      | .ok (word, _) => some (s.update word)
      | .error _ => none
  | .idle =>
      match TaskState.transitionToIdle s.word with
      | .ok (word, _) => some (s.update word)
      | .error _ => none
  | .abort => some (s.update (TaskState.transitionToCanceled s.word).1)

/-- The end of `poll_core`, when the future has returned a value. -/
def complete (s : JoinTask V P F) (v : V) (isSafetyErr : Bool) :
    Option (JoinTask V P F × List (Waker P F)) :=
  match TaskState.transitionToCompleted s.word with
  | .ok (some word, .done) => some ({ s with word, stage := some v }, [])
  | .ok (some word, .hadConnectedJoinHandle) =>
      match s.handleWaker with
      | some w =>
          let waker := if isSafetyErr && s.isWithSafety then createSafetyWaker w else w
          some ({ s with word, stage := some v, handleWaker := none }, [waker])
      | none => none
  | _ => none

end JoinTask

/-- `JoinHandle`, which waits for the completion of its task. -/
def joinHandle (V P F : Type) : LeafFuture (JoinTask V P F) TaskMove (V × Bool) (Waker P F) where
  pollPending s w := pendingState (s.poll w)
  other s a := s.move a
  event s r := s.complete r.1 r.2

/-! ### `Sleep` -/

/-- A `Sleep` and the time driver. -/
structure SleepTimer (Pool W : Type) where
  driver : Time.Inner Pool (Bool × W)
  clock : Instant
  state : FutureState
  expireAt : Instant

/-- What happens to the driver while the timer is not due. -/
inductive DriverMove (W : Type)
  | tick (nanos : Nat)
  /-- Another timer is registered. -/
  | register (expireAt : Instant) (waker : W)
  /-- `process_timeouts`, with a bound for its loop. -/
  | process (fuel : Nat)

namespace SleepTimer

variable {Pool W : Type}

/-- A driver that starts now, and a `Sleep` that will be polled later. -/
def new (p : Pool) (startTime expireAt : Instant) : SleepTimer Pool W where
  driver := .new p startTime
  clock := startTime
  state := .new
  expireAt := expireAt

/-- `rounded_deadline`. -/
def roundedDeadline (s : SleepTimer Pool W) : Instant := s.expireAt + 999999

/-- `Sleep::poll`. There is no answer where it fails with an unrecoverable error. -/
def poll (pool : NodePool Pool) (s : SleepTimer Pool W) (waker : W) :
    Option (SleepTimer Pool W × Poll Unit) :=
  match s.state with
  | .new =>
      match s.driver.registerTimeout pool s.roundedDeadline (true, waker) with
      | .ok (driver, .ok ()) => some ({ s with driver, state := .polled }, .pending)
      | .ok (driver, .error .alreadyDone) => some ({ s with driver, state := .finished }, .ready ())
      | _ => none
  | .polled =>
      if s.expireAt ≤ s.clock then some ({ s with state := .finished }, .ready ())
      else some (s, .pending)
  | .finished => none

/-- The timer was registered, and its time is up. -/
def isDue (s : SleepTimer Pool W) : Bool :=
  s.state == .polled &&
    decide (s.driver.instantIntoU64 s.roundedDeadline ≤ s.driver.instantIntoU64 s.clock)

/-- `process_timeouts`: the new state and the wakers that are invoked. -/
def processTimeouts (pool : NodePool Pool) (s : SleepTimer Pool W) (fuel : Nat) :
    Option (SleepTimer Pool W × List (TimeoutData (Bool × W))) :=
  match s.driver.processInternal pool fuel (s.driver.instantIntoU64 s.clock) with
  | some (.ok (driver, woken)) => some ({ s with driver }, woken)
  | _ => none

def move (pool : NodePool Pool) (s : SleepTimer Pool W) :
    DriverMove W → Option (SleepTimer Pool W)
  | .tick nanos => some { s with clock := s.clock + nanos }
  | .register expireAt waker =>
      match s.driver.registerTimeout pool expireAt (false, waker) with
      | .ok (driver, _) => some { s with driver }
      | .error _ => none
  | .process fuel => if s.isDue then none else (s.processTimeouts pool fuel).map Prod.fst

/-- The timer expires. -/
def expire (pool : NodePool Pool) (s : SleepTimer Pool W) (fuel : Nat) :
    Option (SleepTimer Pool W × List W) :=
  if s.isDue then
    (s.processTimeouts pool fuel).map fun (s', woken) =>
      (s', (woken.filter fun d => d.waker.1).map fun d => d.waker.2)
  else none

end SleepTimer

/-- `Sleep`, which waits for the expiry of its timer. -/
def sleep {Pool : Type} (pool : NodePool Pool) (W : Type) :
    LeafFuture (SleepTimer Pool W) (DriverMove W) Nat W where
  pollPending s w := pendingState (s.poll pool w)
  other s a := s.move pool a
  event s fuel := s.expire pool fuel

/-! ### `ReadinessFuture` -/

/-- A `ReadinessFuture` and its registration. -/
structure ReadinessWait (W : Type) where
  info : RegistrationInfo (Bool × W)
  state : FutureState
  interest : IoEventInterest

/-- What happens to the registration besides a readiness for the future. -/
inductive RegistrationMove (W : Type)
  /-- The driver reports other states. -/
  | wake (state : ReadinessState)
  | clearReadiness (readiness : ReadinessState) (interest : IoEventInterest)
  /-- Other futures come and go. -/
  | others (wakers : WakersCollection (Bool × W))

namespace ReadinessWait

variable {W : Type}

/-- The items of the future in the list of waiters. -/
def own (wakers : WakersCollection (Bool × W)) : List (WakerElem (Bool × W)) :=
  wakers.waiters.filter fun elem => elem.waker.1

/-- There is no waker of the future in the two slots. -/
def slotsOfOthers (wakers : WakersCollection (Bool × W)) : Bool :=
  wakers.read.all (fun w => !w.1) && wakers.write.all (fun w => !w.1)

/-- A new future on a registration that other futures use. -/
def new (readiness : ReadinessState) (interest : IoEventInterest) : ReadinessWait W where
  info := { readiness, wakers := { read := none, write := none, waiters := [] } }
  state := .new
  interest := interest

/-- `ReadinessFuture::poll`. -/
def poll (s : ReadinessWait W) (waker : W) : Option (ReadinessWait W × Poll ReadinessState) :=
  match s.state with
  | .new =>
      match s.info.readiness.isReady s.interest with
      | some readiness => some ({ s with state := .finished }, .ready readiness)
      | none =>
          let item := ⟨(true, waker), s.interest⟩
          let wakers := { s.info.wakers with waiters := s.info.wakers.waiters ++ [item] }
          some ({ s with info := { s.info with wakers }, state := .polled }, .pending)
  | .polled =>
      match s.info.readiness.isReady s.interest with
      | some readiness =>
          let waiters := s.info.wakers.waiters.filter fun elem => !elem.waker.1
          let info := { s.info with wakers := { s.info.wakers with waiters } }
          some ({ s with info, state := .finished }, .ready readiness)
      | none => some (s, .pending)
  | .finished => none

/-- The driver reports a state, after which the future is ready. -/
def concerns (s : ReadinessWait W) (state : ReadinessState) : Bool :=
  ((s.info.readiness.markState state).isReady s.interest).isSome

def move [DecidableEq W] (s : ReadinessWait W) : RegistrationMove W → Option (ReadinessWait W)
  | .wake state => if s.concerns state then none else some { s with info := (s.info.wake state).2 }
  | .clearReadiness readiness interest =>
      let cleared := s.info.readiness.clearReadiness readiness interest
      some { s with info := { s.info with readiness := cleared.getD s.info.readiness } }
  | .others wakers =>
      if own wakers = own s.info.wakers ∧ slotsOfOthers wakers then
        some { s with info := { s.info with wakers } }
      else none

/-- `wake`, with the wakers that it invokes for the future. -/
def becomeReady (s : ReadinessWait W) (state : ReadinessState) :
    Option (ReadinessWait W × List W) :=
  if s.concerns state then
    let (woken, info) := s.info.wake state
    some ({ s with info }, (woken.filter Prod.fst).map Prod.snd)
  else none

end ReadinessWait

/-- `ReadinessFuture`, which waits for the readiness. -/
def readinessFuture (W : Type) [DecidableEq W] :
    LeafFuture (ReadinessWait W) (RegistrationMove W) ReadinessState W where
  pollPending s w := pendingState (s.poll w)
  other s a := s.move a
  event s state := s.becomeReady state

/-! ### `ReceiverFuture` -/

/-- A `ReceiverFuture` and its channel. -/
structure ReceiverWait (T P : Type) (size : Nat) where
  chan : Channel T P size
  state : FutureState

inductive ChannelEvent (T : Type)
  | message (v : T)
  | senderDrop
  deriving DecidableEq, Repr

namespace ReceiverWait

variable {T P F : Type} {size : Nat}

/-- A new future on a channel whose sender is there. -/
def new (queue : SpscQueue T size) (wakerStore : AtomicWakerStore P) : ReceiverWait T P size where
  chan := { queue, wakerStore, connectedState := bothIn }
  state := .new

/-- `ReceiverFuture::poll`. -/
def poll (s : ReceiverWait T P size) (waker : Waker P F) :
    Option (ReceiverWait T P size × Poll (Option T)) :=
  match s.state with
  | .new | .polled =>
      let (chan, result) := s.chan.receive waker
      let (state, answer) := (receiverFutureReturn result).assignAndPropagate
      some ({ chan, state }, answer)
  | .finished => none

/-- The sender sends a message with success or is dropped. -/
def happen (s : ReceiverWait T P size) :
    ChannelEvent T → Option (ReceiverWait T P size × List (Waker P F))
  | .message v =>
      if s.chan.connectedState = bothIn then
        match s.chan.send v with
        | (chan, .ok (), waker) => some ({ s with chan }, waker.toList)
        | _ => none
      else none
  | .senderDrop =>
      if s.chan.connectedState = bothIn then
        let (chan, waker) := s.chan.senderDropping
        some ({ s with chan }, waker.toList)
      else none

end ReceiverWait

/-- `ReceiverFuture`, which waits for a message or for the end. -/
def receiverFuture (T P F : Type) (size : Nat) :
    LeafFuture (ReceiverWait T P size) Empty (ChannelEvent T) (Waker P F) where
  pollPending s w := pendingState (s.poll w)
  other _ a := a.elim
  event s e := s.happen e

end Kyron.Futures
