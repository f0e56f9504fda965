import Kyron.Channels.Spsc
import Kyron.Futures.FutureState
import Kyron.Lib.Transition

/-!
# `Kyron.Channels.SpscSystem`: one sender and one receiver at the same time

The model of `channels/spsc.rs` as two threads run it. Every access to the queue, to the store of
the waker and to `connected_state` is a step. The sender sends and is dropped at last. The receiver
polls the futures of `recv`, one after the other and each poll with any waker, and may be dropped
too. A future that has returned `Ready` is not polled again.

A waker is woken in the step that takes it out of the store.

The history is kept beside the state: the values for which `send` has returned `Ok`, the values
and the end that `recv` has returned, the last poll that has returned, and the wakers that were
woken since the receiver last stored one.
-/

set_option autoImplicit false

namespace Kyron.Channels

open Kyron.Futures
open Kyron.Scheduler

/-- Where the sender stands. -/
inductive SenderPc (T : Type)
  | idle
  /-- `send`, before the load of `connected_state`. -/
  | load (v : T)
  /-- `send`, before the push. -/
  | push (v : T)
  /-- `send`, after the push, before the waker is taken. -/
  | take (v : T)
  /-- `sender_dropping`, before the swap. -/
  | dropSwap
  /-- `sender_dropping`, after a swap that found the receiver, before the waker is taken. -/
  | dropTake
  | gone
  deriving DecidableEq, Repr

/-- Where the receiver stands. -/
inductive ReceiverPc (P F : Type)
  | idle
  /-- `receive`, at the head of its loop. -/
  | isEmpty (waker : Waker P F)
  /-- The queue was empty. Before the waker is stored. -/
  | swap (waker : Waker P F)
  /-- No waker was stored before. Before the load of `connected_state`. -/
  | load (waker : Waker P F)
  /-- Before the queue is checked again. -/
  | recheck (waker : Waker P F) (state : UInt8)
  /-- The sender is gone and the queue is empty. Before the waker is taken back. -/
  | clear (waker : Waker P F)
  /-- The queue was not empty. Before a stored waker is taken out. -/
  | take (waker : Waker P F)
  | pop (waker : Waker P F)
  /-- `consumer.pop().unwrap()` on an empty queue. -/
  | panicked
  /-- `receiver_dropping`, before the store. -/
  | dropStore
  /-- `receiver_dropping`, before the waker is taken out. -/
  | dropTake
  | gone
  deriving DecidableEq, Repr

structure SpscSystem (T P F : Type) (size : Nat) where
  chan : Channel T P size
  sender : SenderPc T
  receiver : ReceiverPc P F
  /-- The future of the `recv` in progress. -/
  future : FutureState
  sent : List T
  received : List T
  /-- A `recv` has returned `None`. -/
  ended : Bool
  lastPoll : Option (Waker P F × Poll (Option T))
  woken : List (Waker P F)

inductive SpscAction (T P F : Type)
  | send (v : T)
  | dropSender
  /-- The sender makes its next step. -/
  | sender
  /-- `recv` is called. A future that is still there is dropped. -/
  | recv
  | poll (waker : Waker P F)
  /-- The receiver makes its next step. -/
  | receiver
  | dropReceiver
  deriving DecidableEq, Repr

/-- What `ReceiverFuture::poll` makes of the result of `receive`. -/
def receiverFutureReturn {T : Type} : Except CommonErrors T → FutureInternalReturn (Option T)
  | .ok v => .ready (some v)
  | .error e => if e = .noData then .polled else .ready none

namespace SpscSystem

variable {T P F : Type} {size : Nat}

def new : SpscSystem T P F size where
  chan := .new
  sender := .idle
  receiver := .idle
  future := .new
  sent := []
  received := []
  ended := false
  lastPoll := none
  woken := []

/-- The sender takes the waker out of the store and wakes it. -/
def takeAndWake (s : SpscSystem T P F size) : SpscSystem T P F size :=
  let (waker, wakerStore) := s.chan.wakerStore.take
  { s with chan := { s.chan with wakerStore }, woken := waker.toList ++ s.woken }

/-- The next step of the sender. -/
def stepSender (s : SpscSystem T P F size) : Option (SpscSystem T P F size) :=
  match s.sender with
  | .load v =>
      if s.chan.connectedState = recvGone then some { s with sender := .idle }
      else some { s with sender := .push v }
  | .push v =>
      match s.chan.queue.push v with
      | none => some { s with sender := .idle }
      | some queue => some { s with chan := { s.chan with queue }, sender := .take v }
  | .take v => some { s.takeAndWake with sender := .idle, sent := s.sent ++ [v] }
  | .dropSwap =>
      some { s with
        chan := { s.chan with connectedState := senderGone }
        sender := if s.chan.connectedState = bothIn then .dropTake else .gone }
  | .dropTake => some { s.takeAndWake with sender := .gone }
  | .idle | .gone => none

/-- `receive` returns, and with it the poll. -/
def returns (s : SpscSystem T P F size) (waker : Waker P F) (result : Except CommonErrors T) :
    SpscSystem T P F size :=
  let (future, poll) := (receiverFutureReturn result).assignAndPropagate
  let s := { s with receiver := .idle, future, lastPoll := some (waker, poll) }
  match poll with
  | .pending => s
  | .ready (some v) => { s with received := s.received ++ [v] }
  | .ready none => { s with ended := true }

/-- The next step of the receiver. -/
def stepReceiver (s : SpscSystem T P F size) : Option (SpscSystem T P F size) :=
  match s.receiver with
  | .isEmpty waker =>
      if s.chan.queue.isEmpty then some { s with receiver := .swap waker }
      else some { s with receiver := .take waker }
  | .swap waker =>
      let (old, wakerStore) := s.chan.wakerStore.swap (some waker)
      let s := { s with chan := { s.chan with wakerStore }, woken := [] }
      match old with
      | some _ => some (s.returns waker (.error .noData))
      | none => some { s with receiver := .load waker }
  | .load waker => some { s with receiver := .recheck waker s.chan.connectedState }
  | .recheck waker state =>
      if s.chan.queue.isEmpty then
        if state = senderGone then some { s with receiver := .clear waker }
        else some (s.returns waker (.error .noData))
      else
        -- There is something now: back to the head of the loop.
        some { s with receiver := .isEmpty waker }
  | .clear waker =>
      some ({ s with chan := s.chan.clearWaker }.returns waker (.error .alreadyDone))
  | .take waker => some { s with chan := s.chan.clearWaker, receiver := .pop waker }
  | .pop waker =>
      match s.chan.queue.pop with
      | some (v, queue) => some ({ s with chan := { s.chan with queue } }.returns waker (.ok v))
      | none => some { s with receiver := .panicked }
  | .dropStore =>
      some { s with chan := { s.chan with connectedState := recvGone }, receiver := .dropTake }
  | .dropTake => some { s with chan := s.chan.clearWaker, receiver := .gone }
  | .idle | .panicked | .gone => none

/-- What the owner of the receiver begins, when it is not in a call. -/
def whenIdle (s : SpscSystem T P F size) (next : Option (SpscSystem T P F size)) :
    Option (SpscSystem T P F size) :=
  match s.receiver with
  | .idle => next
  | _ => none

/-- The sender begins a call, when it is not in one. -/
def beginSender (s : SpscSystem T P F size) (pc : SenderPc T) : Option (SpscSystem T P F size) :=
  match s.sender with
  | .idle => some { s with sender := pc }
  | _ => none

def step (s : SpscSystem T P F size) : SpscAction T P F → Option (SpscSystem T P F size)
  | .send v => s.beginSender (.load v)
  | .dropSender => s.beginSender .dropSwap
  | .sender => s.stepSender
  | .recv => s.whenIdle (some { s with future := .new })
  | .poll waker =>
      s.whenIdle (if s.future = .finished then none else some { s with receiver := .isEmpty waker })
  | .receiver => s.stepReceiver
  | .dropReceiver => s.whenIdle (some { s with receiver := .dropStore })

end SpscSystem

end Kyron.Channels
