import Mathlib.Data.Fintype.Basic
import Kyron.Channels.SpscSystem

/-!
# `Kyron.Channels.Broadcast`: one sender and a slot for each receiver

The model of `channels/spmc_broadcast.rs`. Every receiver has a slot with a channel of its own, and
the sender sends to all slots up to the highest one that was ever handed out. A slot whose receiver
was dropped is handed out again. Operations run one after the other.

The free slots are kept in the `UniqueIndexSet` of iceoryx2, which is not part of the repository.
It is taken to hand out an index that is free: one that was released, or the lowest one that was
never handed out. It fails only when no index is free. Which one it takes is left to the step, so
the results hold for every set of this kind.

The history is kept beside the state. The receivers that were handed out and not dropped are
recorded, apart from the free slots of the channel. Each value is sent with the number of its
`send`, so that two sends of the same value are told apart. A slot remembers how many sends were
complete when its receiver subscribed, the values that had room in its queue since then, and the
values that its receiver has got.
-/

set_option autoImplicit false

namespace Kyron.Channels

open Kyron.Futures
open Kyron.Scheduler

/-- `UniqueIndexSet`. The indices below `used` have been handed out at least once. -/
structure UniqueIndexSet (n : Nat) where
  borrowed : Fin n → Bool
  used : Nat

namespace UniqueIndexSet

variable {n : Nat}

def new : UniqueIndexSet n where
  borrowed := fun _ => false
  used := 0

/-- `acquire_raw_index` may answer this index. -/
def offers (set : UniqueIndexSet n) (i : Fin n) : Bool :=
  set.borrowed i == false && decide (i.val ≤ set.used)

/-- `acquire_raw_index` fails. -/
def isExhausted (set : UniqueIndexSet n) : Bool := decide (∀ i, set.borrowed i = true)

/-- `acquire_raw_index`, which answers the index. -/
def acquireRawIndex (set : UniqueIndexSet n) (i : Fin n) : UniqueIndexSet n where
  borrowed := Function.update set.borrowed i true
  used := max set.used (i + 1)

/-- `release_raw_index`. -/
def releaseRawIndex (set : UniqueIndexSet n) (i : Fin n) : UniqueIndexSet n :=
  { set with borrowed := Function.update set.borrowed i false }

end UniqueIndexSet

/-- A value with the number of its `send`. -/
structure Sample (T : Type) where
  number : Nat
  value : T
  deriving DecidableEq, Repr

/-- The `Channel` of `spmc_broadcast.rs`. -/
structure BroadcastChannel (n : Nat) (T P : Type) (size : Nat) where
  channels : Fin n → Channel T P size
  freeSlots : UniqueIndexSet n
  subscriberIndexMax : UInt16

namespace BroadcastChannel

variable {n size : Nat} {T P F : Type}

def new : BroadcastChannel n T P size where
  channels := fun _ => .new
  freeSlots := .new
  subscriberIndexMax := 0

def setChannel (b : BroadcastChannel n T P size) (i : Fin n) (c : Channel T P size) :
    BroadcastChannel n T P size :=
  { b with channels := Function.update b.channels i c }

/-- `subscribe`, with the slot that it gets. -/
def subscribe (b : BroadcastChannel n T P size) (slot : Fin n) : BroadcastChannel n T P size :=
  { b with
    freeSlots := b.freeSlots.acquireRawIndex slot
    subscriberIndexMax := max b.subscriberIndexMax (.ofNat slot) }.setChannel slot
      (b.channels slot).enableReceiver

/-- `receiver_dropping`. -/
def receiverDropping (b : BroadcastChannel n T P size) (slot : Fin n) :
    BroadcastChannel n T P size :=
  { b with freeSlots := b.freeSlots.releaseRawIndex slot }.setChannel slot
    (b.channels slot).receiverDropping

/-- `sender_dropping`. -/
def senderDropping (b : BroadcastChannel n T P size) : BroadcastChannel n T P size :=
  { b with channels := fun i => ((b.channels i).senderDropping (F := Empty)).1 }

/-- The variables of the loop of `send`. -/
structure SendLoop (n : Nat) (T P F : Type) (size : Nat) where
  channels : Fin n → Channel T P size
  ret : Except CommonErrors Unit
  i : Nat
  woken : List (Waker P F)

/-- The body of the loop of `send`, for one slot. -/
def SendLoop.next (value : T) (len : Nat) (l : SendLoop n T P F size) (c : Fin n) :
    SendLoop n T P F size :=
  let (chan, r, waker) := (l.channels c).send value
  let l := { l with
    channels := Function.update l.channels c chan
    woken := l.woken ++ waker.toList }
  match r with
  | .ok _ => l
  | .error .genericError =>
      let l := { l with i := l.i + 1 }
      if l.i = len then { l with ret := .error .genericError } else l
  | .error _ => { l with ret := r }

/-- `send`. There is no answer when the loop runs past the last slot and panics. -/
def send (b : BroadcastChannel n T P size) (value : T) :
    Option (BroadcastChannel n T P size × Except CommonErrors Unit × List (Waker P F)) :=
  let len := b.subscriberIndexMax.toNat + 1
  if len ≤ n then
    let l := ((List.finRange n).take len).foldl (SendLoop.next value len)
      { channels := b.channels, ret := .ok (), i := 0, woken := [] }
    some ({ b with channels := l.channels }, l.ret, l.woken)
  else
    none

/-- A poll of the future of `recv`. -/
def recv (b : BroadcastChannel n T P size) (slot : Fin n) (waker : Waker P F) :
    BroadcastChannel n T P size × Poll (Option T) :=
  let (c, result) := (b.channels slot).receive waker
  (b.setChannel slot c, (receiverFutureReturn result).toPoll)

end BroadcastChannel

/-- The history of the receiver in a slot. -/
structure SlotLog (T : Type) where
  /-- The sends that were complete when it subscribed. -/
  since : Nat
  /-- The values that had room in its queue since then. -/
  delivered : List (Sample T)
  /-- The values that `recv` has returned. -/
  received : List (Sample T)
  deriving DecidableEq

/-- A channel with its sender and its receivers. -/
structure Broadcast (n : Nat) (T P : Type) (size : Nat) where
  chan : BroadcastChannel n (Sample T) P size
  sender : Bool
  /-- The slots whose receiver was handed out and not dropped since. -/
  receivers : Fin n → Bool
  sends : Nat
  logs : Fin n → SlotLog T

inductive BroadcastAction (n : Nat) (T P F : Type)
  /-- `Sender::subscribe`, with the slot that it gets. -/
  | subscribe (slot : Option (Fin n))
  /-- `try_clone` of a receiver, with the slot that it gets. -/
  | tryClone (receiver : Fin n) (slot : Option (Fin n))
  | send (v : T)
  /-- A poll of `recv`. -/
  | recv (receiver : Fin n) (waker : Waker P F)
  | dropReceiver (receiver : Fin n)
  | dropSender
  deriving DecidableEq, Repr

namespace Broadcast

variable {n size : Nat} {T P F : Type}

/-- There is a receiver for the slot. -/
def live (s : Broadcast n T P size) (i : Fin n) : Bool := s.receivers i

/-- The values in the queue of a slot. -/
def queue (s : Broadcast n T P size) (i : Fin n) : List (Sample T) :=
  (s.chan.channels i).queue.items

/-- A receiver gets the slot. -/
def addReceiver (s : Broadcast n T P size) (slot : Fin n) : Broadcast n T P size :=
  { s with
    chan := s.chan.subscribe slot
    receivers := Function.update s.receivers slot true
    logs := Function.update s.logs slot { since := s.sends, delivered := [], received := [] } }

/-- The receiver of the slot is dropped. -/
def removeReceiver (s : Broadcast n T P size) (slot : Fin n) : Broadcast n T P size :=
  { s with
    chan := s.chan.receiverDropping slot
    receivers := Function.update s.receivers slot false }

/-- `subscribe` of the inner channel. Without a slot there is no new receiver. -/
def subscribe (s : Broadcast n T P size) (slot : Option (Fin n)) : Option (Broadcast n T P size) :=
  match slot with
  | none => if s.chan.freeSlots.isExhausted then some s else none
  | some slot => if s.chan.freeSlots.offers slot then some (s.addReceiver slot) else none

/-- The channel before its first receiver. -/
def new : Broadcast n T P size where
  chan := .new
  sender := true
  receivers := fun _ => false
  sends := 0
  logs := fun _ => { since := 0, delivered := [], received := [] }

/-- `create_channel`. It asserts that there is a slot, and subscribes the first receiver.
`create_channel_default` is the case of eight values; without a slot its `expect` fails. -/
def createChannel (maxNumOfReceivers : UInt16) :
    Option (Broadcast maxNumOfReceivers.toNat T P size) :=
  if h : 0 < maxNumOfReceivers.toNat then some (new.addReceiver ⟨0, h⟩) else none

/-- The values of a `send` go to the receivers that have room. -/
def logSend (s : Broadcast n T P size) (sample : Sample T) (i : Fin n) : SlotLog T :=
  if s.live i && decide ((s.queue i).length < size) then
    { s.logs i with delivered := (s.logs i).delivered ++ [sample] }
  else
    s.logs i

/-- What the poll of a receiver has returned. -/
def logRecv (s : Broadcast n T P size) (receiver : Fin n) (answer : Poll (Option (Sample T))) :
    Fin n → SlotLog T :=
  match answer with
  | .ready (some sample) =>
      Function.update s.logs receiver
        { s.logs receiver with received := (s.logs receiver).received ++ [sample] }
  | _ => s.logs

def step (s : Broadcast n T P size) :
    BroadcastAction n T P F → Option (Broadcast n T P size)
  | .subscribe slot => if s.sender then s.subscribe slot else none
  | .tryClone receiver slot => if s.live receiver then s.subscribe slot else none
  | .send v =>
      if s.sender then
        let sample := ⟨s.sends, v⟩
        (s.chan.send (F := F) sample).map fun (chan, _) =>
          { s with chan, sends := s.sends + 1, logs := s.logSend sample }
      else none
  | .recv receiver waker =>
      if s.live receiver then
        let (chan, answer) := s.chan.recv receiver waker
        some { s with chan, logs := s.logRecv receiver answer }
      else none
  | .dropReceiver receiver =>
      if s.live receiver then some (s.removeReceiver receiver) else none
  | .dropSender =>
      if s.sender then some { s with chan := s.chan.senderDropping, sender := false } else none

end Broadcast

end Kyron.Channels
