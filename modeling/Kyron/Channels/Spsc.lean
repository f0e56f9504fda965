import Mathlib.Data.List.Basic
import Kyron.Basic
import Kyron.Scheduler.Waker

/-!
# `Kyron.Channels.Spsc`: a channel with one sender and one receiver

The model of `Channel` in `channels/spsc.rs`, one whole call at a time. `Kyron.Channels.SpscSystem`
has the calls access by access, as the two threads interleave them, and
`Kyron.Proofs.Channels.SpscSystem` proves that a call which is not interrupted does what is said
here.

* The queue is the `spsc::queue::Queue` of iceoryx2, which is not part of the repository. It is
  taken to be a FIFO of at most `SIZE` values.
* `connected_state` is a byte that is written as a whole, although it carries two flags.
* A call answers, next to its result, the waker that it wakes.
-/

set_option autoImplicit false

namespace Kyron.Channels

open Kyron.Scheduler

/-- `BOTH_IN`. -/
def bothIn : UInt8 := 0

/-- `SENDER_GONE`. -/
def senderGone : UInt8 := 1

/-- `RECV_GONE`. -/
def recvGone : UInt8 := 2

/-- `spsc::queue::Queue<T, SIZE>`, the oldest value first. -/
structure SpscQueue (T : Type) (size : Nat) where
  items : List T
  length_le : items.length ≤ size
  deriving DecidableEq

namespace SpscQueue

variable {T : Type} {size : Nat}

def empty : SpscQueue T size := ⟨[], Nat.zero_le _⟩

def isEmpty (q : SpscQueue T size) : Bool := q.items.isEmpty

/-- `push`, which refuses when the queue is full. -/
def push (q : SpscQueue T size) (v : T) : Option (SpscQueue T size) :=
  if h : q.items.length < size then
    some ⟨q.items ++ [v], by rw [List.length_append]; exact h⟩
  else
    none

theorem length_rest_le (q : SpscQueue T size) {v : T} {rest : List T}
    (h : q.items = v :: rest) : rest.length ≤ size := by
  have hle := q.length_le
  rw [h, List.length_cons] at hle
  exact Nat.le_of_succ_le hle

/-- `pop`. -/
def pop (q : SpscQueue T size) : Option (T × SpscQueue T size) :=
  match h : q.items with
  | [] => none
  | v :: rest => some (v, ⟨rest, q.length_rest_le h⟩)

end SpscQueue

/-- `Channel`. -/
structure Channel (T P : Type) (size : Nat) where
  queue : SpscQueue T size
  wakerStore : AtomicWakerStore P
  connectedState : UInt8
  deriving DecidableEq

namespace Channel

variable {T P F : Type} {size : Nat}

def new : Channel T P size where
  queue := .empty
  wakerStore := .empty
  connectedState := bothIn

/-- The waker is taken out of the store. -/
def clearWaker (c : Channel T P size) : Channel T P size :=
  { c with wakerStore := (c.wakerStore.take (F := Empty)).2 }

/-- `sender_dropping`. -/
def senderDropping (c : Channel T P size) : Channel T P size × Option (Waker P F) :=
  let prev := c.connectedState
  let c := { c with connectedState := senderGone }
  if prev = bothIn then
    -- The receiver is still there and is notified.
    let (waker, wakerStore) := c.wakerStore.take
    ({ c with wakerStore }, waker)
  else
    (c, none)

/-- `receiver_dropping`. -/
def receiverDropping (c : Channel T P size) : Channel T P size :=
  { c with connectedState := recvGone }.clearWaker

/-- `enable_receiver`. -/
def enableReceiver (c : Channel T P size) : Channel T P size :=
  if c.connectedState &&& recvGone ≠ 0 then
    -- What a former receiver has not read is dropped.
    { c with queue := .empty, connectedState := c.connectedState &&& ~~~recvGone }
  else
    c

/-- `send`. -/
def send (c : Channel T P size) (v : T) :
    Channel T P size × Except CommonErrors Unit × Option (Waker P F) :=
  if c.connectedState = recvGone then (c, .error .genericError, none)
  else
    match c.queue.push v with
    | none => (c, .error .noSpaceLeft, none)
    | some queue =>
        let (waker, wakerStore) := c.wakerStore.take
        ({ c with queue, wakerStore }, .ok (), waker)

/-- `receive`. -/
def receive (c : Channel T P size) (waker : Waker P F) :
    Channel T P size × Except CommonErrors T :=
  match c.queue.pop with
  | some (v, queue) => ({ c with queue }.clearWaker, .ok v)
  | none =>
      let (old, wakerStore) := c.wakerStore.swap (some waker)
      let c := { c with wakerStore }
      match old with
      -- The sender did not take the waker of the last call, so nothing has happened since.
      | some _ => (c, .error .noData)
      | none =>
          if c.connectedState = senderGone then (c.clearWaker, .error .alreadyDone)
          else (c, .error .noData)

end Channel

end Kyron.Channels
