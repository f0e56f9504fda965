import Mathlib.Logic.Function.Basic
import Kyron.Containers.Queue

/-!
# `Kyron.Containers.TriggerSystem`: the threads that push to a trigger queue and its consumer

The model of `TriggerQueue` and `TriggerQueueConsumer` in `containers/trigger_queue.rs`. Any number
of threads push, one consumer pops, and they share the ring of `Kyron.Containers.Queue` behind a
mutex, the flag `state`, the flag `has_consumer` and the condition variable. Every access to one of
them is a step.

* `wait_while` and `wait_timeout_while` are the loops of the standard library: the condition is
  looked at with the mutex, then the time that is left, then the consumer gives the mutex away and
  waits in one step. A wait may end at any time, whether it was notified or not.
* The vector of `pop_into_vec` is not part of the repository. `VecOps` takes it as a parameter, and
  `VecOps.Lawful` is what it is assumed to do.
* The condition variable knows only the consumer. `notified` says that it was notified since the
  consumer waits.
* The log is not part of the source. It notes what was done to the ring, in the order of the mutex,
  and what the calls have returned.
-/

set_option autoImplicit false

namespace Kyron.Containers

/-- The operations of the vector that `pop_into_vec` uses. A `push` may fail. -/
structure VecOps (C V : Type) where
  isFull : C → Bool
  push : C → V → Option C

/-- A vector has items, and one that is not full takes a value at its end. -/
structure VecOps.Lawful {C V : Type} (vec : VecOps C V) (items : C → List V) : Prop where
  push : ∀ c v, vec.isFull c = false → ∃ c', vec.push c v = some c' ∧ items c' = items c ++ [v]

/-- Lists of at most so many items. -/
def boundedList (V : Type) (capacity : Nat) : VecOps (List V) V where
  isFull := fun l => decide (capacity ≤ l.length)
  push := fun l v => if l.length < capacity then some (l ++ [v]) else none

/-- The calls of the consumer. -/
inductive PopCall (C : Type)
  | pop
  | popIntoVec (container : C)
  | popBlocking
  | popBlockingWithTimeout
  deriving DecidableEq, Repr

/-- What a call of the consumer returns. -/
inductive PopAnswer (C V : Type)
  /-- From `pop`. -/
  | option (value : Option V)
  /-- From `pop_into_vec`: the container as it was and as it is, and what the pops of the call have
  returned. -/
  | container (initial container : C) (pops : List (Option V))
  /-- From a blocking pop. -/
  | value (value : V)
  /-- `Err(CommonErrors::Timeout)`. -/
  | timeout
  deriving DecidableEq, Repr

/-- Where the consumer stands. -/
inductive ConsumerPc (C V : Type)
  /-- There is no consumer. -/
  | absent
  | idle
  /-- In a call, before the mutex. -/
  | lock (call : PopCall C)
  /-- With the mutex, in `pop`. -/
  | pop
  /-- With the mutex, at the head of the loop of `pop_into_vec`. -/
  | fill (initial container : C) (pops : List (Option V))
  /-- With the mutex, before `state` is set. -/
  | falling (timed : Bool)
  /-- With the mutex, before the condition of the wait. -/
  | check (timed : Bool)
  /-- With the mutex, decided to wait. -/
  | block (timed : Bool)
  /-- Waiting for the condition variable, without the mutex. -/
  | wait (timed : Bool)
  /-- Back from the wait, before the mutex. -/
  | relock (timed : Bool)
  /-- With the mutex, out of the loop of the wait, before `state` is cleared. -/
  | awake (timedOut : Bool)
  /-- With the mutex, after that. -/
  | take (timedOut : Bool)
  /-- With the mutex, before it is released and the call returns. -/
  | unlock (answer : PopAnswer C V)
  /-- An `unwrap` of the source has failed. -/
  | failed
  deriving DecidableEq, Repr

/-- Where a thread stands in `push`. -/
inductive PushPc (V : Type)
  | idle
  /-- Before the mutex. -/
  | lock (value : V)
  /-- With the mutex, before the push to the ring. -/
  | push (value : V)
  /-- With the mutex and the value in the ring, before `state` is read. -/
  | load (value : V)
  /-- With the mutex, has seen that the consumer sleeps. -/
  | dropGuard (value : V)
  /-- Without the mutex, before `notify_one`. -/
  | notify (value : V)
  /-- With the mutex, before it is released and the call returns. -/
  | unlock (value : V) (ret : Bool)
  deriving DecidableEq, Repr

/-- Who can hold the mutex. -/
inductive TriggerParty (T : Type)
  | consumer
  | pusher (t : T)
  deriving DecidableEq, Repr

/-- What is done to the queue with the mutex. -/
inductive TriggerEvent (T V : Type)
  | push (t : T) (value : V) (ok : Bool)
  | pop (value : Option V)
  /-- A blocking pop gives up. -/
  | timeout
  deriving DecidableEq, Repr

structure TriggerLog (T C V : Type) where
  events : List (TriggerEvent T V)
  /-- The pushes that have returned. -/
  returns : List (T × V × Bool)
  /-- The answers that the consumer got. -/
  answers : List (PopAnswer C V)
  deriving DecidableEq, Repr

/-- `TriggerQueue` with the threads `T` that push and its consumer. -/
structure TriggerSystem (T C V : Type) where
  queue : Queue V
  lock : Option (TriggerParty T)
  state : Bool
  hasConsumer : Bool
  notified : Bool
  consumer : ConsumerPc C V
  pushers : T → PushPc V
  log : TriggerLog T C V

inductive TriggerMove (T C V : Type)
  | getConsumer
  | dropConsumer
  /-- The consumer makes a call. -/
  | call (call : PopCall C)
  /-- The consumer makes its next step. -/
  | advance
  /-- The time of a wait is up. -/
  | elapsed
  /-- The wait on the condition variable ends. -/
  | wakeUp
  /-- A thread calls `push`. -/
  | push (t : T) (value : V)
  /-- A thread in `push` makes its next step. -/
  | pusher (t : T)
  deriving DecidableEq, Repr

/-- The first place of a call that has the mutex. -/
def PopCall.start {C V : Type} : PopCall C → ConsumerPc C V
  | .pop => .pop
  | .popIntoVec container => .fill container container []
  | .popBlocking => .falling false
  | .popBlockingWithTimeout => .falling true

namespace TriggerSystem

variable {T C V : Type} [DecidableEq T]

/-- `TriggerQueue::new`. -/
def new (capacity : UInt64) (h : ∃ k < 64, capacity.toNat = 2 ^ k) : TriggerSystem T C V where
  queue := .new capacity h
  lock := none
  state := false
  hasConsumer := false
  notified := false
  consumer := .absent
  pushers := fun _ => .idle
  log := { events := [], returns := [], answers := [] }

/-- An event is noted. -/
def note (s : TriggerSystem T C V) (e : TriggerEvent T V) : TriggerSystem T C V :=
  { s with log := { s.log with events := s.log.events ++ [e] } }

def setPusher (s : TriggerSystem T C V) (t : T) (pc : PushPc V) : TriggerSystem T C V :=
  { s with pushers := Function.update s.pushers t pc }

/-- The push of a value returns. -/
def returnPush (s : TriggerSystem T C V) (t : T) (value : V) (ret : Bool) : TriggerSystem T C V :=
  { s with log := { s.log with returns := s.log.returns ++ [(t, value, ret)] } }.setPusher t .idle

/-- `cv.notify_one()`. -/
def notifyOne (s : TriggerSystem T C V) : TriggerSystem T C V :=
  match s.consumer with
  | .wait _ => { s with notified := true }
  | _ => s

/-- The next step of a thread in `push`. -/
def stepPusher (s : TriggerSystem T C V) (t : T) : Option (TriggerSystem T C V) :=
  match s.pushers t with
  | .idle => none
  | .lock value =>
      if s.lock = none then some ({ s with lock := some (.pusher t) }.setPusher t (.push value))
      else none
  | .push value =>
      match s.queue.push value with
      | (queue, true) =>
          some (({ s with queue }.note (.push t value true)).setPusher t (.load value))
      | (queue, false) =>
          some (({ s with queue }.note (.push t value false)).setPusher t (.unlock value false))
  | .load value =>
      if s.state then some (s.setPusher t (.dropGuard value))
      else some (s.setPusher t (.unlock value true))
  | .dropGuard value => some ({ s with lock := none }.setPusher t (.notify value))
  | .notify value => some (s.notifyOne.returnPush t value true)
  | .unlock value ret => some ({ s with lock := none }.returnPush t value ret)

/-- The consumer takes the mutex when it is free, and goes on at `pc`. -/
def lockConsumer (s : TriggerSystem T C V) (pc : ConsumerPc C V) : Option (TriggerSystem T C V) :=
  if s.lock = none then some { s with lock := some .consumer, consumer := pc } else none

/-- One round of the loop of `pop_into_vec`. -/
def fillRound (s : TriggerSystem T C V) (vec : VecOps C V) (initial container : C)
    (pops : List (Option V)) : TriggerSystem T C V :=
  if vec.isFull container then { s with consumer := .unlock (.container initial container pops) }
  else
    match s.queue.pop with
    | (queue, none) =>
        { s with queue, consumer := .unlock (.container initial container (pops ++ [none])) }.note
          (.pop none)
    | (queue, some value) =>
        match vec.push container value with
        | some container =>
            { s with queue, consumer := .fill initial container (pops ++ [some value]) }.note
              (.pop (some value))
        | none => { s with queue, consumer := .failed }.note (.pop (some value))

/-- The next step of the consumer where it has only one. -/
def stepConsumer (s : TriggerSystem T C V) (vec : VecOps C V) : Option (TriggerSystem T C V) :=
  match s.consumer with
  | .lock call => s.lockConsumer call.start
  | .pop =>
      match s.queue.pop with
      | (queue, value) =>
          some ({ s with queue, consumer := .unlock (.option value) }.note (.pop value))
  | .fill initial container pops => some (s.fillRound vec initial container pops)
  | .falling timed => some { s with state := true, consumer := .check timed }
  | .check timed =>
      if s.queue.isEmpty then some { s with consumer := .block timed }
      else some { s with consumer := .awake false }
  | .block timed => some { s with lock := none, notified := false, consumer := .wait timed }
  | .relock timed => s.lockConsumer (.check timed)
  | .awake timedOut => some { s with state := false, consumer := .take timedOut }
  | .take true => some ({ s with consumer := .unlock .timeout }.note .timeout)
  | .take false =>
      match s.queue.pop with
      | (queue, some value) =>
          some ({ s with queue, consumer := .unlock (.value value) }.note (.pop (some value)))
      | (queue, none) => some ({ s with queue, consumer := .failed }.note (.pop none))
  | .unlock answer =>
      some { s with
        lock := none
        consumer := .idle
        log := { s.log with answers := s.log.answers ++ [answer] } }
  | .absent | .idle | .wait _ | .failed => none

def step (vec : VecOps C V) (s : TriggerSystem T C V) :
    TriggerMove T C V → Option (TriggerSystem T C V)
  | .getConsumer =>
      if s.hasConsumer then some s
      else some { s with hasConsumer := true, consumer := .idle }
  | .dropConsumer =>
      match s.consumer with
      | .idle => some { s with hasConsumer := false, consumer := .absent }
      | _ => none
  | .call call =>
      match s.consumer with
      | .idle => some { s with consumer := .lock call }
      | _ => none
  | .advance => s.stepConsumer vec
  | .elapsed =>
      -- The time is looked at after the condition has found the queue empty.
      match s.consumer with
      | .check true => if s.queue.isEmpty then some { s with consumer := .awake true } else none
      | _ => none
  | .wakeUp =>
      match s.consumer with
      | .wait timed => some { s with consumer := .relock timed }
      | _ => none
  | .push t value =>
      match s.pushers t with
      | .idle => some (s.setPusher t (.lock value))
      | _ => none
  | .pusher t => s.stepPusher t

end TriggerSystem

end Kyron.Containers
