import Kyron.Io.Driver

/-!
# `Kyron.Io.BridgedFd`: one file descriptor between the selector and the tasks that use it

The model of `BridgedFd` in `io/bridgedfd.rs` over `Proxy::io_call` of the selector. Any number of
tasks are in `async_call`, `poll_read` or `poll_write` on one file descriptor: they get a
readiness, make the non-blocking call, and when it would block they register the file descriptor
again and clear the readiness that they got. The driver reports the file descriptor in `select`
and applies the event later in `process_io`.

Each access to the table of file descriptors and each update of the readiness word is a step.
`select` holds the table from `poll` to the end of the report. The next `select` comes after
`process_io` has applied all events of the last one, so there is at most one event that is not
applied yet. How a task waits for its readiness is left out.

`wakes` counts the applied events. The model keeps this count with the readiness that a task has
got, since the tick of a readiness word tells only 65536 of them apart.
-/

set_option autoImplicit false

namespace Kyron.Io

/-- The readiness that a task has got for its interest. `wakes` is the count at that time. -/
structure Snapshot where
  readiness : ReadinessState
  interest : IoEventInterest
  wakes : Nat
  deriving DecidableEq, Repr

/-- Where a task stands. -/
inductive IoCallPc
  /-- Before it has a readiness, or out of the call. -/
  | idle
  /-- With a readiness, before the non-blocking call. -/
  | ready (snapshot : Snapshot)
  /-- After `WouldBlock`, before `reregister`. -/
  | blocked (snapshot : Snapshot)
  /-- After `reregister`, before `clear_readiness`. -/
  | rearmed (snapshot : Snapshot)
  deriving DecidableEq, Repr

/-- The file descriptor with its registration, and the tasks `T` that use it. -/
structure BridgedFd (T : Type) where
  info : FdInfo
  pollfd : PollFd
  interest : IoEventInterest
  readiness : ReadinessState
  collected : Option IoEvent
  wakes : Nat
  tasks : T → IoCallPc

inductive IoCallAction (T : Type)
  /-- A task asks for a readiness. -/
  | request (t : T) (interest : IoEventInterest)
  /-- The non-blocking call of a task returns. -/
  | call (t : T) (wouldBlock : Bool)
  | reregister (t : T)
  | clear (t : T)
  /-- `poll` returns with the flags and `select` reports them. -/
  | report (revents : UInt16)
  /-- `process_io` applies the event. -/
  | apply
  deriving DecidableEq, Repr

namespace BridgedFd

variable {T : Type} [DecidableEq T]

/-- A new registration. The selector refuses a negative file descriptor. -/
def register (fd : Int32) (id : UInt64) (interest : IoEventInterest) : Option (BridgedFd T) :=
  if fd < 0 then none
  else
    some
      { info := ⟨id, false⟩
        pollfd := ⟨fd, pollEventsFromInterest interest, 0⟩
        interest := interest
        readiness := ⟨0⟩
        collected := none
        wakes := 0
        tasks := fun _ => .idle }

def setTask (s : BridgedFd T) (t : T) (pc : IoCallPc) : BridgedFd T :=
  { s with tasks := Function.update s.tasks t pc }

/-- The flags that `poll` may return: requested ones, and the two that it always reports. -/
def pollReturns (pollfd : PollFd) (revents : UInt16) : Prop :=
  0 ≤ pollfd.fd ∧ revents ≠ 0 ∧ revents &&& ~~~(pollfd.events ||| (pollHup ||| pollErr)) = 0

instance (pollfd : PollFd) (revents : UInt16) : Decidable (pollReturns pollfd revents) :=
  inferInstanceAs (Decidable (_ ∧ _ ∧ _))

def step (s : BridgedFd T) : IoCallAction T → Option (BridgedFd T)
  | .request t interest =>
      if s.tasks t = .idle then
        match s.readiness.isReady interest with
        | some readiness => some (s.setTask t (.ready ⟨readiness, interest, s.wakes⟩))
        | none => some s
      else none
  | .call t wouldBlock =>
      match s.tasks t with
      | .ready snapshot => some (s.setTask t (if wouldBlock then .blocked snapshot else .idle))
      | _ => none
  | .reregister t =>
      match s.tasks t with
      | .blocked snapshot =>
          -- The selector refuses a disabled file descriptor, and the call ends with that error.
          if s.pollfd.fd < 0 then some (s.setTask t .idle)
          else
            some ({ s with
              pollfd := { s.pollfd with events := pollEventsFromInterest s.interest } }.setTask t
                (.rearmed snapshot))
      | _ => none
  | .clear t =>
      match s.tasks t with
      | .rearmed snapshot =>
          let cleared := s.readiness.clearReadiness snapshot.readiness snapshot.interest
          some ({ s with readiness := cleared.getD s.readiness }.setTask t .idle)
      | _ => none
  | .report revents =>
      if s.collected = none ∧ pollReturns s.pollfd revents then
        let (collected, pollfd) := reportFd s.info { s.pollfd with revents }
        some { s with collected, pollfd }
      else none
  | .apply =>
      match s.collected with
      | some event =>
          some { s with
            readiness := s.readiness.markState (.fromMioEvent event)
            collected := none
            wakes := s.wakes + 1 }
      | none => none

end BridgedFd

end Kyron.Io
