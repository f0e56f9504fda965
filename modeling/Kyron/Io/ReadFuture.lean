import Kyron.Io.AsyncRegistration

/-!
# `Kyron.Io.ReadFuture`: the future of an asynchronous read

The model of `ReadFuture::poll` in `io/utils/read_future.rs`, with `BridgedFd::poll_read`,
`poll_register_interest` and `clear_readiness` that it calls and the buffer of `io/read_buf.rs`.
The future has the reader for itself, so only the driver works on the registration at the same
time. Each access to the readiness word and to the slot of the read waker is a step. `wake_all`
takes the lock of the wakers and gives it back in one step, so it waits while the future holds
the lock.

The non-blocking read follows a script: it would block a number of times, and then it has its
outcome. The file descriptor is registered again with success each time that the read would block.
A read that returns bytes has put them at the front of its slice.

`rounds` counts the polls that begin when the word says that the file descriptor is readable.
-/

set_option autoImplicit false

namespace Kyron.Io

/-- `ReadBuf`. -/
structure ReadBuf where
  buf : List UInt8
  filled : Nat
  initialized : Nat
  deriving DecidableEq, Repr

namespace ReadBuf

/-- `ReadBuf::new`. -/
def new (buf : List UInt8) : ReadBuf where
  buf := buf
  filled := 0
  initialized := buf.length

/-- `filled`. -/
def filledSlice (b : ReadBuf) : List UInt8 := b.buf.take b.filled

/-- `initialized_unfilled_mut`, after a read has put the bytes at its front. -/
def readInto (b : ReadBuf) (bytes : List UInt8) : ReadBuf :=
  let space := (b.buf.take b.initialized).drop b.filled
  let space := bytes.take space.length ++ space.drop bytes.length
  { b with buf := b.buf.take b.filled ++ space ++ b.buf.drop b.initialized }

/-- `advance_filled`. -/
def advanceFilled (b : ReadBuf) (n : Nat) : ReadBuf := { b with filled := b.filled + n }

end ReadBuf

/-- Where the poll of the future stands. -/
inductive ReadPc (W : Type)
  /-- Not in `poll`. -/
  | idle
  /-- `poll_register_interest`, before `is_ready`. -/
  | isReady (waker : W)
  /-- `poll_register_interest`, before the lock. -/
  | lock (waker : W)
  /-- `poll_register_interest`, with the lock, before `is_ready` is checked again. -/
  | recheck (waker : W)
  /-- `poll_register_interest`, with the lock, before the waker is stored. -/
  | store (waker : W)
  /-- `poll_read`, with a readiness, before the non-blocking read. -/
  | read (readiness : ReadinessState) (waker : W)
  /-- `poll_read`, after `WouldBlock`, before `clear_readiness`. -/
  | clear (readiness : ReadinessState) (waker : W)
  deriving DecidableEq, Repr

/-- A read in progress, with its registration and the driver. -/
structure ReadSystem (E W : Type) where
  readiness : ReadinessState
  /-- The slot of the read waker. -/
  slot : Option W
  /-- The word that `wake_all` still has to look at. -/
  driver : Option ReadinessState
  /-- How often the read still would block. -/
  wouldBlocks : Nat
  outcome : Except E (List UInt8)
  buf : ReadBuf
  /-- The local variable of `ReadFuture::poll`. -/
  before : Nat
  pc : ReadPc W
  result : Option (Except E Nat)
  woken : List W
  rounds : Nat

inductive ReadAction (W : Type)
  | poll (waker : W)
  /-- The poll makes its next step. -/
  | advance
  /-- The driver calls `wake`, which marks the state. -/
  | event (state : ReadinessState)
  /-- The driver goes on with `wake_all`. -/
  | wakeAll
  deriving DecidableEq, Repr

/-- The `map` at the end of `ReadFuture::poll`. It looks at the buffer only. -/
def readFutureAnswer {E : Type} (before : Nat) (buf : ReadBuf) : Except E Unit → Except E Nat :=
  fun _ => .ok (buf.filledSlice.length - before)

namespace ReadSystem

variable {E W : Type}

/-- `AsyncReadExt::read`, on a registration that may have been used before. -/
def new (readiness : ReadinessState) (slot : Option W) (driver : Option ReadinessState)
    (buf : List UInt8) (wouldBlocks : Nat) (outcome : Except E (List UInt8)) :
    ReadSystem E W where
  readiness := readiness
  slot := slot
  driver := driver
  wouldBlocks := wouldBlocks
  outcome := outcome
  buf := .new buf
  before := 0
  pc := .idle
  result := none
  woken := []
  rounds := 0

/-- `poll_read` is ready with the answer. -/
def finish (s : ReadSystem E W) (answer : Except E Unit) : ReadSystem E W :=
  { s with result := some (readFutureAnswer s.before s.buf answer), pc := .idle }

/-- The non-blocking read and the match on what it returned. -/
def pollRead (s : ReadSystem E W) (readiness : ReadinessState) (waker : W) : ReadSystem E W :=
  match s.wouldBlocks with
  | n + 1 => { s with wouldBlocks := n, pc := .clear readiness waker }
  | 0 =>
      match s.outcome with
      | .ok bytes =>
          { s with buf := (s.buf.readInto bytes).advanceFilled bytes.length }.finish (.ok ())
      | .error e => s.finish (.error e)

/-- The next step of the poll. -/
def stepReader (s : ReadSystem E W) : Option (ReadSystem E W) :=
  match s.pc with
  | .idle => none
  | .isReady waker =>
      match s.readiness.isReady .readable with
      | some readiness => some { s with pc := .read readiness waker }
      | none => some { s with pc := .lock waker }
  | .lock waker => some { s with pc := .recheck waker }
  | .recheck waker =>
      match s.readiness.isReady .readable with
      | some readiness => some { s with pc := .read readiness waker }
      | none => some { s with pc := .store waker }
  | .store waker => some { s with slot := some waker, pc := .idle }
  | .read readiness waker => some (s.pollRead readiness waker)
  | .clear readiness waker =>
      let cleared := s.readiness.clearReadiness readiness .readable
      some { s with readiness := cleared.getD s.readiness, pc := .isReady waker }

/-- The future holds the lock of the wakers. -/
def holdsLock : ReadPc W → Bool
  | .recheck _ | .store _ => true
  | _ => false

def step (s : ReadSystem E W) : ReadAction W → Option (ReadSystem E W)
  | .poll waker =>
      match s.pc, s.result with
      | .idle, none =>
          some { s with
            before := s.buf.filledSlice.length
            pc := .isReady waker
            rounds := if (s.readiness.isReady .readable).isSome then s.rounds + 1 else s.rounds }
      | _, _ => none
  | .advance => s.stepReader
  | .event state =>
      if s.driver = none then
        let readiness := s.readiness.markState state
        some { s with readiness, driver := some readiness }
      else none
  | .wakeAll =>
      match s.driver with
      | some readiness =>
          if holdsLock s.pc then none
          else if readiness.isReadable then
            some { s with driver := none, woken := s.slot.toList ++ s.woken, slot := none }
          else some { s with driver := none }
      | none => none

end ReadSystem

end Kyron.Io
