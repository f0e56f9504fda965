import Kyron.Io.Readiness

/-!
# `Kyron.Io.Selector`: what `select` reports for a file descriptor

The model of the selector over `poll` in `mio/selector/unix/poll.rs`: the entries of the table of
file descriptors, the conversions between interests and poll flags, and what `select` does with
an entry after `poll` has returned. Reporting is one-shot. The reported flags are taken out of
the requested ones until the owner registers the file descriptor again, and after a hang-up or
an error the file descriptor itself is negated, so that `poll` ignores it from then on.

The flags are `i16` in the source, here the 16 bit words with the same bits.
-/

set_option autoImplicit false

namespace Kyron.Io

/-- The two directions of an interest. -/
inductive Direction
  | readable
  | writable
  deriving DecidableEq, Repr

def IoEventInterest.has (i : IoEventInterest) : Direction → Bool
  | .readable => i.isReadable
  | .writable => i.isWritable

def ReadinessState.has (r : ReadinessState) : Direction → Bool
  | .readable => r.isReadable
  | .writable => r.isWritable

/-- The `|` of `IoEventInterest`. -/
def IoEventInterest.bitor (a b : IoEventInterest) : IoEventInterest := ⟨a.bits ||| b.bits⟩

/-- `POLLIN`. -/
def pollIn : UInt16 := 0x0001

/-- `POLLPRI`. -/
def pollPri : UInt16 := 0x0002

/-- `POLLOUT`. -/
def pollOut : UInt16 := 0x0004

/-- `POLLERR`. -/
def pollErr : UInt16 := 0x0008

/-- `POLLHUP`. -/
def pollHup : UInt16 := 0x0010

/-- `pollfd`. -/
structure PollFd where
  fd : Int32
  events : UInt16
  revents : UInt16
  deriving DecidableEq

/-- `FdInfo`. -/
structure FdInfo where
  id : UInt64
  isWaker : Bool
  deriving DecidableEq, Repr

/-- `IoEvent`. -/
structure IoEvent where
  id : UInt64
  interest : IoEventInterest
  deriving DecidableEq, Repr

def pollEventsFromInterest (interest : IoEventInterest) : UInt16 :=
  let events := 0
  let events := if interest.isReadable then events ||| (pollIn ||| pollPri) else events
  if interest.isWritable then events ||| pollOut else events

def interestFromPollEvents (events : UInt16) : IoEventInterest :=
  let interest := ⟨0⟩
  let interest :=
    if events &&& (pollIn ||| pollPri) ≠ 0 then interest.bitor .readable else interest
  if events &&& pollOut ≠ 0 then interest.bitor .writable else interest

/-- What `select` does with one entry: the event that it pushes, if any, and the entry after
that. -/
def reportFd (info : FdInfo) (pollfd : PollFd) : Option IoEvent × PollFd :=
  if pollfd.revents = 0 then (none, pollfd)
  else
    -- All future calls of `poll` ignore a negative file descriptor.
    let fd := if pollfd.revents &&& (pollHup ||| pollErr) ≠ 0 then ~~~pollfd.fd else pollfd.fd
    if info.isWaker then (some ⟨info.id, ⟨0⟩⟩, { pollfd with fd })
    else
      (some ⟨info.id, interestFromPollEvents pollfd.revents⟩,
        { pollfd with fd, events := pollfd.events &&& ~~~pollfd.revents })

end Kyron.Io
