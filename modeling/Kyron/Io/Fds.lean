import Mathlib.Data.List.AList
import Kyron.Basic
import Kyron.Io.Selector

/-!
# `Kyron.Io.Fds`: the table of file descriptors and `select`

The model of `Fds` in `mio/selector/unix/poll.rs` and of the part of `Inner::select` that holds
the lock of the table. The infos and the pollfds are two vectors in the same order, and
`fd_to_index` finds a file descriptor in them. `remove` moves the last entry into the gap.

`FlatMap` is a container of iceoryx2. Here it is an association list with distinct keys, and an
insertion fails if the key is there or the map is full. The answer `none` stands for a panic: an
index out of bounds, or an `unwrap` or `expect` that fails.

`poll` of the system fills in the `revents`. Which flags it reports is an argument of `select`,
except that it reports none for a negative file descriptor.
-/

set_option autoImplicit false

namespace Kyron.Io

/-- `swap_remove`: the last element takes the place of the removed one. -/
def swapRemove {α : Type} (l : List α) (index : Nat) : List α :=
  match l.getLast? with
  | some last => (l.set index last).dropLast
  | none => l

/-- `Fds`. -/
structure Fds where
  fdToIndex : AList fun _ : Int32 => Nat
  infos : List FdInfo
  pollfds : List PollFd
  capacity : Nat

namespace Fds

def new (capacity : Nat) : Fds where
  fdToIndex := ∅
  infos := []
  pollfds := []
  capacity := capacity

def contains (fds : Fds) (fd : Int32) : Bool := (fds.fdToIndex.lookup fd).isSome

def len (fds : Fds) : Nat := fds.fdToIndex.keys.length

def isFull (fds : Fds) : Bool := fds.infos.length == fds.capacity

def add (fds : Fds) (fd : Int32) (id : UInt64) (interest : IoEventInterest) (isWaker : Bool) :
    Option (Fds × Except CommonErrors Unit) :=
  if fd < 0 then some (fds, .error .wrongArgs)
  else if fds.contains fd then some (fds, .error .alreadyDone)
  else if fds.isFull then some (fds, .error .noSpaceLeft)
  else if fds.len < fds.capacity ∧ fds.infos.length < fds.capacity ∧
      fds.pollfds.length < fds.capacity then
    some
      ({ fds with
          fdToIndex := fds.fdToIndex.insert fd fds.infos.length
          infos := fds.infos ++ [⟨id, isWaker⟩]
          pollfds := fds.pollfds ++ [⟨fd, pollEventsFromInterest interest, 0⟩] },
        .ok ())
  else none

def update (fds : Fds) (fd : Int32) (id : UInt64) (interest : IoEventInterest) :
    Option (Fds × Except CommonErrors Unit) :=
  match fds.fdToIndex.lookup fd with
  | some index =>
      match fds.infos[index]?, fds.pollfds[index]? with
      | some info, some pollfd =>
          -- An error occurred for this file descriptor.
          if pollfd.fd < 0 then some (fds, .error .notSupported)
          else
            some
              ({ fds with
                  infos := fds.infos.set index { info with id }
                  pollfds := fds.pollfds.set index
                    { pollfd with events := pollEventsFromInterest interest } },
                .ok ())
      | _, _ => none
  | none => some (fds, .error .notFound)

def remove (fds : Fds) (fd : Int32) : Option (Fds × Except CommonErrors Unit) :=
  match fds.fdToIndex.lookup fd with
  | some index =>
      if index < fds.infos.length ∧ index < fds.pollfds.length then
        let fds :=
          { fds with
              fdToIndex := fds.fdToIndex.erase fd
              infos := swapRemove fds.infos index
              pollfds := swapRemove fds.pollfds index }
        match fds.pollfds[index]? with
        -- It was the last one.
        | none => some (fds, .ok ())
        | some pollfd =>
            -- A negative file descriptor was negated by `select`.
            let fd := if 0 < pollfd.fd then pollfd.fd else ~~~pollfd.fd
            if fds.contains fd then
              some ({ fds with fdToIndex := fds.fdToIndex.insert fd index }, .ok ())
            else none
      else none
  | none => some (fds, .error .notFound)

/-- `poll` of the system. -/
def poll (fds : Fds) (revents : Nat → UInt16) : Fds :=
  { fds with
      pollfds := fds.pollfds.mapIdx fun i pollfd =>
        { pollfd with revents := if pollfd.fd < 0 then 0 else revents i } }

/-- What `poll` returns: the number of entries with events. -/
def pollResult (fds : Fds) : Nat := fds.pollfds.countP fun pollfd => pollfd.revents ≠ 0

/-- The loop of `select` over the entries from one index on. It answers the entries after that,
and the events. -/
def reportFds (capacity pollResult : Nat) :
    List (FdInfo × PollFd) → Nat → List IoEvent → List PollFd × Except CommonErrors (List IoEvent)
  | [], _, events => ([], .ok events)
  | (info, pollfd) :: rest, eventsProcessed, events =>
      -- No more events to process.
      if eventsProcessed = pollResult then (pollfd :: rest.map Prod.snd, .ok events)
      else if events.length = capacity then
        (pollfd :: rest.map Prod.snd, .error .noSpaceLeft)
      else
        match reportFd info pollfd with
        | (none, pollfd) =>
            let (pollfds, result) := reportFds capacity pollResult rest eventsProcessed events
            (pollfd :: pollfds, result)
        | (some event, pollfd) =>
            let (pollfds, result) :=
              reportFds capacity pollResult rest (eventsProcessed + 1) (events ++ [event])
            (pollfd :: pollfds, result)

/-- How an iteration of the loop of `select` ends. -/
inductive SelectResult
  /-- `poll` is called again. -/
  | again
  | done (result : Except CommonErrors (List IoEvent))
  deriving DecidableEq

/-- An iteration of the loop of `select`, from the call of `poll` on, with an empty container of
`capacity` events. -/
def select (fds : Fds) (capacity : Nat) (revents : Nat → UInt16) : Option (Fds × SelectResult) :=
  let fds := fds.poll revents
  if fds.pollResult = 0 then some (fds, .done (.error .timeout))
  else
    match fds.pollfds with
    | [] => none
    | internal :: pollfds =>
        let isInternalWakerReady := internal.revents ≠ 0
        if isInternalWakerReady ∧ fds.pollResult = 1 then some (fds, .again)
        else
          -- The first entry is the internal waker.
          let eventsProcessed := if isInternalWakerReady then 1 else 0
          let entries := (fds.infos.tail.zip pollfds).take (fds.len - 1)
          let (reported, result) :=
            reportFds capacity fds.pollResult entries eventsProcessed []
          some ({ fds with pollfds := internal :: reported ++ pollfds.drop reported.length },
            .done result)

end Fds

end Kyron.Io
