import Kyron.Io.Fds
import Kyron.Lib.Transition

/-!
# `Kyron.Io.FdTable`: the table of a selector as a map

`FdMap` is what the table of file descriptors is for: a finite map from file descriptors to their
entries, with the errors of `add`, `update` and `remove` in terms of that map alone.

`Fds.call` is a call to the table of a selector that returns. `register` and `create_waker` are
`add`, `reregister` is `update`, `deregister` is `remove`, and `select` is an iteration of its
loop, since other calls come in between two iterations.
-/

set_option autoImplicit false

namespace Kyron.Io

/-- The entries by their file descriptors. -/
abbrev FdMap := Int32 → Option (FdInfo × PollFd)

namespace FdMap

/-- `full` says that the table has no room for another entry. -/
def add (m : FdMap) (full : Bool) (fd : Int32) (id : UInt64) (interest : IoEventInterest)
    (isWaker : Bool) : FdMap × Except CommonErrors Unit :=
  if fd < 0 then (m, .error .wrongArgs)
  else if (m fd).isSome then (m, .error .alreadyDone)
  else if full then (m, .error .noSpaceLeft)
  else
    (Function.update m fd (some (⟨id, isWaker⟩, ⟨fd, pollEventsFromInterest interest, 0⟩)), .ok ())

/-- The entry of a file descriptor that `select` has negated is not updated. -/
def update (m : FdMap) (fd : Int32) (id : UInt64) (interest : IoEventInterest) :
    FdMap × Except CommonErrors Unit :=
  match m fd with
  | none => (m, .error .notFound)
  | some (info, pollfd) =>
      if pollfd.fd < 0 then (m, .error .notSupported)
      else
        (Function.update m fd (some
          ({ info with id }, { pollfd with events := pollEventsFromInterest interest })), .ok ())

def remove (m : FdMap) (fd : Int32) : FdMap × Except CommonErrors Unit :=
  match m fd with
  | none => (m, .error .notFound)
  | some _ => (Function.update m fd none, .ok ())

end FdMap

/-- A call to the table. -/
inductive FdsCall
  | add (fd : Int32) (id : UInt64) (interest : IoEventInterest) (isWaker : Bool)
  | update (fd : Int32) (id : UInt64) (interest : IoEventInterest)
  | remove (fd : Int32)
  /-- An iteration of `select`, with the capacity of its container and the answer of `poll`. -/
  | select (capacity : Nat) (revents : Nat → UInt16)

namespace Fds

/-- The table of `Selector::new`, with the internal waker in its first entry. -/
def newSelector (fdCapacity : Nat) (internalFd : Int32) : Option Fds :=
  match (Fds.new (1 + fdCapacity)).add internalFd 0 .readable true with
  | some (fds, .ok ()) => some fds
  | _ => none

/-- The table after a call that returns. -/
def call (fds : Fds) : FdsCall → Option Fds
  | .add fd id interest isWaker => (fds.add fd id interest isWaker).map Prod.fst
  | .update fd id interest => (fds.update fd id interest).map Prod.fst
  | .remove fd => (fds.remove fd).map Prod.fst
  | .select capacity revents => (fds.select capacity revents).map Prod.fst

/-- Removing `fd` does not move an entry of file descriptor 0: `fd` is not in the table, it is in
the last entry, or the last entry has another file descriptor. -/
def SparesZero (fds : Fds) (fd : Int32) : Prop :=
  ∀ index ∈ fds.fdToIndex.lookup fd, index = fds.pollfds.length - 1 ∨
    ∀ last ∈ fds.pollfds.getLast?, last.fd ≠ 0

instance (fds : Fds) (fd : Int32) : Decidable (fds.SparesZero fd) :=
  inferInstanceAs (Decidable (∀ index ∈ fds.fdToIndex.lookup fd, _))

/-- A call with a file descriptor other than that of the internal waker that does not move an entry
of file descriptor 0. -/
def CallOk (internalFd : Int32) (fds : Fds) : FdsCall → Prop
  | .add fd _ _ _ | .update fd _ _ => fd ≠ internalFd
  | .remove fd => fd ≠ internalFd ∧ fds.SparesZero fd
  | .select _ _ => True

instance (internalFd : Int32) (fds : Fds) : (c : FdsCall) → Decidable (CallOk internalFd fds c)
  | .add fd _ _ _ => inferInstanceAs (Decidable (fd ≠ internalFd))
  | .update fd _ _ => inferInstanceAs (Decidable (fd ≠ internalFd))
  | .remove _ => inferInstanceAs (Decidable (_ ∧ _))
  | .select _ _ => .isTrue trivial

end Fds

end Kyron.Io
