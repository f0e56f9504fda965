import Kyron.Io.Driver
import Kyron.Io.Fds

/-!
# `Kyron.Io.Registrations`: registrations that come and go while the driver polls

The model of `Registrations`, `add_io_source`, `remove_io_source` and `process_io` in
`io/driver.rs`. An event of `select` carries the address of a `RegistrationInfo`, which the driver
turns into a reference. `tracking` keeps the info alive: a removed source is only put on
`waiting_release`, and the next call of `process_io` releases it before it polls.

Any number of sources are added, registered again and removed. The two locks, of the registrations
and of the table of file descriptors, make each of the following one step: the creation of an info,
its release, its disposal, an access to the table, the cleanup, and `select` from its last call of
`poll` on. `process_io` runs once at a time.

* `SlotMap` is a container of iceoryx2. It answers a key that is not in use, or none.
* The allocator may answer any address for an info.
* A panic in an access to the table poisons its lock, after which every access panics.
-/

set_option autoImplicit false

namespace Kyron.Io

/-- An `Arc<RegistrationInfo>`: its address, which is the identifier, and its key. -/
structure InfoRef (count : Nat) where
  identifier : UInt64
  key : Fin count
  deriving DecidableEq, Repr

/-- `tracking_key`, with `usize::MAX` for no key. -/
def InfoRef.trackingKey {count : Nat} (info : InfoRef count) : Option (Fin count) :=
  if info.key.val = UInt64.size - 1 then none else some info.key

/-- `Registrations`, with its `RegistrationData`. -/
structure Registrations (count : Nat) where
  tracking : Fin count → Option UInt64
  waitingRelease : List (Fin count)
  pendingReleaseCount : Bool

namespace Registrations

variable {count : Nat}

def new : Registrations count where
  tracking := fun _ => none
  waitingRelease := []
  pendingReleaseCount := false

/-- `tracking.remove`. -/
def untrack (r : Registrations count) (key : Fin count) : Registrations count :=
  { r with tracking := Function.update r.tracking key none }

/-- `create_registration_info`, with the answers of the slot map and of the allocator. -/
def createRegistrationInfo (r : Registrations count) (nextFreeKey : Option (Fin count))
    (address : UInt64) : Registrations count × Except CommonErrors (InfoRef count) :=
  match nextFreeKey with
  | none => (r, .error .noSpaceLeft)
  | some key =>
      ({ r with tracking := Function.update r.tracking key (some address) }, .ok ⟨address, key⟩)

/-- `schedule_registration_for_disposal`, with no answer if the push fails. -/
def scheduleRegistrationForDisposal (r : Registrations count) (key : Fin count) :
    Option (Registrations count) :=
  if r.waitingRelease.length < count then
    some { r with waitingRelease := r.waitingRelease ++ [key], pendingReleaseCount := true }
  else none

/-- `cleanup_disposed_registrations`, from the lock on. The keys are popped from the end. -/
def cleanupDisposedRegistrations (r : Registrations count) : Registrations count :=
  let r := r.waitingRelease.foldr (fun key r => r.untrack key) r
  { r with waitingRelease := [], pendingReleaseCount := false }

def releaseRegistrationInfo (r : Registrations count) (key : Fin count) : Registrations count :=
  r.untrack key

end Registrations

/-- A source with its info. -/
structure IoSource (count : Nat) where
  fd : Int32
  interest : IoEventInterest
  info : InfoRef count
  deriving DecidableEq, Repr

/-- Where a source stands. -/
inductive SourceState (count : Nat)
  | absent
  /-- In `add_io_source`, before `register`. -/
  | registering (src : IoSource count)
  /-- In `add_io_source`, after `register` has failed. -/
  | releasing (src : IoSource count)
  | registered (src : IoSource count)
  /-- In `remove_io_source`, after `deregister`. -/
  | disposing (src : IoSource count)
  | panicked (src : IoSource count)
  deriving DecidableEq, Repr

/-- Where `process_io` stands. -/
inductive ProcessIoPc
  | outside
  /-- Before `pending_release_count` is loaded. -/
  | start
  /-- It was set. -/
  | cleanup
  | select
  /-- In the loop over the events. The first one is in hand. -/
  | events (events : List IoEvent)
  | panicked
  deriving DecidableEq

/-- The driver and the sources `S`. -/
structure IoDriver (S : Type) (count : Nat) where
  registrations : Registrations count
  fds : Fds
  fdsPoisoned : Bool
  sources : S → SourceState count
  processIo : ProcessIoPc

inductive IoDriverAction (S : Type) (count : Nat)
  /-- `add_io_source` is called. -/
  | add (t : S) (fd : Int32) (interest : IoEventInterest) (nextFreeKey : Option (Fin count))
      (address : UInt64)
  /-- The call of a source makes its next step. -/
  | advance (t : S)
  /-- A call of the source would block. -/
  | reregister (t : S)
  /-- `remove_io_source` is called. -/
  | remove (t : S)
  /-- `process_io` is called. -/
  | processIo
  /-- `process_io` makes its next step, outside of `select`. -/
  | advanceProcessIo
  /-- `poll` returns in `select`, with the flags of each entry. -/
  | select (revents : Nat → UInt16)

namespace IoDriver

variable {S : Type} [DecidableEq S] {count : Nat}

/-- `IoDriver::new`, with the file descriptors of the two wakers. There is no answer if it
panics. -/
def new (internalFd wakerFd : Int32) : Option (IoDriver S count) :=
  match (Fds.new (1 + count)).add internalFd 0 .readable true with
  | some (fds, .ok ()) =>
      match fds.add wakerFd wakerIoId .readable true with
      | some (fds, .ok ()) =>
          some
            { registrations := .new
              fds := fds
              fdsPoisoned := false
              sources := fun _ => .absent
              processIo := .outside }
      | _ => none
  | _ => none

def goto (s : IoDriver S count) (t : S) (state : SourceState count) : IoDriver S count :=
  { s with sources := Function.update s.sources t state }

/-- `access_fds` by a source, which goes on as the result says. -/
def accessFds (s : IoDriver S count) (t : S) (src : IoSource count)
    (accessor : Fds → Option (Fds × Except CommonErrors Unit))
    (next : Except CommonErrors Unit → SourceState count) : IoDriver S count :=
  if s.fdsPoisoned then s.goto t (.panicked src)
  else
    match accessor s.fds with
    | some (fds, result) => { s with fds }.goto t (next result)
    | none => { s with fdsPoisoned := true }.goto t (.panicked src)

/-- `register`, and what `add_io_source` does with its result. -/
def register (s : IoDriver S count) (t : S) (src : IoSource count) : IoDriver S count :=
  s.accessFds t src (fun fds => fds.add src.fd src.info.identifier src.interest false) fun
    | .ok _ => .registered src
    | .error _ => .releasing src

/-- The end of `add_io_source` after an error. -/
def release (s : IoDriver S count) (t : S) (src : IoSource count) : IoDriver S count :=
  match src.info.trackingKey with
  | some key =>
      { s with registrations := s.registrations.releaseRegistrationInfo key }.goto t .absent
  | none => s.goto t .absent

/-- The end of `remove_io_source`. -/
def dispose (s : IoDriver S count) (t : S) (src : IoSource count) : IoDriver S count :=
  match src.info.trackingKey with
  | some key =>
      match s.registrations.scheduleRegistrationForDisposal key with
      | some registrations => { s with registrations }.goto t .absent
      | none => s.goto t (.panicked src)
  | none => s.goto t .absent

/-- The next step of the call of a source. -/
def advance (s : IoDriver S count) (t : S) : Option (IoDriver S count) :=
  match s.sources t with
  | .registering src => some (s.register t src)
  | .releasing src => some (s.release t src)
  | .disposing src => some (s.dispose t src)
  | .absent | .registered _ | .panicked _ => none

/-- The next step of `process_io`, outside of `select`. -/
def advanceProcessIo (s : IoDriver S count) : Option (IoDriver S count) :=
  match s.processIo with
  | .start =>
      some { s with processIo := if s.registrations.pendingReleaseCount then .cleanup else .select }
  | .cleanup =>
      some
        { s with
            registrations := s.registrations.cleanupDisposedRegistrations
            processIo := .select }
  | .events [] => some { s with processIo := .outside }
  -- The event of the own waker is skipped. Any other one wakes the info at its address.
  | .events (_ :: events) => some { s with processIo := .events events }
  | .outside | .select | .panicked => none

/-- `poll` returns in `select`. -/
def select (s : IoDriver S count) (revents : Nat → UInt16) : IoDriver S count :=
  if s.fdsPoisoned then { s with processIo := .panicked }
  else
    match s.fds.select count revents with
    | some (fds, .again) => { s with fds }
    | some (fds, .done (.ok events)) => { s with fds, processIo := .events events }
    | some (fds, .done (.error .timeout)) => { s with fds, processIo := .outside }
    -- An error that is not handled.
    | some (fds, .done (.error _)) => { s with fds, processIo := .panicked }
    | none => { s with fdsPoisoned := true, processIo := .panicked }

def step (s : IoDriver S count) : IoDriverAction S count → Option (IoDriver S count)
  | .add t fd interest nextFreeKey address =>
      if s.sources t = .absent ∧ nextFreeKey.all (fun key => (s.registrations.tracking key).isNone)
      then
        match s.registrations.createRegistrationInfo nextFreeKey address with
        | (registrations, .ok info) =>
            some ({ s with registrations }.goto t (.registering ⟨fd, interest, info⟩))
        | (registrations, .error _) => some { s with registrations }
      else none
  | .advance t => s.advance t
  | .reregister t =>
      match s.sources t with
      | .registered src =>
          some (s.accessFds t src
            (fun fds => fds.update src.fd src.info.identifier src.interest)
            fun _ => .registered src)
      | _ => none
  | .remove t =>
      match s.sources t with
      | .registered src =>
          some (s.accessFds t src (fun fds => fds.remove src.fd) fun _ => .disposing src)
      | _ => none
  | .processIo => if s.processIo = .outside then some { s with processIo := .start } else none
  | .advanceProcessIo => s.advanceProcessIo
  | .select revents => if s.processIo = .select then some (s.select revents) else none

/-- The identifiers that `process_io` has to turn into infos, the one in hand included. -/
def dereferences (s : IoDriver S count) : List UInt64 :=
  match s.processIo with
  | .events events => (events.map IoEvent.id).filter (· ≠ wakerIoId)
  | _ => []

end IoDriver

end Kyron.Io
