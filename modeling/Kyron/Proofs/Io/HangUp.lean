import Kyron.Proofs.Io.Readiness

/-!
# `Kyron.Proofs.Io.HangUp`: who is woken when a file descriptor is disabled

After a hang-up or an error `select` negates the file descriptor, so this event is the last one
that it reports for it. The interest of the event is computed from `POLLIN`, `POLLPRI` and
`POLLOUT` alone. `wake` adds the states that are already set in the readiness word, and wakes the
waiters of these directions.

* `disabled_fd_wakes_all_iff`: the event wakes every waiter exactly if each of them waits for a
  direction that the flags report or that was ready before.
* `hang_up_strands_reader`: a reader waits, and `poll` reports `POLLHUP` alone.
-/

set_option autoImplicit false

namespace Kyron.Proofs.Io

open Kyron.Io
open Kyron.Io.ReadinessState
open Kyron.Io.RegistrationInfo

variable {W : Type}

/-! ### What `wake_all` wakes -/

/-- The waiter is woken for the readiness. -/
def wokenFor (readiness : ReadinessState) (elem : WakerElem W) : Bool :=
  (readiness.intersection (.ofInterest elem.interest)).isSome

/-- The wakers that are woken or kept are those of the waiters of the readiness, each once. -/
theorem wakeWaiters_perm (readiness : ReadinessState) (waiters : List (WakerElem W))
    (kept : List W) :
    ((wakeWaiters readiness waiters kept).1 ++ (wakeWaiters readiness waiters kept).2.1).Perm
      (kept ++ (waiters.filter (wokenFor readiness)).map WakerElem.waker) := by
  induction waiters generalizing kept with
  | nil => simp [wakeWaiters]
  | cons elem waiters ih =>
      unfold wakeWaiters
      split
      · rename_i hsome
        have hwoken : wokenFor readiness elem = true := by simp [wokenFor, hsome]
        rw [List.filter_cons_of_pos hwoken, List.map_cons]
        split
        · simpa using ih (kept ++ [elem.waker])
        · exact (List.Perm.cons _ (ih kept)).trans List.perm_middle.symm
      · rename_i hnone
        have hwoken : ¬ wokenFor readiness elem = true := by simp [wokenFor, hnone]
        rw [List.filter_cons_of_neg hwoken]
        exact ih kept

/-- The waiters that stay in the list are the others. -/
theorem wakeWaiters_left (readiness : ReadinessState) (waiters : List (WakerElem W))
    (kept : List W) :
    (wakeWaiters readiness waiters kept).2.2 = waiters.filter fun elem =>
      !wokenFor readiness elem := by
  induction waiters generalizing kept with
  | nil => rfl
  | cons elem waiters ih =>
      unfold wakeWaiters
      split
      · rename_i hsome
        rw [List.filter_cons_of_neg (by simp [wokenFor, hsome])]
        split
        · exact ih (kept ++ [elem.waker])
        · exact ih kept
      · rename_i hnone
        rw [List.filter_cons_of_pos (by simp [wokenFor, hnone])]
        exact congrArg _ (ih kept)

/-- All wakers of a registration, one for each waiter. -/
def allWakers (wakers : WakersCollection W) : List W :=
  wakers.read.toList ++ wakers.write.toList ++ wakers.waiters.map WakerElem.waker

theorem length_ite_toList (b : Bool) (o : Option W) :
    (if b then o.toList else []).length ≤ o.toList.length ∧
      ((if b then o.toList else []).length = o.toList.length ↔ (o.isSome = true → b = true)) := by
  cases b <;> cases o <;> simp

/-- `wake_all` wakes every waiter exactly if the readiness has a direction of each. -/
theorem wakeAll_perm_iff (wakers : WakersCollection W) (readiness : ReadinessState) :
    (wakeAll wakers readiness).1.Perm (allWakers wakers) ↔
      (wakers.read.isSome = true → readiness.isReadable = true) ∧
      (wakers.write.isSome = true → readiness.isWritable = true) ∧
      ∀ elem ∈ wakers.waiters, wokenFor readiness elem = true := by
  have hperm := wakeWaiters_perm readiness wakers.waiters
    ((if readiness.isReadable then wakers.read.toList else []) ++
      if readiness.isWritable then wakers.write.toList else [])
  have hread := length_ite_toList readiness.isReadable wakers.read
  have hwrite := length_ite_toList readiness.isWritable wakers.write
  have hwaiters := List.length_filter_le (wokenFor readiness) wakers.waiters
  constructor
  · intro hall
    have hlength := (hperm.symm.trans hall).length_eq
    simp only [allWakers, List.length_append, List.length_map] at hlength
    refine ⟨hread.2.mp (by omega), hwrite.2.mp (by omega), ?_⟩
    exact List.length_filter_eq_length_iff.mp (by omega)
  · rintro ⟨hr, hw, hall⟩
    refine hperm.trans ?_
    have hr : (if readiness.isReadable then wakers.read.toList else []) = wakers.read.toList := by
      cases hsome : wakers.read with
      | none => simp
      | some w => simp [hr (by rw [hsome]; rfl)]
    have hw : (if readiness.isWritable then wakers.write.toList else []) = wakers.write.toList := by
      cases hsome : wakers.write with
      | none => simp
      | some w => simp [hw (by rw [hsome]; rfl)]
    rw [hr, hw, List.filter_eq_self.mpr hall]
    exact List.Perm.refl _

/-! ### What the flags cover -/

/-- The flags that are reported for a direction. -/
def flagsOf : Direction → UInt16
  | .readable => pollIn ||| pollPri
  | .writable => pollOut

/-- A direction is reported when one of its flags is set. -/
theorem has_interestFromPollEvents (events : UInt16) (d : Direction) :
    (interestFromPollEvents events).has d = true ↔ events &&& flagsOf d ≠ 0 := by
  unfold interestFromPollEvents
  split <;> rename_i hin <;> dsimp only <;> split <;> rename_i hout <;> cases d
  · exact iff_of_true (by decide) hin
  · exact iff_of_true (by decide) hout
  · exact iff_of_true (by decide) hin
  · exact iff_of_false (by decide) hout
  · exact iff_of_false (by decide) hin
  · exact iff_of_true (by decide) hout
  · exact iff_of_false (by decide) hin
  · exact iff_of_false (by decide) hout

/-- The direction is reported by the flags, or was ready before. -/
def Covers (revents : UInt16) (readiness : ReadinessState) (d : Direction) : Prop :=
  revents &&& flagsOf d ≠ 0 ∨ readiness.has d = true

/-- Each waiter waits for a direction that is covered. -/
structure WaitersCovered (revents : UInt16) (info : RegistrationInfo W) : Prop where
  read : info.wakers.read.isSome = true → Covers revents info.readiness .readable
  write : info.wakers.write.isSome = true → Covers revents info.readiness .writable
  waiters : ∀ elem ∈ info.wakers.waiters,
    ∃ d, elem.interest.has d = true ∧ Covers revents info.readiness d

/-- The readiness with which `wake_all` is called for an event of `select`. -/
theorem has_markState_report (readiness : ReadinessState) (id : UInt64) (revents : UInt16)
    (d : Direction) :
    (readiness.markState (fromMioEvent ⟨id, interestFromPollEvents revents⟩)).has d = true ↔
      Covers revents readiness d := by
  rw [has_markState, fromMioEvent_eq, has_ofInterest, Bool.or_eq_true,
    has_interestFromPollEvents, Or.comm]
  rfl

/-- An event wakes every waiter of its registration exactly if each is covered. -/
theorem wake_perm_iff (info : RegistrationInfo W) (id : UInt64) (revents : UInt16) :
    (info.wake (fromMioEvent ⟨id, interestFromPollEvents revents⟩)).1.Perm
      (allWakers info.wakers) ↔ WaitersCovered revents info := by
  have hcovers := has_markState_report info.readiness id revents
  refine (wakeAll_perm_iff info.wakers _).trans ?_
  simp only [wokenFor, intersection_isSome, hcovers]
  constructor
  · rintro ⟨hread, hwrite, hwaiters⟩
    exact
      { read := fun hsome => (hcovers .readable).mp (hread hsome)
        write := fun hsome => (hcovers .writable).mp (hwrite hsome)
        waiters := fun elem helem =>
          (hwaiters elem helem).imp fun _ hd => ⟨hd.2, hd.1⟩ }
  · intro h
    exact ⟨fun hsome => (hcovers .readable).mpr (h.read hsome),
      fun hsome => (hcovers .writable).mpr (h.write hsome),
      fun elem helem => (h.waiters elem helem).imp fun _ hd => ⟨hd.2, hd.1⟩⟩

/-! ### Disabled file descriptors -/

/-- After a hang-up or an error `select` negates the file descriptor and emits one more event. When
`process_io` has handled it, every waiter of the registration has been woken exactly if each
of them waits for a direction that the flags report or that was ready before. -/
theorem disabled_fd_wakes_all_iff (info : FdInfo) (pollfd : PollFd)
    (infos : UInt64 → RegistrationInfo W) (hwaker : info.isWaker = false)
    (hid : info.id ≠ wakerIoId) (hdisabled : pollfd.revents &&& (pollHup ||| pollErr) ≠ 0) :
    (reportFd info pollfd).2.fd = ~~~pollfd.fd ∧
      ∃ event, (reportFd info pollfd).1 = some event ∧
        ((processEvents [event] infos).1.Perm (allWakers (infos info.id).wakers) ↔
          WaitersCovered pollfd.revents (infos info.id)) := by
  have hrevents : pollfd.revents ≠ 0 := by
    rintro hzero
    simp [hzero] at hdisabled
  refine ⟨by simp [reportFd, hrevents, hdisabled, hwaker],
    ⟨info.id, interestFromPollEvents pollfd.revents⟩, by simp [reportFd, hrevents, hwaker], ?_⟩
  rw [← wake_perm_iff (infos info.id) info.id pollfd.revents]
  simp [processEvents, hid]

/-- `POLLIN` with `POLLHUP` wakes a reader. -/
theorem disabled_fd_wakes_reader :
    (processEvents [⟨1, interestFromPollEvents (pollIn ||| pollHup)⟩]
      fun _ => (⟨⟨0⟩, ⟨some (), none, []⟩⟩ : RegistrationInfo Unit)).1.Perm [()] := by
  obtain ⟨-, event, hevent, hiff⟩ := disabled_fd_wakes_all_iff (W := Unit) ⟨1, false⟩
    ⟨5, pollIn ||| pollPri, pollIn ||| pollHup⟩ (fun _ => ⟨⟨0⟩, ⟨some (), none, []⟩⟩) rfl
    (by decide) (by decide)
  have hevent : event = ⟨1, interestFromPollEvents (pollIn ||| pollHup)⟩ := by
    simpa [reportFd, pollIn, pollHup] using hevent.symm
  subst hevent
  exact hiff.mpr
    { read := fun _ => Or.inl (by decide)
      write := fun hsome => nomatch hsome
      waiters := fun _ helem => nomatch helem }

/-- A task waits to read from a file descriptor that is armed for `POLLIN`. The other side hangs
up, and `poll` reports `POLLHUP` alone. `select` negates the file descriptor and emits an event
without an interest. `process_io` handles it, wakes nobody, and the task stays in its slot. -/
theorem hang_up_strands_reader :
    ∃ (pollfd : PollFd) (info : RegistrationInfo Unit),
      pollfd.revents &&& (pollHup ||| pollErr) ≠ 0 ∧
      pollfd.events &&& pollIn ≠ 0 ∧ info.wakers.read = some () ∧
      (reportFd ⟨1, false⟩ pollfd).2.fd < 0 ∧
      ∃ event, (reportFd ⟨1, false⟩ pollfd).1 = some event ∧
        (processEvents [event] fun _ => info).1 = [] ∧
        ((processEvents [event] fun _ => info).2 1).wakers.read = some () :=
  ⟨⟨5, pollIn ||| pollPri, pollHup⟩, ⟨⟨0⟩, ⟨some (), none, []⟩⟩, by decide, by decide, rfl,
    by decide, ⟨1, ⟨0⟩⟩, by decide, by decide, by decide⟩

end Kyron.Proofs.Io
