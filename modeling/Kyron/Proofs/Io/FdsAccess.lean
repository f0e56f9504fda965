import Kyron.Io.FdsAccess
import Kyron.Lib.Count

/-!
# `Kyron.Proofs.Io.FdsAccess`: a change of the descriptors interrupts the poll

A call of `access_fds` that waits for the lock while `select` holds it in `poll` relies on a byte
in the wake pipe. `FdsOk` is the invariant: `num_of_accesses` counts the calls from their first
step to the lowering of the counter, and while `select` is in `poll` and some call waits, the
pipe holds a byte. `select` goes into `poll` only when the counter is zero, so no call waits
then, and every later call writes its byte first.

Only a drain can break it. `access_fds` clears the pipe after it has released the lock and
lowered the counter, so `select` may be in `poll` again and the bytes may be those of another
call. `DrainSpares` is the condition that no drain takes the last byte from a call that waits.

It follows from a condition on the calls (`StartsApart`): no call starts between the `fetch_sub` of
another one and its drain. Then nobody is before the lock while a drain is due and `select` is in
`poll` (`ApartOk`).

* `waiting_access_interrupts_poll`: with either condition the poll is always interrupted.
* `drained_poll_keeps_lock`: without it there is a run that ends with `select` in `poll`, a call
  waiting for the lock and an empty pipe.
-/

set_option autoImplicit false

namespace Kyron.Proofs.Io

open Kyron.Io
open Kyron.Lib
open Function

variable {A : Type}

/-- The call is counted by `num_of_accesses`. -/
def Counted : AccessPc → Prop
  | .wake | .lock | .access => True
  | _ => False

/-- The thread of `select` is in `poll` with the lock, some call waits for the lock, and nothing
is in the pipe to interrupt the `poll`. -/
def Stuck (s : FdsAccess A) : Prop :=
  s.select = .poll ∧ (∃ a, s.calls a = .lock) ∧ s.pipe = 0

/-- The call in place `pc` does not drain the pipe, or nobody is in `poll`, or no call waits, or
the drain leaves a byte. -/
def DrainSparesAt (s : FdsAccess A) : AccessPc → Prop
  | .clear _ => s.select ≠ .poll ∨ (∀ a, s.calls a ≠ .lock) ∨ clearBufferSize < s.pipe
  | _ => True

/-- The condition on a step: a drain does not take the last byte from a call that waits. -/
def DrainSpares (s : FdsAccess A) : FdsAction A → Prop
  | .access a => DrainSparesAt s (s.calls a)
  | _ => True

structure FdsOk (s : FdsAccess A) : Prop where
  capacity : 0 < s.pipeCapacity
  counted : CountIs Counted s.calls s.numOfAccesses
  /-- A call that waits while `select` is in `poll` has a byte in the pipe. -/
  interrupts : s.select = .poll → ∀ a, s.calls a = .lock → s.pipe ≠ 0

theorem fdsOk_new {pipeCapacity : Nat} (h : 0 < pipeCapacity) :
    FdsOk (FdsAccess.new pipeCapacity : FdsAccess A) where
  capacity := h
  counted := CountIs.none fun _ h => h
  interrupts := fun h => nomatch h

/-- The thread of `select` moves to a place that is not `poll`. -/
theorem FdsOk.leavePoll {s : FdsAccess A} (h : FdsOk s) {pc : SelectPc} (hpc : pc ≠ .poll)
    (lock : Option (FdsHolder A)) : FdsOk { s with lock, select := pc } where
  capacity := h.capacity
  counted := h.counted
  interrupts := fun hpoll => absurd hpoll hpc

variable {s s' : FdsAccess A}

theorem wake_pipe_ne_zero (h : 0 < s.pipeCapacity) : s.wake.pipe ≠ 0 := by
  unfold FdsAccess.wake
  dsimp only
  split <;> omega

/-- The steps of `select` up to `poll`, which begins when no call is counted. -/
theorem stepSelect_ok (h : FdsOk s) (hstep : s.stepSelect = some s') : FdsOk s' := by
  unfold FdsAccess.stepSelect at hstep
  split at hstep
  · -- lock
    obtain ⟨-, rfl⟩ := Option.ite_some_none_eq_some.mp hstep
    exact h.leavePoll (by decide) _
  · -- check
    split at hstep
    · cases hstep
      exact h.leavePoll (by decide) _
    · -- The counter is zero, so no call waits when the `poll` begins.
      rename_i hzero
      cases hstep
      refine ⟨h.capacity, h.counted, fun _ a ha => ?_⟩
      have hcounted := h.counted
      rw [not_not.mp hzero] at hcounted
      exact absurd (show Counted (s.calls a) by rw [ha]; trivial) (hcounted.not_of_zero a)
  · cases hstep
  · cases hstep
  · cases hstep

/-- After `poll`, `select` checks the counter again or is done. -/
theorem pollReturns_ok (h : FdsOk s) {result : PollResult}
    (hstep : s.pollReturns result = some s') : FdsOk s' := by
  cases result with
  | interrupted =>
      cases hstep
      exact h.leavePoll (by decide) s.lock
  | timeout =>
      obtain ⟨-, rfl⟩ := Option.ite_some_none_eq_some.mp hstep
      exact h.leavePoll (by decide) none
  | ready others =>
      simp only [FdsAccess.pollReturns] at hstep
      split at hstep
      · cases hstep
      · split at hstep
        · cases hstep
          exact h.leavePoll (by decide) s.lock
        · cases hstep
          exact h.leavePoll (by decide) none

variable [DecidableEq A]

/-- A call moves to a place where it does not wait for the lock. -/
theorem FdsOk.goto (h : FdsOk s) {a : A} {pc : AccessPc} {n : Nat} (lock : Option (FdsHolder A))
    (hpc : pc ≠ .lock) (hcounted : CountIs Counted (Function.update s.calls a pc) n) :
    FdsOk ({ s with lock, numOfAccesses := n }.goto a pc) where
  capacity := h.capacity
  counted := hcounted
  interrupts := by
    intro hpoll b hb
    change Function.update s.calls a pc b = .lock at hb
    by_cases hba : b = a
    · subst hba
      rw [update_self] at hb
      exact absurd hb hpc
    · rw [update_of_ne hba] at hb
      exact h.interrupts hpoll b hb

/-- The steps of an `access_fds` call. A drain has to spare the byte of another call. -/
theorem stepAccess_ok (h : FdsOk s) {a : A} (hguard : DrainSparesAt s (s.calls a))
    (hstep : s.stepAccess a = some s') : FdsOk s' := by
  unfold FdsAccess.stepAccess at hstep
  cases hpc : s.calls a with
  | idle =>
      rw [hpc] at hstep
      cases hstep
      exact h.goto s.lock (nomatch ·) (h.counted.update_enter (by rw [hpc]; exact id) trivial)
  | wake =>
      rw [hpc] at hstep
      cases hstep
      refine ⟨h.capacity, h.counted.update_same (by rw [hpc]; exact Iff.rfl), fun _ _ _ => ?_⟩
      exact wake_pipe_ne_zero h.capacity
  | lock =>
      rw [hpc] at hstep
      obtain ⟨-, rfl⟩ := Option.ite_some_none_eq_some.mp hstep
      exact h.goto _ (nomatch ·) (h.counted.update_same (by rw [hpc]; exact Iff.rfl))
  | access =>
      rw [hpc] at hstep
      cases hstep
      exact h.goto s.lock (nomatch ·) (h.counted.update_leave (by rw [hpc]; trivial) id)
  | unlock prev =>
      rw [hpc] at hstep
      cases hstep
      exact h.goto none (nomatch ·) (h.counted.update_same (by rw [hpc]; exact Iff.rfl))
  | clear prev =>
      rw [hpc] at hstep hguard
      cases hstep
      have hmoved : FdsOk (s.goto a (.notify prev)) :=
        h.goto s.lock (nomatch ·) (h.counted.update_same (by rw [hpc]; exact Iff.rfl))
      refine ⟨hmoved.capacity, hmoved.counted, fun hpoll b hb => ?_⟩
      rcases hguard with hno | hnone | hleft
      · exact absurd hpoll hno
      · -- The call that drains is not one that waits.
        change Function.update s.calls a (.notify prev) b = .lock at hb
        by_cases hba : b = a
        · subst hba
          rw [update_self] at hb
          cases hb
        · rw [update_of_ne hba] at hb
          exact absurd hb (hnone b)
      · show s.pipe - clearBufferSize ≠ 0
        omega
  | notify prev =>
      rw [hpc] at hstep
      have hmoved : FdsOk (s.goto a .idle) :=
        h.goto s.lock (nomatch ·) (h.counted.update_same (by rw [hpc]; exact Iff.rfl))
      dsimp only at hstep
      split at hstep
      · cases hstep
        have hout : SelectPc.lock ≠ .poll := by decide
        exact hmoved.leavePoll hout s.lock
      · cases hstep
        exact hmoved

/-- Every step that meets the condition keeps the invariant. -/
theorem fdsStep_ok {a : FdsAction A} (h : FdsOk s) (hguard : DrainSpares s a)
    (hstep : s.step a = some s') : FdsOk s' := by
  cases a with
  | select | spurious =>
      obtain ⟨-, rfl⟩ := Option.ite_some_none_eq_some.mp hstep
      exact h.leavePoll (by decide) s.lock
  | advance => exact stepSelect_ok h hstep
  | pollReturns result =>
      simp only [FdsAccess.step, Option.ite_none_right_eq_some] at hstep
      exact pollReturns_ok h hstep.2
  | access a => exact stepAccess_ok h hguard hstep

/-! ### Calls that do not start before a drain -/

/-- The call has lowered the counter and not drained the pipe. -/
def Draining : AccessPc → Bool
  | .unlock _ | .clear _ => true
  | _ => false

/-- The call has the lock of the table. -/
def HoldsLock : AccessPc → Bool
  | .access | .unlock _ => true
  | _ => false

/-- The condition on a step: no call starts while another one has a drain due. -/
def StartsApart (s : FdsAccess A) : FdsAction A → Prop
  | .access a => s.calls a = .idle → ∀ b, Draining (s.calls b) = false
  | _ => True

structure ApartOk (s : FdsAccess A) : Prop where
  select : s.select = .check ∨ s.select = .poll → s.lock = some .select
  access : ∀ a, HoldsLock (s.calls a) = true → s.lock = some (.access a)
  /-- Nobody is before the lock while a drain is due and `select` is in `poll`. -/
  apart : s.select = .poll → ∀ a b, Draining (s.calls b) = true → ¬ Counted (s.calls a)

section

omit [DecidableEq A]

theorem apartOk_new (pipeCapacity : Nat) : ApartOk (FdsAccess.new pipeCapacity : FdsAccess A) where
  select := by
    rintro (h | h)
    all_goals cases h
  access := fun _ h => absurd h Bool.false_ne_true
  apart := fun h => nomatch h

/-- The thread of `select` moves, and takes the lock or releases it. -/
theorem ApartOk.moveSelect (h : ApartOk s) {pc : SelectPc} (lock : Option (FdsHolder A))
    (hselect : pc = .check ∨ pc = .poll → lock = some .select)
    (hlock : lock = s.lock ∨ ∀ a, s.lock ≠ some (.access a))
    (hnone : pc = .poll → ∀ a, ¬ Counted (s.calls a)) : ApartOk { s with lock, select := pc } where
  select := hselect
  access := by
    intro a ha
    have hholds := h.access a ha
    rcases hlock with rfl | hno
    · exact hholds
    · exact absurd hholds (hno a)
  apart := fun hpoll a _ _ => hnone hpoll a

/-- A `poll` begins with the lock, and when no call is counted. -/
theorem ApartOk.stepSelect (h : ApartOk s) (hfds : FdsOk s) (hstep : s.stepSelect = some s') :
    ApartOk s' := by
  unfold FdsAccess.stepSelect at hstep
  split at hstep
  · obtain ⟨hfree, rfl⟩ := Option.ite_some_none_eq_some.mp hstep
    exact h.moveSelect _ (fun _ => rfl) (Or.inr fun a => by rw [hfree]; simp) (nomatch ·)
  · rename_i hcheck
    have hheld := h.select (Or.inl hcheck)
    split at hstep
    · cases hstep
      exact h.moveSelect _ (nomatch ·) (Or.inr fun a => by rw [hheld]; simp) (nomatch ·)
    · -- The counter is zero, so nobody is before the lock when the `poll` begins.
      rename_i hzero
      cases hstep
      refine h.moveSelect _ (fun _ => hheld) (Or.inl rfl) fun _ a => ?_
      have hcounted := hfds.counted
      rw [not_not.mp hzero] at hcounted
      exact hcounted.not_of_zero a
  all_goals cases hstep

/-- `poll` returns with the lock, so no call has it. -/
theorem ApartOk.pollReturns (h : ApartOk s) (hpoll : s.select = .poll) {result : PollResult}
    (hstep : s.pollReturns result = some s') : ApartOk s' := by
  have hheld := h.select (Or.inr hpoll)
  have hback : ApartOk { s with select := .check } :=
    h.moveSelect s.lock (fun _ => hheld) (Or.inl rfl) (nomatch ·)
  have hout : ApartOk { s with lock := none, select := .outside } :=
    h.moveSelect _ (nomatch ·) (Or.inr fun a => by rw [hheld]; simp) (nomatch ·)
  cases result with
  | interrupted =>
      cases hstep
      exact hback
  | timeout =>
      obtain ⟨-, rfl⟩ := Option.ite_some_none_eq_some.mp hstep
      exact hout
  | ready others =>
      simp only [FdsAccess.pollReturns] at hstep
      repeat' split at hstep
      all_goals cases hstep
      · exact hback
      · exact hout

/-- No drain takes a byte from a call that waits. -/
theorem ApartOk.drainSpares (h : ApartOk s) (a : FdsAction A) : DrainSpares s a := by
  cases a with
  | access a =>
      change DrainSparesAt s (s.calls a)
      unfold DrainSparesAt
      split
      next prev hpc =>
        by_cases hpoll : s.select = .poll
        · refine Or.inr (Or.inl fun b hb => ?_)
          refine h.apart hpoll b a (by rw [hpc]; rfl) ?_
          rw [hb]
          trivial
        · exact Or.inl hpoll
      next => trivial
  | _ => trivial

end

/-- A call moves, and takes the lock or releases it. -/
theorem ApartOk.moveCall (h : ApartOk s) {a : A} {pc : AccessPc} {lock : Option (FdsHolder A)}
    (n pipe : Nat)
    (hlock : lock = s.lock ∨ s.lock = none ∨ s.lock = some (.access a))
    (hholds : HoldsLock pc = true → lock = some (.access a))
    (hdrain : s.select = .poll → Draining pc = true → Draining (s.calls a) = true)
    (hcounted : Counted pc → Counted (s.calls a) ∨ ∀ b, Draining (s.calls b) = false) :
    ApartOk ({ s with lock, numOfAccesses := n, pipe }.goto a pc) where
  select := by
    have hbefore := h.select
    grind [FdsAccess.goto]
  access := by
    intro b
    have hbefore := h.access b
    simp only [FdsAccess.goto, update_apply]
    grind
  apart := by
    -- A drain that is due was due before, so a call that counts now has just started.
    intro hpoll c b
    have hbefore := h.apart hpoll c b
    simp only [FdsAccess.goto, update_apply] at hpoll ⊢
    grind

/-- The guard stops a call that would start before another one has drained. -/
theorem ApartOk.stepAccess (h : ApartOk s) {a : A} (hguard : StartsApart s (.access a))
    (hstep : s.stepAccess a = some s') : ApartOk s' := by
  have hholds := h.access a
  unfold FdsAccess.stepAccess at hstep
  cases hpc : s.calls a with
  | idle =>
      rw [hpc] at hstep
      cases hstep
      exact h.moveCall _ s.pipe (Or.inl rfl) (nomatch ·) (fun _ => (nomatch ·))
        fun _ => Or.inr (hguard hpc)
  | wake =>
      rw [hpc] at hstep
      cases hstep
      exact h.moveCall s.numOfAccesses _ (Or.inl rfl) (nomatch ·) (fun _ => (nomatch ·))
        fun _ => Or.inl (by rw [hpc]; trivial)
  | lock =>
      rw [hpc] at hstep
      obtain ⟨hfree, rfl⟩ := Option.ite_some_none_eq_some.mp hstep
      exact h.moveCall s.numOfAccesses s.pipe (Or.inr (Or.inl hfree)) (fun _ => rfl)
        (fun _ => (nomatch ·)) fun _ => Or.inl (by rw [hpc]; trivial)
  | access =>
      rw [hpc] at hstep hholds
      cases hstep
      refine h.moveCall _ s.pipe (Or.inl rfl) (fun _ => hholds rfl) (fun hpoll => ?_) (nomatch ·)
      -- `select` has the lock in `poll`, so the counter is not lowered then.
      rw [h.select (Or.inr hpoll)] at hholds
      cases hholds rfl
  | unlock prev =>
      rw [hpc] at hstep hholds
      cases hstep
      exact h.moveCall s.numOfAccesses s.pipe (Or.inr (Or.inr (hholds rfl))) (nomatch ·)
        (fun _ _ => by rw [hpc]; rfl) (nomatch ·)
  | clear prev =>
      rw [hpc] at hstep
      cases hstep
      exact h.moveCall s.numOfAccesses _ (Or.inl rfl) (nomatch ·) (fun _ => (nomatch ·)) (nomatch ·)
  | notify prev =>
      rw [hpc] at hstep
      have hmoved : ApartOk (s.goto a .idle) :=
        h.moveCall s.numOfAccesses s.pipe (Or.inl rfl) (nomatch ·) (fun _ => (nomatch ·))
          (nomatch ·)
      dsimp only at hstep
      split at hstep
      · cases hstep
        exact hmoved.moveSelect s.lock (nomatch ·) (Or.inl rfl) (nomatch ·)
      · cases hstep
        exact hmoved

/-- Every guarded step keeps `ApartOk`. -/
theorem apartStep_ok {a : FdsAction A} (h : ApartOk s) (hfds : FdsOk s) (hguard : StartsApart s a)
    (hstep : s.step a = some s') : ApartOk s' := by
  cases a with
  | select | spurious =>
      obtain ⟨-, rfl⟩ := Option.ite_some_none_eq_some.mp hstep
      exact h.moveSelect s.lock (nomatch ·) (Or.inl rfl) (nomatch ·)
  | advance => exact h.stepSelect hfds hstep
  | pollReturns result =>
      simp only [FdsAccess.step, Option.ite_none_right_eq_some] at hstep
      exact h.pollReturns hstep.1 hstep.2
  | access a => exact h.stepAccess hguard hstep

/-! ### Every run -/

/-- In every run in which no drain takes the last byte from a call that waits, and so in every run
in which no call starts while another one has a drain due, `select` is never in `poll` with the lock
while a call waits for the lock and the pipe is empty. -/
theorem waiting_access_interrupts_poll {pipeCapacity : Nat} (hpipe : 0 < pipeCapacity)
    {s : FdsAccess A} (hrun : Reaches FdsAccess.step DrainSpares (.new pipeCapacity) s ∨
      Reaches FdsAccess.step StartsApart (.new pipeCapacity) s) : ¬ Stuck s := by
  rintro ⟨hpoll, ⟨a, ha⟩, hempty⟩
  suffices hok : FdsOk s from hok.interrupts hpoll a ha hempty
  rcases hrun with hrun | hrun
  · exact hrun.invariant (fdsOk_new hpipe) fun _ _ _ hok hguard hstep =>
      fdsStep_ok hok hguard hstep
  · refine (hrun.invariant (I := fun s => FdsOk s ∧ ApartOk s)
      ⟨fdsOk_new hpipe, apartOk_new pipeCapacity⟩ ?_).1
    rintro s a s' ⟨hfds, hapart⟩ hguard hstep
    exact ⟨fdsStep_ok hfds (hapart.drainSpares a) hstep, apartStep_ok hapart hfds hguard hstep⟩

instance (s : FdsAccess (Fin 2)) (pc : AccessPc) : Decidable (DrainSparesAt s pc) := by
  cases pc with
  | clear prev => exact inferInstanceAs (Decidable (_ ∨ _ ∨ _))
  | _ => exact .isTrue trivial

instance decidableDrainSpares (s : FdsAccess (Fin 2)) :
    (a : FdsAction (Fin 2)) → Decidable (DrainSpares s a)
  | .access a => inferInstanceAs (Decidable (DrainSparesAt s (s.calls a)))
  | .select | .advance | .spurious | .pollReturns _ => .isTrue trivial

instance (s : FdsAccess (Fin 2)) : Decidable (Stuck s) := inferInstanceAs (Decidable (_ ∧ _ ∧ _))

/-- `select` goes into `poll`. -/
def intoPoll : List (FdsAction (Fin 2)) := [.select, .advance, .advance]

/-- A call waits for the lock that `select` holds in `poll`, with its byte in the pipe. -/
theorem waiting_access_has_byte :
    ∃ s : FdsAccess (Fin 2), Reaches FdsAccess.step DrainSpares (.new 65536) s ∧
      s.select = .poll ∧ s.calls 0 = .lock ∧ ¬ Stuck s := by
  have hexists : ∃ s : FdsAccess (Fin 2), Reaches FdsAccess.step DrainSpares (.new 65536) s ∧
      s.select = .poll ∧ s.calls 0 = .lock :=
    exists_reaches (intoPoll ++ [FdsAction.access 0, .access 0]) (by decide)
  obtain ⟨s, hrun, hpoll, hcall⟩ := hexists
  exact ⟨s, hrun, hpoll, hcall, waiting_access_interrupts_poll (by decide) (Or.inl hrun)⟩

/-- The first call has changed the table and released the lock, but has not yet drained the
pipe. `select` finds the counter at zero and goes into `poll`. The second call writes its byte
and waits for the lock, and the drain of the first one takes both bytes. -/
theorem drained_poll_keeps_lock :
    ∃ s : FdsAccess (Fin 2), Reaches FdsAccess.step anyStep (.new 65536) s ∧ Stuck s :=
  exists_reaches (List.replicate 5 (FdsAction.access 0) ++ intoPoll
    ++ [FdsAction.access 1, .access 1, .access 0]) (by decide)

end Kyron.Proofs.Io
