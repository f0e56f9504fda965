import Kyron.Scheduler.Interactor

/-!
# `Kyron.Proofs.Scheduler.Interactor`: a stop request stays in the state word

After `request_stop` has swapped `SHUTTINGDOWN` into the state word, two other calls may take it
out for a while: `unpark` swaps `NOTIFIED` in and puts `SHUTTINGDOWN` back, and so does
`move_to_executing`. `InteractorOk` is the invariant.

* `kept`: once the stop is in, the word is `SHUTTINGDOWN` or somebody is about to put it back.
* `cvOwed`, `ioOwed`: a worker that waits and was not woken has its sleeping state still in the
  word, or somebody who took it out is about to wake it.
* `workerMtx`, `stopMtx`, `unparkMtx`: who holds the mutex. It is what keeps a notification from
  falling between the check of the worker and its wait.

Two late stores break it, and `StoreInTime` excludes them. `park_pre_stage` reads `NOTIFIED` and
stores `EXECUTING` in a second step: an `unpark` that puts `SHUTTINGDOWN` back in between is
overwritten. And `unpark` itself may put it back over a sleeping state: the worker has left with
the `NOTIFIED`, went round its loop and sleeps again, and nobody wakes it.

* `stop_request_kept`: otherwise the stop is never lost.
* `stop_overwritten`: a run with the first late store.
-/

set_option autoImplicit false

namespace Kyron.Proofs.Scheduler

open Kyron.Lib
open Kyron.Scheduler

variable {U : Type}

/-! ### The property and its condition -/

/-- Inside `park_pre_stage` or `move_to_executing`. -/
def InTransition : RunPc → Prop
  | .preStage _ | .rearm | .move _ | .putBack _ => True
  | _ => False

/-- Waiting on the condition variable or the IO driver without a wake-up issued. -/
def Blocked (s : Interactor U) : Prop :=
  match s.worker with
  | .cvWait _ => s.cvWoken = false
  | .ioWait => s.ioPipe = 0
  | _ => False

/-- A stop request that has returned is in the state word when no `unpark` is in progress and the
worker is not between two states, and the worker does not wait without a wake-up. -/
def StopKept (s : Interactor U) : Prop :=
  s.stop = .done → (∀ u, s.unparks u = .idle) → ¬ InTransition s.worker →
    s.word = .shuttingDown ∧ ¬ Blocked s

/-- The condition on a step: `park_pre_stage` does not store `EXECUTING` over a stop request, and
`unpark` does not put one back over a sleeping state. -/
def StoreInTime (s : Interactor U) : InteractorAction U → Prop
  | .advance => s.worker = .rearm → s.word ≠ .shuttingDown
  | .unpark u => s.unparks u = .putBack → s.word ≠ .sleepingCv ∧ s.word ≠ .sleepingIo
  | _ => True

/-! ### The invariant -/

/-- The places of the worker where it holds its mutex. -/
def HoldsMtx : RunPc → Prop
  | .preStage _ | .rearm | .unlock | .cvCheck _ | .cvSleep _ | .ioUnlock | .move true
  | .putBack true => True
  | _ => False

def StopHoldsMtx : StopPc → Prop
  | .swap | .notify _ | .unlock => True
  | _ => False

/-- `request_stop` has made its swap. -/
def Requested : StopPc → Prop
  | .notify _ | .unlock | .done => True
  | _ => False

/-- The worker is about to put the stop request back. -/
def PutsBack : RunPc → Prop
  | .putBack _ => True
  | _ => False

/-- The words that the worker can find in its own word in the place. -/
def WordOk : RunPc → WorkerWord → Prop
  | .cvCheck _, word | .cvSleep _, word | .cvWait _, word | .cvLock _, word =>
      word = .sleepingCv ∨ word = .notified ∨ word = .shuttingDown
  | _, _ => True

/-- A worker that sleeps on its condition variable can find the words that others swap in. -/
theorem wordOk_of_request {pc : RunPc} {word : WorkerWord}
    (hword : word = .notified ∨ word = .shuttingDown) : WordOk pc word := by
  cases pc with
  | cvCheck | cvSleep | cvWait | cvLock => exact Or.inr hword
  | _ => trivial

/-- A call of `unpark` that is about to notify the condition variable. -/
def NotifiesCv (pc : UnparkPc) : Prop :=
  pc = .lock ∨ pc = .sync ∨ pc = .notify

/-- Some call of `unpark` is about to notify the condition variable. -/
def CvPending (s : Interactor U) : Prop :=
  ∃ u, NotifiesCv (s.unparks u)

structure InteractorOk (s : Interactor U) : Prop where
  workerMtx : HoldsMtx s.worker → s.mtx = some .worker
  stopMtx : StopHoldsMtx s.stop → s.mtx = some .stop
  unparkMtx : ∀ u, s.unparks u = .sync → s.mtx = some (.unpark u)
  word : WordOk s.worker s.word
  kept : Requested s.stop →
    s.word = .shuttingDown ∨ (∃ u, s.unparks u = .putBack) ∨ PutsBack s.worker
  /-- A worker on its way into the wait has been seen asleep by nobody, or by a call that still
  needs the mutex. -/
  cvGoes : ∀ timed, s.worker = .cvSleep timed →
    s.word = .sleepingCv ∨ ∃ u, s.unparks u = .lock
  cvOwed : ∀ timed, s.worker = .cvWait timed → s.cvWoken = false →
    s.word = .sleepingCv ∨ CvPending s ∨ s.stop = .notify .sleepingCv
  ioOwed : s.worker = .ioUnlock ∨ s.worker = .ioWait → s.ioPipe = 0 →
    s.word = .sleepingIo ∨ (∃ u, s.unparks u = .ioUnpark) ∨ s.stop = .notify .sleepingIo

theorem interactorOk_new : InteractorOk (Interactor.new : Interactor U) where
  workerMtx := fun h => h.elim
  stopMtx := fun h => h.elim
  unparkMtx := fun _ h => nomatch h
  word := trivial
  kept := fun h => h.elim
  cvGoes := fun _ h => nomatch h
  cvOwed := fun _ h => nomatch h
  ioOwed := fun h => by rcases h with h | h <;> cases h

/-- In a state that satisfies the invariant the stop request is kept. -/
theorem InteractorOk.stopKept {s : Interactor U} (h : InteractorOk s) : StopKept s := by
  intro hdone hidle hout
  have hword : s.word = .shuttingDown := by
    rcases h.kept (by rw [hdone]; trivial) with hword | ⟨u, hu⟩ | hputs
    · exact hword
    · rw [hidle u] at hu
      cases hu
    · refine absurd ?_ hout
      cases hpc : s.worker with
      | putBack locked => trivial
      | _ =>
          rw [hpc] at hputs
          exact hputs.elim
  refine ⟨hword, fun hblocked => ?_⟩
  unfold Blocked at hblocked
  split at hblocked
  · rename_i timed hpc
    rcases h.cvOwed timed hpc hblocked with hsleeps | ⟨u, hu⟩ | hstop
    · rw [hword] at hsleeps
      cases hsleeps
    · rw [hidle u] at hu
      rcases hu with hu | hu | hu <;> cases hu
    · rw [hdone] at hstop
      cases hstop
  · rename_i hpc
    rcases h.ioOwed (Or.inr hpc) hblocked with hsleeps | ⟨u, hu⟩ | hstop
    · rw [hword] at hsleeps
      cases hsleeps
    · rw [hidle u] at hu
      cases hu
    · rw [hdone] at hstop
      cases hstop
  · exact hblocked

/-- Who touches the mutex only when that is free or its own leaves it to any other holder. -/
theorem mtx_kept {mtx mtx' : Option (MtxHolder U)} {self holder : MtxHolder U}
    (hmtx : mtx' = mtx ∨ mtx = none ∨ mtx = some self) (hne : holder ≠ self)
    (hown : mtx = some holder) : mtx' = some holder := by
  rcases hmtx with hsame | hfree | hmine
  · exact hsame.trans hown
  · rw [hfree] at hown
    cases hown
  · rw [hmine] at hown
    cases hown
    exact absurd rfl hne

/-! ### The steps of the worker -/

section Worker

variable {s s' : Interactor U} {pc : RunPc} {word : WorkerWord} {mtx : Option (MtxHolder U)}
  {woken : Bool} {pipe : Nat}

/-- The worker moves. It touches the mutex only when that is free or its own. -/
theorem InteractorOk.setWorker (h : InteractorOk s)
    (hmtx : mtx = s.mtx ∨ s.mtx = none ∨ s.mtx = some .worker)
    (hholds : HoldsMtx pc → mtx = some .worker) (hword : WordOk pc word)
    (hkept : s.word = .shuttingDown ∨ PutsBack s.worker → word = .shuttingDown ∨ PutsBack pc)
    (hgoes : ∀ timed, pc = .cvSleep timed → word = .sleepingCv ∨ ∃ u, s.unparks u = .lock)
    (hcv : ∀ timed, pc = .cvWait timed → woken = false →
      word = .sleepingCv ∨ CvPending s ∨ s.stop = .notify .sleepingCv)
    (hio : pc = .ioUnlock ∨ pc = .ioWait → pipe = 0 →
      word = .sleepingIo ∨ (∃ u, s.unparks u = .ioUnpark) ∨ s.stop = .notify .sleepingIo) :
    InteractorOk { s with word, mtx, cvWoken := woken, ioPipe := pipe, worker := pc } where
  workerMtx := hholds
  stopMtx := fun hstop => mtx_kept hmtx (by simp) (h.stopMtx hstop)
  unparkMtx := fun u hu => mtx_kept hmtx (by simp) (h.unparkMtx u hu)
  word := hword
  kept := by
    intro hstop
    rcases h.kept hstop with hdown | hu | hputs
    · exact (hkept (Or.inl hdown)).imp_right Or.inr
    · exact Or.inr (Or.inl hu)
    · exact (hkept (Or.inr hputs)).imp_right Or.inr
  cvGoes := hgoes
  cvOwed := hcv
  ioOwed := hio

/-- The places where the word and the wakers do not matter to the worker. -/
def Plain : RunPc → Prop
  | .cvCheck _ | .cvSleep _ | .cvWait _ | .cvLock _ | .ioUnlock | .ioWait => False
  | _ => True

/-- The worker moves to a plain place. -/
theorem InteractorOk.setPlain (h : InteractorOk s) (hplain : Plain pc)
    (hmtx : mtx = s.mtx ∨ s.mtx = none ∨ s.mtx = some .worker)
    (hholds : HoldsMtx pc → mtx = some .worker)
    (hkept : s.word = .shuttingDown ∨ PutsBack s.worker → word = .shuttingDown ∨ PutsBack pc) :
    InteractorOk { s with word, mtx, cvWoken := woken, ioPipe := pipe, worker := pc } := by
  refine h.setWorker hmtx hholds ?_ hkept ?_ ?_ ?_
  · cases pc <;> trivial
  · rintro timed rfl
    exact hplain.elim
  · rintro timed rfl
    exact hplain.elim
  · rintro (rfl | rfl) <;> exact hplain.elim

/-- The worker moves to a plain place and leaves the word alone. -/
theorem InteractorOk.gotoPlain (h : InteractorOk s) (hplain : Plain pc)
    (hputs : ¬ PutsBack s.worker) (hmtx : mtx = s.mtx ∨ s.mtx = none ∨ s.mtx = some .worker)
    (hholds : HoldsMtx pc → mtx = some .worker) :
    InteractorOk { s with mtx, cvWoken := woken, ioPipe := pipe, worker := pc } :=
  h.setPlain hplain hmtx hholds fun hstop => Or.inl (hstop.resolve_right hputs)

/-- The worker takes its mutex. -/
theorem lockWorker_ok (h : InteractorOk s) (hstep : s.lockWorker pc = some s')
    (hputs : ¬ PutsBack s.worker) (hword : WordOk pc s.word)
    (hpc : (∀ timed, pc ≠ .cvSleep timed ∧ pc ≠ .cvWait timed) ∧ pc ≠ .ioUnlock ∧ pc ≠ .ioWait) :
    InteractorOk s' := by
  obtain ⟨hfree, rfl⟩ := Option.ite_some_none_eq_some.mp hstep
  refine h.setWorker (Or.inr (Or.inl hfree)) (fun _ => rfl) hword
    (fun hstop => Or.inl (hstop.resolve_right hputs)) (fun timed heq => absurd heq (hpc.1 timed).1)
    (fun timed heq => absurd heq (hpc.1 timed).2) ?_
  rintro (heq | heq)
  · exact absurd heq hpc.2.1
  · exact absurd heq hpc.2.2

/-- The exchange that goes to sleep, or finds why not to. -/
theorem parkPreStage_ok (h : InteractorOk s) {mode : ParkMode}
    (hpc : s.worker = .preStage mode) : InteractorOk (s.parkPreStage mode) := by
  have hmtx : s.mtx = some .worker := h.workerMtx (by rw [hpc]; trivial)
  have hputs : ¬ PutsBack s.worker := by rw [hpc]; exact id
  unfold Interactor.parkPreStage
  split
  · -- The exchange succeeds.
    rename_i hword
    have hkept : ∀ {P : Prop}, s.word = .shuttingDown ∨ PutsBack s.worker → P := by
      rintro P (hdown | hback)
      · rw [hword] at hdown
        cases hdown
      · exact absurd hback hputs
    cases mode with
    | cv | cvTimeout =>
        exact h.setWorker (Or.inl rfl) (fun _ => hmtx) (Or.inl rfl) hkept
          (fun _ heq => nomatch heq) (fun _ heq => nomatch heq)
          (fun heq => by rcases heq with heq | heq <;> cases heq)
    | io =>
        exact h.setWorker (Or.inl rfl) (fun _ => hmtx) trivial hkept
          (fun _ heq => nomatch heq) (fun _ heq => nomatch heq) (fun _ _ => Or.inl rfl)
  · exact h.gotoPlain trivial hputs (Or.inl rfl) fun _ => hmtx
  · exact h.gotoPlain trivial hputs (Or.inl rfl) fun _ => hmtx
  · exact h.gotoPlain trivial hputs (Or.inl rfl) fun hholds => hholds.elim
  · exact h.gotoPlain trivial hputs (Or.inl rfl) fun hholds => hholds.elim

theorem parkConditionCheckAndTransition_ok (h : InteractorOk s) {timed : Bool}
    (hpc : s.worker = .cvCheck timed) :
    InteractorOk (s.parkConditionCheckAndTransition timed) := by
  have hmtx : s.mtx = some .worker := h.workerMtx (by rw [hpc]; trivial)
  have hputs : ¬ PutsBack s.worker := by rw [hpc]; exact id
  have hok := h.word
  rw [hpc] at hok
  have hsleeps : s.word ≠ .notified → s.word ≠ .shuttingDown → s.word = .sleepingCv := by
    intro hnotified hdown
    exact hok.resolve_right fun hword => hword.elim hnotified hdown
  unfold Interactor.parkConditionCheckAndTransition
  split
  · rename_i hword
    refine h.setPlain trivial (Or.inl rfl) (fun _ => hmtx) ?_
    rintro (hdown | hback)
    · rw [hword] at hdown
      cases hdown
    · exact absurd hback hputs
  · exact h.gotoPlain trivial hputs (Or.inl rfl) fun _ => hmtx
  all_goals
    -- Still asleep: the worker is going to wait.
    rename_i hword
    have hcv := hsleeps (by rw [hword]; decide) (by rw [hword]; decide)
    exact h.setWorker (Or.inl rfl) (fun _ => hmtx) (Or.inl hcv)
      (fun hstop => Or.inl (hstop.resolve_right hputs)) (fun _ _ => Or.inl hcv)
      (fun _ heq => nomatch heq) (fun heq => by rcases heq with heq | heq <;> cases heq)

/-- The worker leaves its sleep and takes the notification. -/
theorem moveToExecuting_ok (h : InteractorOk s) {locked : Bool} (hpc : s.worker = .move locked) :
    InteractorOk (s.moveToExecuting locked) := by
  have hputs : ¬ PutsBack s.worker := by rw [hpc]; exact id
  have hmtx : locked = true → s.mtx = some .worker := by
    rintro rfl
    exact h.workerMtx (by rw [hpc]; trivial)
  unfold Interactor.moveToExecuting
  split
  · refine h.setPlain trivial (Or.inl rfl) (fun hholds => ?_) fun _ => Or.inr trivial
    cases locked with
    | true => exact hmtx rfl
    | false => exact hholds.elim
  · rename_i hword
    refine h.setPlain ?_ (Or.inl rfl) (fun hholds => ?_) fun hstop =>
      absurd (hstop.resolve_right hputs) hword
    · cases locked <;> trivial
    · cases locked with
      | true => exact hmtx rfl
      | false => exact hholds.elim

/-- The worker starts its wait. Who took the sleeping state out of the word still needs the mutex,
so it cannot have notified yet. -/
theorem cvSleep_ok (h : InteractorOk s) {timed : Bool} (hpc : s.worker = .cvSleep timed) :
    InteractorOk { s with mtx := none, cvWoken := false, worker := .cvWait timed } := by
  have hmtx : s.mtx = some .worker := h.workerMtx (by rw [hpc]; trivial)
  have hputs : ¬ PutsBack s.worker := by rw [hpc]; exact id
  have hok := h.word
  rw [hpc] at hok
  refine h.setWorker (Or.inr (Or.inr hmtx)) (fun hholds => hholds.elim) hok
    (fun hstop => Or.inl (hstop.resolve_right hputs)) (fun _ heq => nomatch heq) ?_
    (fun heq => by rcases heq with heq | heq <;> cases heq)
  intro _ _ _
  rcases h.cvGoes timed hpc with hsleeps | ⟨u, hu⟩
  · exact Or.inl hsleeps
  · exact Or.inr (Or.inl ⟨u, Or.inl hu⟩)

/-- The worker puts the stop request back. -/
theorem putBack_ok (h : InteractorOk s) {locked : Bool} (hpc : s.worker = .putBack locked) :
    InteractorOk { s with word := .shuttingDown, worker := Interactor.afterMove locked } := by
  refine h.setPlain ?_ (Or.inl rfl) (fun hholds => ?_) fun _ => Or.inl rfl
  · cases locked <;> trivial
  · cases locked with
    | true => exact h.workerMtx (by rw [hpc]; trivial)
    | false => exact hholds.elim

/-- The steps of the worker. The guard is for its plain store. -/
theorem stepWorker_ok (h : InteractorOk s) (hguard : s.worker = .rearm → s.word ≠ .shuttingDown)
    (hstep : s.stepWorker = some s') : InteractorOk s' := by
  unfold Interactor.stepWorker at hstep
  split at hstep
  · -- run
    rename_i hpc
    have hputs : ¬ PutsBack s.worker := by rw [hpc]; exact id
    split at hstep <;> cases hstep <;>
      exact h.gotoPlain trivial hputs (Or.inl rfl) fun hholds => hholds.elim
  · -- lock
    rename_i mode hpc
    exact lockWorker_ok h hstep (by rw [hpc]; exact id) trivial
      ⟨fun _ => ⟨by simp, by simp⟩, by simp, by simp⟩
  · -- preStage
    rename_i mode hpc
    cases hstep
    exact parkPreStage_ok h hpc
  · -- rearm
    rename_i hpc
    cases hstep
    have hputs : ¬ PutsBack s.worker := by rw [hpc]; exact id
    exact h.setPlain trivial (Or.inl rfl) (fun _ => h.workerMtx (by rw [hpc]; trivial))
      fun hstop => absurd (hstop.resolve_right hputs) (hguard hpc)
  · -- unlock
    rename_i hpc
    cases hstep
    have hmtx : s.mtx = some .worker := h.workerMtx (by rw [hpc]; trivial)
    exact h.gotoPlain trivial (by rw [hpc]; exact id) (Or.inr (Or.inr hmtx))
      fun hholds => hholds.elim
  · -- cvCheck
    rename_i timed hpc
    cases hstep
    exact parkConditionCheckAndTransition_ok h hpc
  · -- cvSleep
    rename_i timed hpc
    cases hstep
    exact cvSleep_ok h hpc
  · -- cvLock
    rename_i timed hpc
    have hok := h.word
    rw [hpc] at hok
    exact lockWorker_ok h hstep (by rw [hpc]; exact id) hok
      ⟨fun _ => ⟨by simp, by simp⟩, by simp, by simp⟩
  · -- ioUnlock
    rename_i hpc
    cases hstep
    have hmtx : s.mtx = some .worker := h.workerMtx (by rw [hpc]; trivial)
    have hputs : ¬ PutsBack s.worker := by rw [hpc]; exact id
    exact h.setWorker (Or.inr (Or.inr hmtx)) (fun hholds => hholds.elim) trivial
      (fun hstop => Or.inl (hstop.resolve_right hputs)) (fun _ heq => nomatch heq)
      (fun _ heq => nomatch heq) (fun _ hempty => h.ioOwed (Or.inl hpc) hempty)
  · -- ioLock
    rename_i hpc
    exact lockWorker_ok h hstep (by rw [hpc]; exact id) trivial
      ⟨fun _ => ⟨by simp, by simp⟩, by simp, by simp⟩
  · -- move
    rename_i locked hpc
    cases hstep
    exact moveToExecuting_ok h hpc
  · -- putBack
    rename_i locked hpc
    cases hstep
    exact putBack_ok h hpc
  -- Elsewhere the worker waits.
  all_goals cases hstep

theorem cvReturns_ok (h : InteractorOk s) {timed : Bool} (hpc : s.worker = .cvWait timed) :
    InteractorOk { s with cvWoken := false, worker := .cvLock timed } := by
  have hputs : ¬ PutsBack s.worker := by rw [hpc]; exact id
  have hok := h.word
  rw [hpc] at hok
  exact h.setWorker (Or.inl rfl) (fun hholds => hholds.elim) hok
    (fun hstop => Or.inl (hstop.resolve_right hputs)) (fun _ heq => nomatch heq)
    (fun _ heq => nomatch heq) (fun heq => by rcases heq with heq | heq <;> cases heq)

end Worker

/-! ### The steps of `request_stop` -/

section Stop

variable {s s' : Interactor U}

/-- A notification wakes the worker that waits and changes nothing else. -/
theorem notifyOne_cases (s : Interactor U) :
    (∃ timed, s.worker = .cvWait timed ∧ s.notifyOne = { s with cvWoken := true }) ∨
      (∀ timed, s.worker ≠ .cvWait timed) ∧ s.notifyOne = s := by
  unfold Interactor.notifyOne
  split
  · rename_i timed hpc
    exact Or.inl ⟨timed, hpc, rfl⟩
  · rename_i hpc
    exact Or.inr ⟨hpc, rfl⟩

/-- The swap of `request_stop`. Its mutex keeps the worker out of the places between the mark
that it sleeps and the release of the mutex. -/
theorem stopSwap_ok (h : InteractorOk s) (hpc : s.stop = .swap) :
    InteractorOk { s with word := .shuttingDown, stop := .notify s.word } := by
  have hmtx : s.mtx = some .stop := h.stopMtx (by rw [hpc]; trivial)
  have hworker : ¬ HoldsMtx s.worker := by
    intro hholds
    have hown := h.workerMtx hholds
    rw [hmtx] at hown
    cases hown
  refine { h with
    stopMtx := fun _ => hmtx, word := wordOk_of_request (Or.inr rfl),
    kept := fun _ => Or.inl rfl, cvGoes := ?_, cvOwed := ?_, ioOwed := ?_ }
  · intro timed hplace
    have hplace : s.worker = .cvSleep timed := hplace
    exact absurd (by rw [hplace]; trivial) hworker
  · intro timed hplace hwoken
    rcases h.cvOwed timed hplace hwoken with hsleeps | hpending | hstop
    · exact Or.inr (Or.inr (by rw [← hsleeps]))
    · exact Or.inr (Or.inl hpending)
    · rw [hpc] at hstop
      cases hstop
  · intro hplace hempty
    rcases h.ioOwed hplace hempty with hsleeps | hpending | hstop
    · exact Or.inr (Or.inr (by rw [← hsleeps]))
    · exact Or.inr (Or.inl hpending)
    · rw [hpc] at hstop
      cases hstop

/-- `request_stop` moves on after its swap, having woken what it has to wake. -/
theorem InteractorOk.setStop (h : InteractorOk s) {prev : WorkerWord} {woken : Bool} {pipe : Nat}
    (hpc : s.stop = .notify prev)
    (hcv : ∀ timed, s.worker = .cvWait timed → woken = false →
      s.cvWoken = false ∧ prev ≠ .sleepingCv)
    (hio : pipe = 0 → s.ioPipe = 0 ∧ prev ≠ .sleepingIo) :
    InteractorOk { s with cvWoken := woken, ioPipe := pipe, stop := .unlock } where
  workerMtx := h.workerMtx
  stopMtx := fun _ => h.stopMtx (by rw [hpc]; trivial)
  unparkMtx := h.unparkMtx
  word := h.word
  kept := fun _ => h.kept (by rw [hpc]; trivial)
  cvGoes := h.cvGoes
  cvOwed := by
    intro timed hplace hwoken
    obtain ⟨hold, hprev⟩ := hcv timed hplace hwoken
    rcases h.cvOwed timed hplace hold with hsleeps | hpending | hstop
    · exact Or.inl hsleeps
    · exact Or.inr (Or.inl hpending)
    · rw [hpc] at hstop
      cases hstop
      exact absurd rfl hprev
  ioOwed := by
    intro hplace hempty
    obtain ⟨hold, hprev⟩ := hio hempty
    rcases h.ioOwed hplace hold with hsleeps | hpending | hstop
    · exact Or.inl hsleeps
    · exact Or.inr (Or.inl hpending)
    · rw [hpc] at hstop
      cases hstop
      exact absurd rfl hprev

/-- `request_stop` moves where it has nobody to wake. It touches the mutex only when that is free
or its own. -/
theorem InteractorOk.gotoStop (h : InteractorOk s) {pc : StopPc} {mtx : Option (MtxHolder U)}
    (hmtx : s.mtx = none ∨ s.mtx = some .stop) (hholds : ¬ StopHoldsMtx pc ∨ mtx = some .stop)
    (hrequested : Requested pc → Requested s.stop) (hstop : ∀ prev, s.stop ≠ .notify prev) :
    InteractorOk { s with mtx, stop := pc } := by
  exact { h with
    workerMtx := fun hworker => mtx_kept (Or.inr hmtx) (by simp) (h.workerMtx hworker)
    stopMtx := fun hplace => hholds.resolve_left (not_not_intro hplace)
    unparkMtx := fun u hu => mtx_kept (Or.inr hmtx) (by simp) (h.unparkMtx u hu)
    kept := fun hplace => h.kept (hrequested hplace)
    cvOwed := fun timed hplace hwoken => (h.cvOwed timed hplace hwoken).imp_right fun hpending =>
      Or.inl (hpending.resolve_right (hstop _))
    ioOwed := fun hplace hempty => (h.ioOwed hplace hempty).imp_right fun hpending =>
      Or.inl (hpending.resolve_right (hstop _)) }

/-- The steps of the request to stop. -/
theorem stepStop_ok (h : InteractorOk s) (hstep : s.stepStop = some s') : InteractorOk s' := by
  unfold Interactor.stepStop at hstep
  split at hstep
  · -- idle
    rename_i hpc
    obtain ⟨hfree, rfl⟩ := Option.ite_some_none_eq_some.mp hstep
    exact h.gotoStop (Or.inl hfree) (Or.inr rfl) (fun hplace => hplace.elim)
      fun prev => by simp [hpc]
  · -- swap
    rename_i hpc
    cases hstep
    exact stopSwap_ok h hpc
  · -- The worker slept on its condition variable.
    rename_i hpc
    cases hstep
    rcases notifyOne_cases s with ⟨timed, hplace, hwoken⟩ | ⟨hout, hsame⟩
    · rw [hwoken]
      exact h.setStop hpc (fun _ _ hfalse => nomatch hfalse) fun hempty => ⟨hempty, by decide⟩
    · rw [hsame]
      exact h.setStop hpc (fun timed hplace _ => absurd hplace (hout timed))
        fun hempty => ⟨hempty, by decide⟩
  · -- It slept on the IO driver.
    rename_i hpc
    cases hstep
    exact h.setStop hpc (fun _ _ hwoken => ⟨hwoken, by decide⟩) fun hempty => by omega
  · -- It was awake.
    rename_i prev hcv hio hpc
    cases hstep
    exact h.setStop hpc (fun _ _ hwoken => ⟨hwoken, hcv⟩) fun hempty => ⟨hempty, hio⟩
  · -- unlock
    rename_i hpc
    cases hstep
    exact h.gotoStop (Or.inr (h.stopMtx (by rw [hpc]; trivial))) (Or.inl id)
      (fun _ => by rw [hpc]; trivial) fun prev => by simp [hpc]
  · cases hstep

end Stop

/-! ### The steps of `unpark` -/

section Unpark

variable [DecidableEq U] {s s' : Interactor U} {u : U}

/-- What is owed by the word or by some call is still owed after one call has moved, if that call
passes on what it took out of the word and what it owed itself. -/
theorem owed_of_move {P : UnparkPc → Prop} {unparks : U → UnparkPc} {pc : UnparkPc}
    {before after : Prop} (hmove : before ∨ P (unparks u) → after ∨ P pc)
    (howed : before ∨ ∃ v, P (unparks v)) :
    after ∨ ∃ v, P (Function.update unparks u pc v) := by
  have hself : P pc → ∃ v, P (Function.update unparks u pc v) := fun hpc =>
    ⟨u, by rwa [Function.update_self]⟩
  rcases howed with hbefore | ⟨v, hv⟩
  · exact (hmove (Or.inl hbefore)).imp_right hself
  · by_cases hvu : v = u
    · subst hvu
      exact (hmove (Or.inr hv)).imp_right hself
    · exact Or.inr ⟨v, by rwa [Function.update_of_ne hvu]⟩

/-- A call of `unpark` moves. It touches the mutex only when that is free or its own, and it passes
on what it owes. -/
theorem InteractorOk.setUnpark (h : InteractorOk s) {pc : UnparkPc} {word : WorkerWord}
    {mtx : Option (MtxHolder U)} {woken : Bool} {pipe : Nat}
    (hmtx : mtx = s.mtx ∨ s.mtx = none ∨ s.mtx = some (.unpark u))
    (hsync : pc = .sync → mtx = some (.unpark u)) (hword : WordOk s.worker word)
    (hkept : s.word = .shuttingDown ∨ s.unparks u = .putBack →
      word = .shuttingDown ∨ pc = .putBack)
    (hgoes : ∀ timed, s.worker = .cvSleep timed → s.word = .sleepingCv ∨ s.unparks u = .lock →
      word = .sleepingCv ∨ pc = .lock)
    (hcv : ∀ timed, s.worker = .cvWait timed → woken = false → s.cvWoken = false ∧
      (s.word = .sleepingCv ∨ NotifiesCv (s.unparks u) → word = .sleepingCv ∨ NotifiesCv pc))
    (hio : pipe = 0 → s.ioPipe = 0 ∧
      (s.word = .sleepingIo ∨ s.unparks u = .ioUnpark → word = .sleepingIo ∨ pc = .ioUnpark)) :
    InteractorOk ({ s with word, mtx, cvWoken := woken, ioPipe := pipe }.setUnpark u pc) := by
  constructor
  case workerMtx => exact fun hholds => mtx_kept hmtx (by simp) (h.workerMtx hholds)
  case stopMtx => exact fun hholds => mtx_kept hmtx (by simp) (h.stopMtx hholds)
  case unparkMtx =>
    intro v hv
    by_cases hvu : v = u
    · subst hvu
      exact hsync (by simpa [Interactor.setUnpark] using hv)
    · refine mtx_kept hmtx (by simpa using hvu) (h.unparkMtx v ?_)
      simpa [Interactor.setUnpark, hvu] using hv
  case word => exact hword
  case kept =>
    intro hrequested
    exact or_assoc.mp ((or_assoc.mpr (h.kept hrequested)).imp_left
      (owed_of_move (P := (· = .putBack)) hkept))
  case cvGoes =>
    intro timed hplace
    exact owed_of_move (P := (· = .lock)) (hgoes timed hplace) (h.cvGoes timed hplace)
  case cvOwed =>
    intro timed hplace hwoken
    obtain ⟨hold, hmove⟩ := hcv timed hplace hwoken
    exact or_assoc.mp ((or_assoc.mpr (h.cvOwed timed hplace hold)).imp_left (owed_of_move hmove))
  case ioOwed =>
    intro hplace hempty
    obtain ⟨hold, hmove⟩ := hio hempty
    exact or_assoc.mp ((or_assoc.mpr (h.ioOwed hplace hold)).imp_left
      (owed_of_move (P := (· = .ioUnpark)) hmove))

/-- The swap of `unpark`: the call now owes what it found in the word. -/
theorem unparkSwap_ok (h : InteractorOk s) (hpc : s.unparks u = .idle) :
    InteractorOk ({ s with word := .notified }.setUnpark u (Interactor.afterSwap s.word)) := by
  have hfound : ∀ {word : WorkerWord} {P : UnparkPc → Prop},
      ¬ P .idle → s.word = word ∨ P (s.unparks u) → s.word = word := by
    intro word P hidle howed
    refine howed.resolve_right fun hu => hidle ?_
    rwa [hpc] at hu
  refine h.setUnpark (Or.inl rfl) ?_ (wordOk_of_request (Or.inl rfl)) ?_ ?_ ?_ ?_
  · cases s.word <;> exact fun heq => nomatch heq
  · intro howed
    rw [hfound (P := (· = .putBack)) (by simp) howed]
    exact Or.inr rfl
  · intro _ _ howed
    rw [hfound (P := (· = .lock)) (by simp) howed]
    exact Or.inr rfl
  · intro _ _ hwoken
    refine ⟨hwoken, fun howed => ?_⟩
    rw [hfound (P := NotifiesCv) (by simp [NotifiesCv]) howed]
    exact Or.inr (Or.inl rfl)
  · intro hempty
    refine ⟨hempty, fun howed => ?_⟩
    rw [hfound (P := (· = .ioUnpark)) (by simp) howed]
    exact Or.inr rfl

/-- A call moves with the word as it is, and does not owe the word or the IO driver anything. -/
theorem InteractorOk.gotoUnpark (h : InteractorOk s) {pc : UnparkPc}
    {mtx : Option (MtxHolder U)} {woken : Bool}
    (hpc : s.unparks u ≠ .putBack ∧ s.unparks u ≠ .ioUnpark)
    (hmtx : mtx = s.mtx ∨ s.mtx = none ∨ s.mtx = some (.unpark u))
    (hsync : pc = .sync → mtx = some (.unpark u))
    (hgoes : ∀ timed, s.worker = .cvSleep timed → s.unparks u ≠ .lock)
    (hcv : ∀ timed, s.worker = .cvWait timed → woken = false → s.cvWoken = false ∧
      (NotifiesCv (s.unparks u) → NotifiesCv pc)) :
    InteractorOk ({ s with mtx, cvWoken := woken }.setUnpark u pc) := by
  refine h.setUnpark hmtx hsync h.word (fun howed => Or.inl (howed.resolve_right hpc.1)) ?_ ?_ ?_
  · exact fun timed hplace howed => Or.inl (howed.resolve_right (hgoes timed hplace))
  · intro timed hplace hwoken
    obtain ⟨hold, hmove⟩ := hcv timed hplace hwoken
    exact ⟨hold, Or.imp_right hmove⟩
  · exact fun hempty => ⟨hempty, fun howed => Or.inl (howed.resolve_right hpc.2)⟩

/-- The steps of `unpark`. The guard is for its plain store. -/
theorem stepUnpark_ok (h : InteractorOk s)
    (hguard : s.unparks u = .putBack → s.word ≠ .sleepingCv ∧ s.word ≠ .sleepingIo)
    (hstep : s.stepUnpark u = some s') : InteractorOk s' := by
  unfold Interactor.stepUnpark at hstep
  split at hstep
  · -- idle
    rename_i hpc
    cases hstep
    exact unparkSwap_ok h hpc
  · -- lock
    rename_i hpc
    obtain ⟨hfree, rfl⟩ := Option.ite_some_none_eq_some.mp hstep
    refine h.gotoUnpark (by simp [hpc]) (Or.inr (Or.inl hfree)) (fun _ => rfl) ?_
      fun _ _ hwoken => ⟨hwoken, fun _ => Or.inr (Or.inl rfl)⟩
    -- A worker on its way into the wait holds the mutex.
    intro timed hplace
    have hown := h.workerMtx (by rw [hplace]; trivial)
    rw [hfree] at hown
    cases hown
  · -- sync
    rename_i hpc
    cases hstep
    exact h.gotoUnpark (by simp [hpc]) (Or.inr (Or.inr (h.unparkMtx u hpc)))
      (fun heq => nomatch heq) (fun _ _ => by simp [hpc])
      fun _ _ hwoken => ⟨hwoken, fun _ => Or.inr (Or.inr rfl)⟩
  · -- notify
    rename_i hpc
    cases hstep
    rcases notifyOne_cases s with ⟨timed, hplace, hwoken⟩ | ⟨hout, hsame⟩
    · rw [hwoken]
      exact h.gotoUnpark (by simp [hpc]) (Or.inl rfl) (fun heq => nomatch heq)
        (fun _ _ => by simp [hpc]) fun _ _ hfalse => nomatch hfalse
    · rw [hsame]
      exact h.gotoUnpark (by simp [hpc]) (Or.inl rfl) (fun heq => nomatch heq)
        (fun _ _ => by simp [hpc]) fun timed hplace => absurd hplace (hout timed)
  · -- ioUnpark
    rename_i hpc
    cases hstep
    refine h.setUnpark (Or.inl rfl) (fun heq => nomatch heq) h.word ?_ ?_ ?_ fun hempty => by omega
    · simp [hpc]
    · simp [hpc]
    · simp [hpc, NotifiesCv]
  · -- putBack
    rename_i hpc
    cases hstep
    obtain ⟨hcv, hio⟩ := hguard hpc
    refine h.setUnpark (Or.inl rfl) (fun heq => nomatch heq) (wordOk_of_request (Or.inr rfl))
      (fun _ => Or.inl rfl) ?_ ?_ ?_
    · simp [hpc, hcv]
    · simp [hpc, hcv, NotifiesCv]
    · simp [hpc, hio]

end Unpark

/-! ### The stop request is kept -/

section Runs

variable [DecidableEq U] {s s' : Interactor U}

/-- Every step keeps `InteractorOk`, if no plain store overwrites a newer word. -/
theorem interactorStep_ok {act : InteractorAction U} (h : InteractorOk s)
    (hguard : StoreInTime s act) (hstep : s.step act = some s') : InteractorOk s' := by
  cases act with
  | again =>
      obtain ⟨hpc, rfl⟩ := Option.ite_some_none_eq_some.mp hstep
      exact h.gotoPlain trivial (by rw [hpc]; exact id) (Or.inl rfl) fun hholds => hholds.elim
  | park mode =>
      obtain ⟨hpc, hstep⟩ := Option.ite_none_right_eq_some.mp hstep
      have hputs : ¬ PutsBack s.worker := by rw [hpc]; exact id
      cases mode <;> cases hstep <;>
        exact h.gotoPlain trivial hputs (Or.inl rfl) fun hholds => hholds.elim
  | advance => exact stepWorker_ok h hguard hstep
  | elapsed =>
      simp only [Interactor.step] at hstep
      split at hstep
      · rename_i hpc
        cases hstep
        exact h.gotoPlain trivial (by rw [hpc]; exact id) (Or.inl rfl)
          fun _ => h.workerMtx (by rw [hpc]; trivial)
      · cases hstep
  | cvReturns =>
      simp only [Interactor.step] at hstep
      split at hstep
      · rename_i timed hpc
        cases hstep
        exact cvReturns_ok h hpc
      · cases hstep
  | ioReturns =>
      obtain ⟨hpc, rfl⟩ := Option.ite_some_none_eq_some.mp hstep
      exact h.gotoPlain trivial (by rw [hpc]; exact id) (Or.inl rfl) fun hholds => hholds.elim
  | stop => exact stepStop_ok h hstep
  | unpark u => exact stepUnpark_ok h hguard hstep

/-- Along every run in which no late store falls on a stop request or on a sleeping state, a stop
request that was made stays in the word and the worker does not sleep through it. -/
theorem stop_request_kept (hrun : Reaches Interactor.step StoreInTime Interactor.new s) :
    StopKept s :=
  (hrun.invariant interactorOk_new fun _ _ _ hok hguard hstep =>
    interactorStep_ok hok hguard hstep).stopKept

end Runs

instance (pc : RunPc) : Decidable (InTransition pc) := by
  unfold InTransition
  split <;> infer_instance

instance (s : Interactor U) : Decidable (Blocked s) := by
  unfold Blocked
  split <;> infer_instance

instance (s : Interactor (Fin 1)) : Decidable (StopKept s) :=
  inferInstanceAs (Decidable (_ → _ → _ → _ ∧ _))

instance (s : Interactor (Fin 1)) : (act : InteractorAction (Fin 1)) → Decidable (StoreInTime s act)
  | .advance => inferInstanceAs (Decidable (_ → _))
  | .unpark _ => inferInstanceAs (Decidable (_ → _ ∧ _))
  | .again | .park _ | .elapsed | .cvReturns | .ioReturns | .stop => .isTrue trivial

/-- The worker parks until it waits on its condition variable. -/
def intoWait : List (InteractorAction (Fin 1)) :=
  [.advance, .park (some .cv), .advance, .advance, .advance, .advance]

/-- A call of `request_stop`. -/
def wholeStop : List (InteractorAction (Fin 1)) := [.stop, .stop, .stop, .stop]

theorem stop_wakes_waiting_worker :
    ∃ s : Interactor (Fin 1), Reaches Interactor.step StoreInTime .new s ∧
      s.worker = .cvWait false ∧ s.word = .shuttingDown ∧ ¬ Blocked s := by
  have hexists : ∃ s : Interactor (Fin 1), Reaches Interactor.step StoreInTime .new s ∧
      s.worker = .cvWait false ∧ s.stop = .done ∧ ∀ u, s.unparks u = .idle :=
    exists_reaches (intoWait ++ wholeStop) (by decide)
  obtain ⟨s, hrun, hworker, hdone, hidle⟩ := hexists
  have hout : ¬ InTransition s.worker := by
    rw [hworker]
    exact id
  exact ⟨s, hrun, hworker, stop_request_kept hrun hdone hidle hout⟩

/-- The worker is past its check for a stop when `request_stop` is called. It finds the `NOTIFIED`
of an `unpark` in `park_pre_stage`, the `unpark` puts `SHUTTINGDOWN` back, and the worker stores
`EXECUTING` over it. It goes round its loop, parks again and sleeps. -/
theorem stop_overwritten :
    ∃ s : Interactor (Fin 1), Reaches Interactor.step anyStep .new s ∧ ¬ StopKept s ∧ Blocked s :=
  exists_reaches
    (InteractorAction.advance :: wholeStop ++
      [InteractorAction.park (some .cv), .advance, .unpark 0, .advance, .unpark 0] ++
      [InteractorAction.advance, .advance] ++ intoWait)
    (by decide)

-- The other late store: the worker leaves with the `NOTIFIED` and sleeps again before `unpark`
-- puts `SHUTTINGDOWN` back over `SLEEPING_CV`.
example :
    ∃ s : Interactor (Fin 1), Reaches Interactor.step anyStep .new s ∧ ¬ StopKept s ∧
      s.word = .shuttingDown :=
  exists_reaches
    (InteractorAction.advance :: wholeStop ++
      [InteractorAction.park (some .cv), .advance, .unpark 0, .advance] ++
      [InteractorAction.advance, .advance] ++ intoWait ++ [InteractorAction.unpark 0])
    (by decide)

end Kyron.Proofs.Scheduler
