import Kyron.Proofs.Task.Completion
import Kyron.Task.JoinHandle

/-!
# `Kyron.Proofs.Task.JoinInvariant`: the join handle and the workers of its task

The bit `TASK_JOIN_HANDLE_ATTACHED` is what the two sides agree on. The handle writes its waker
before it sets the bit, so a worker that completes the task and finds the bit finds the waker.
And the exchange that completes the task reads the bit, so a handle whose exchange came first is
woken, and a handle whose exchange comes later finds the task completed and takes the result.

`JoinOk` is the invariant. Its fields follow the life of the bit, of the value and of the calls
of the handle.

* `attached`: a handle that has answered `Pending` has its bit in the word until the task
  completes.
* `owed`: from then on it was woken, or the worker that completed the task is about to do it.
* `result`: a completed task has its result in the stage until the handle has taken it.

This module has the steps of the workers, and `Kyron.Proofs.Task.JoinHandle` those of the owner of
the handle.
-/

set_option autoImplicit false

namespace Kyron.Proofs.Task

open Kyron.Task
open Function

/-! ### The invariant -/

section Invariant

variable {T V : Type}

/-- Some poll of the handle has answered `Pending`. -/
def Pended (s : JoinSys T V) : Prop := ∃ r ∈ s.log, r.answer = .pending

/-- The task was completed or canceled when the poll in progress began only if it is now. -/
def Began (s : JoinSys T V) : Prop :=
  (s.began.1 = true → s.sys.state.isCompleted = true) ∧
    (s.began.2 = true → s.sys.state.isCanceled = true)

/-- What holds of the owner of the handle by its place. -/
def HandleOk (s : JoinSys T V) : Prop :=
  match s.handle with
  | .idle => s.sys.pc none = .idle
  | .setWaker =>
      s.state = .new ∧ Began s ∧ (s.sys.state.isCompleted = false → s.handleWaker = true) ∧
        ∃ val, s.sys.pc none = .update .setWaker val ∧
          ∀ v ∈ val, v.isCompleted = true → s.sys.state.isCompleted = true
  | .getState =>
      s.sys.pc none = .idle ∧ Began s ∧ s.state ≠ .finished ∧
        (s.state = .new → s.sys.state.isCompleted = true ∨ s.sys.state.isCanceled = true)
  | .takeStage =>
      s.sys.pc none = .idle ∧ Began s ∧ s.state ≠ .finished ∧ s.sys.state.isCompleted = true
  | .aborting => InCall .abort (s.sys.pc none) ∨ s.sys.pc none = .clearStage
  | .panicked e => s.sys.pc none = .idle ∧ e = .polledFinished ∧ s.state = .finished

/-- What holds of a worker that has completed the task. -/
def WakingOk (s : JoinSys T V) (t : T) : Prop :=
  match s.waking t with
  | .no => True
  | .takeWaker =>
      s.sys.state.isCompleted = true ∧ s.wakings = 0 ∧ s.handleWaker = true ∧
        ∀ t', s.waking t' = .takeWaker → t' = t
  | .noWaker => False

/-- A recorded poll: one that began with a completed task answered with the result, one that began
with a canceled task answered so, and a result is what the future returned. -/
structure RecordOk (returned : Option V) (r : PollRecord V) : Prop where
  completed : r.completed = true → ∃ v, r.answer = .ok v
  canceled : r.canceled = true → r.answer = .operationAborted
  ok : ∀ v, r.answer = .ok v → returned = some v

structure LogOk (s : JoinSys T V) : Prop where
  fresh : s.state = .new → s.log = []
  pended : s.state = .polled → Pended s
  pending : s.state ≠ .finished → ∀ r ∈ s.log, r.answer = .pending
  /-- Only the last poll can have been ready. -/
  once : ∀ r ∈ s.log.tail, r.answer = .pending
  record : ∀ r ∈ s.log, RecordOk s.returned r

structure JoinOk (s : JoinSys T V) : Prop where
  runner : RunnerOk s.sys
  stage : StageOk s.sys
  intact : ∀ t, ¬ StagePanic (s.sys.pc t)
  workers : ∀ t, ¬ InCall .setWaker (s.sys.pc (some t))
  place : HandleOk s
  word : s.sys.state.isCompleted = true → s.sys.state = ⟨taskStateCompleted⟩
  unreturned : s.sys.stage = .inProgress → s.returned = none
  stored : s.sys.stage = .completed → ∃ v, s.stored = some v ∧ s.returned = some v
  result : s.sys.state.isCompleted = true → s.state ≠ .finished → s.sys.stage = .completed
  waker : s.sys.state.hasJoinHandle = true → s.handleWaker = true
  attached : Pended s → s.sys.state.isCompleted = false → s.sys.state.hasJoinHandle = true
  waking : ∀ t, WakingOk s t
  woken : 0 < s.wakings → s.sys.state.isCompleted = true
  once : s.wakings ≤ 1
  owed : Pended s → s.sys.state.isCompleted = true →
    s.wakings = 1 ∨ ∃ t, s.waking t = .takeWaker
  log : LogOk s

/-- The log says nothing about the task and the workers. -/
theorem LogOk.frame {s s' : JoinSys T V} (h : LogOk s) (hstate : s'.state = s.state)
    (hlog : s'.log = s.log) (hreturned : ∀ v, s.returned = some v → s'.returned = some v) :
    LogOk s' := by
  have hpended : Pended s' ↔ Pended s := by
    unfold Pended
    rw [hlog]
  refine ⟨?_, ?_, ?_, ?_, ?_⟩
  · rw [hstate, hlog]
    exact h.fresh
  · rw [hstate, hpended]
    exact h.pended
  · rw [hstate, hlog]
    exact h.pending
  · rw [hlog]
    exact h.once
  · rw [hlog]
    intro r hr
    obtain ⟨h₁, h₂, h₃⟩ := h.record r hr
    exact ⟨h₁, h₂, fun v hv => hreturned v (h₃ v hv)⟩

theorem JoinOk.not_canceled {s : JoinSys T V} (h : JoinOk s)
    (hc : s.sys.state.isCompleted = true) : s.sys.state.isCanceled = false := by
  rw [h.word hc]
  decide

theorem joinOk_spawned (lane : Lane) (hasSafety : Bool) :
    JoinOk (JoinSys.spawned lane hasSafety : JoinSys T V) := by
  have hnew : TaskStateSnapshot.new.isCompleted ≠ true := by decide
  exact
    { runner := runnerOk_spawned lane hasSafety
      stage := stageOk_spawned lane hasSafety
      intact := fun _ h => by rcases h with h | h <;> cases h
      workers := fun _ h => nomatch h.choose_spec
      place := rfl
      word := fun h => absurd h hnew
      unreturned := fun _ => rfl
      stored := fun h => nomatch h
      result := fun h => absurd h hnew
      waker := fun h => absurd (show TaskStateSnapshot.new.hasJoinHandle = true from h) (by decide)
      attached := fun h => nomatch h.choose_spec.1
      waking := fun _ => trivial
      woken := fun h => nomatch h
      once := Nat.zero_le _
      owed := fun _ h => absurd h hnew
      log :=
        { fresh := fun _ => rfl
          pended := fun h => nomatch h
          pending := fun _ _ h => nomatch h
          once := fun _ h => nomatch h
          record := fun _ h => nomatch h } }

end Invariant

/-! ### The steps of the workers -/

section Workers

variable {T V : Type} [DecidableEq T] {s s' : JoinSys T V} {a : Action (Option T)} {t : T}

omit [DecidableEq T] in
/-- The owner of the handle does not notice that another activity moves, except that the task may
get completed or canceled. -/
theorem HandleOk.frame (h : HandleOk s) (hhandle : s'.handle = s.handle)
    (hstate : s'.state = s.state) (hbegan : s'.began = s.began)
    (hwaker : s'.handleWaker = s.handleWaker) (hpc : s'.sys.pc none = s.sys.pc none)
    (hcompleted : s.sys.state.isCompleted = true → s'.sys.state.isCompleted = true)
    (hcanceled : s.sys.state.isCanceled = true → s'.sys.state.isCanceled = true) :
    HandleOk s' := by
  have hb : Began s → Began s' := by
    rintro ⟨h₁, h₂⟩
    unfold Began
    rw [hbegan]
    exact ⟨fun hx => hcompleted (h₁ hx), fun hx => hcanceled (h₂ hx)⟩
  unfold HandleOk at h ⊢
  rw [hhandle, hstate, hwaker, hpc]
  split at h
  · exact h
  · obtain ⟨hnew, hbeg, hw, val, hval, hread⟩ := h
    refine ⟨hnew, hb hbeg, fun hnot => hw ?_, val, hval, fun v hv hx => hcompleted (hread v hv hx)⟩
    exact Bool.eq_false_iff.mpr fun hx => by simp [hcompleted hx] at hnot
  · obtain ⟨hidle, hbeg, hfin, hnew⟩ := h
    exact ⟨hidle, hb hbeg, hfin, fun hx => (hnew hx).imp hcompleted hcanceled⟩
  · obtain ⟨hidle, hbeg, hfin, hdone⟩ := h
    exact ⟨hidle, hb hbeg, hfin, hcompleted hdone⟩
  · exact h
  · exact h

/-- A worker never begins `set_waker`. -/
theorem JoinOk.workers_step (h : JoinOk s) {u : Sys (Option T)} (heff : Effect s.sys a u)
    (hcall : ∀ t, callOf a ≠ some (some t, .setWaker)) (t : T) :
    ¬ InCall .setWaker (u.pc (some t)) := by
  intro hin
  rcases inCall_step (by simp) heff hin with hbefore | hbegins
  · exact h.workers t hbefore
  · exact hcall t hbegins

/-- A worker or a waker makes a step on the task. What it does to the value and to the waker of
the handle is given. -/
theorem JoinOk.worker (h : JoinOk s) (heff : Effect s.sys a s'.sys)
    (hactor : actor a ≠ some none) (hnot : a ≠ .takeResult)
    (hcall : ∀ t, callOf a ≠ some (some t, .setWaker))
    (hpc : s'.sys.pc none = s.sys.pc none)
    (hhandle : s'.handle = s.handle) (hstate : s'.state = s.state) (hbegan : s'.began = s.began)
    (hwaker : s'.handleWaker = s.handleWaker) (hlog : s'.log = s.log)
    (hwakings : s'.wakings = s.wakings)
    (hunreturned : s'.sys.stage = .inProgress → s'.returned = none)
    (hstored : s'.sys.stage = .completed → ∃ v, s'.stored = some v ∧ s'.returned = some v)
    (hreturned : ∀ v, s.returned = some v → s'.returned = some v)
    (hwaking : ∀ t, WakingOk s' t)
    (howed : Pended s → s'.sys.state.isCompleted = true →
      s.wakings = 1 ∨ ∃ t, s'.waking t = .takeWaker) : JoinOk s' := by
  have hcompleted := isCompleted_step h.runner heff
  have hcanceled : s.sys.state.isCanceled = true → s'.sys.state.isCanceled = true := by
    intro hx
    rw [state_of_canceled h.runner heff hx]
    exact hx
  have hpended : Pended s' ↔ Pended s := by
    unfold Pended
    rw [hlog]
  constructor
  case runner => exact h.runner.step heff
  case stage => exact h.stage.step h.runner heff
  case intact => exact fun t hpanic => h.intact t (stagePanic_step h.stage heff hpanic)
  case workers => exact h.workers_step heff hcall
  case place => exact h.place.frame hhandle hstate hbegan hwaker hpc hcompleted hcanceled
  case word =>
    intro hc'
    cases hc : s.sys.state.isCompleted with
    | true =>
        rw [state_of_completed h.runner heff hc]
        exact h.word hc
    | false =>
        obtain ⟨_, _, _, _, _, _, hword, _⟩ := completed_step h.runner heff hc hc'
        exact hword
  case unreturned => exact hunreturned
  case stored => exact hstored
  case result =>
    intro hc' hfin
    rw [hstate] at hfin
    cases hc : s.sys.state.isCompleted with
    | true =>
        rw [stage_of_completed h.runner h.stage heff hc (h.not_canceled hc) hnot]
        exact h.result hc hfin
    | false =>
        obtain ⟨t, lane, _, hplace, _, _, _, hstage⟩ := completed_step h.runner heff hc hc'
        rw [hstage]
        exact h.stage.result t (by rw [hplace]; trivial)
  case waker =>
    intro hbit
    rw [hwaker]
    cases hc' : s'.sys.state.isCompleted with
    | true =>
        cases hc : s.sys.state.isCompleted with
        | true =>
            rw [state_of_completed h.runner heff hc] at hbit
            exact h.waker hbit
        | false =>
            obtain ⟨_, _, _, _, _, _, hword, _⟩ := completed_step h.runner heff hc hc'
            rw [hword] at hbit
            exact absurd hbit (by decide)
    | false =>
        rcases hasJoinHandle_step heff hc' with hsame | ⟨-, t, rfl, hin⟩
        · exact h.waker (hsame ▸ hbit)
        · -- Only the owner of the handle sets the bit.
          cases t with
          | none => exact absurd rfl hactor
          | some t => exact absurd hin (h.workers t)
  case attached =>
    intro hp hc'
    have hc : s.sys.state.isCompleted = false := by
      rw [Bool.eq_false_iff]
      intro hc
      rw [hcompleted hc] at hc'
      cases hc'
    rcases hasJoinHandle_step heff hc' with hsame | ⟨hset, -⟩
    · rw [hsame]
      exact h.attached (hpended.mp hp) hc
    · exact hset
  case waking => exact hwaking
  case woken =>
    rw [hwakings]
    exact fun hpos => hcompleted (h.woken hpos)
  case once =>
    rw [hwakings]
    exact h.once
  case owed =>
    rw [hwakings]
    exact fun hp hc' => howed (hpended.mp hp) hc'
  case log => exact h.log.frame hstate hlog hreturned

omit [DecidableEq T] in
/-- A worker that is about to wake the handle stays so when others move. -/
theorem WakingOk.frame (h : WakingOk s t) (hwaking : s'.waking = s.waking)
    (hwaker : s'.handleWaker = s.handleWaker) (hwakings : s'.wakings = s.wakings)
    (hcompleted : s.sys.state.isCompleted = true → s'.sys.state.isCompleted = true) :
    WakingOk s' t := by
  unfold WakingOk at h ⊢
  rw [hwaking, hwaker, hwakings]
  split at h
  · trivial
  · exact ⟨hcompleted h.1, h.2⟩
  · exact h

theorem worker_eq_some (hstep : s.worker t a = some s') :
    ∃ next, s.sys.step a = some next ∧ s' = { s with sys := next } := by
  simp only [JoinSys.worker, Option.ite_none_right_eq_some, Option.map_eq_some_iff] at hstep
  obtain ⟨-, next, hnext, rfl⟩ := hstep
  exact ⟨next, hnext, rfl⟩

/-- A step of a worker or a waker that does not complete a task whose handle waits. -/
theorem worker_ok (h : JoinOk s) (hstep : s.worker t a = some s') (hactor : actor a = some (some t))
    (hcall : ∀ t, callOf a ≠ some (some t, .setWaker)) (hready : ∀ t, a ≠ .poll t true)
    (hcompletes : Pended s → s.sys.state.isCompleted = false → s'.sys.state.isCompleted = false) :
    JoinOk s' := by
  obtain ⟨next, hnext, rfl⟩ := worker_eq_some hstep
  have heff := effect_of_step hnext
  have hcompleted := isCompleted_step h.runner heff
  have hother : actor a ≠ some none := by simp [hactor]
  refine h.worker heff hother ?_ hcall ((step_effect hnext).2 none hother) rfl rfl rfl rfl rfl rfl
    ?_ ?_ (fun _ => id) (fun t' => (h.waking t').frame rfl rfl rfl hcompleted) ?_
  · rintro rfl
    cases hactor
  · intro hstage
    exact h.unreturned (by_contra fun hne => stage_step heff hne hstage)
  · exact fun hstage => h.stored (stage_completed_step heff hready hstage)
  · intro hp hc'
    cases hc : s.sys.state.isCompleted with
    | true => exact h.owed hp hc
    | false =>
        have hnot := hcompletes hp hc
        rw [show _ = _ from hc'] at hnot
        cases hnot

/-- What a worker does when `transition_to_completed` answers `HadConnectedJoinHandle`. -/
theorem hadConnectedJoinHandle_step {u u' : Sys (Option T)} {t : Option T}
    (h : JoinSys.hadConnectedJoinHandle u t = true) (hstep : u.step (.advance t) = some u') :
    u.state.isCompleted = false ∧ u.state.hasJoinHandle = true ∧
      u'.state = ⟨taskStateCompleted⟩ := by
  unfold JoinSys.hadConnectedJoinHandle at h
  split at h
  · rename_i lane v hpc
    split at h
    · rename_i new hcl
      have hv := of_decide_eq_true h
      subst hv
      have hword : u.state.isCompleted = false ∧ u.state.hasJoinHandle = true ∧
          new = ⟨taskStateCompleted⟩ := by
        unfold TaskState.transitionToCompleted at hcl
        split_ifs at hcl <;> cases hcl
        simp_all
      obtain ⟨hc, hbit, rfl⟩ := hword
      simp only [Sys.step, Sys.advance, hpc, Sys.attempt, Op.closure, hcl, bind, Except.bind,
        if_true, Option.some.injEq] at hstep
      rw [← hstep]
      exact ⟨hc, hbit, rfl⟩
    · cases h
  · cases h

omit [DecidableEq T] in
/-- A worker that completes a task whose word has the bit gets that answer. -/
theorem hadConnectedJoinHandle_of_bit {u : Sys (Option T)} {t : Option T} {lane : Lane}
    (hpc : u.pc t = .update (.toCompleted lane) (some u.state))
    (hr : u.state.isRunning = true) (hc : u.state.isCompleted = false)
    (hx : u.state.isCanceled = false) (hbit : u.state.hasJoinHandle = true) :
    JoinSys.hadConnectedJoinHandle u t = true := by
  simp [JoinSys.hadConnectedJoinHandle, hpc, TaskState.transitionToCompleted, hr, hc, hx, hbit]

theorem advance_ok (h : JoinOk s) (hstep : s.advance t = some s') : JoinOk s' := by
  obtain ⟨u, hu, rfl⟩ := Option.map_eq_some_iff.mp hstep
  cases hhad : JoinSys.hadConnectedJoinHandle s.sys (some t) with
  | false =>
      rw [if_neg (by simp)]
      refine worker_ok h hu rfl (by simp [callOf]) (by simp) ?_
      -- A completion would have found the bit of the handle that waits.
      intro hp hc
      obtain ⟨next, hnext, rfl⟩ := worker_eq_some hu
      rw [Bool.eq_false_iff]
      intro hc'
      obtain ⟨t', lane, ha, hpc, hr, hx, -⟩ :=
        completed_step h.runner (effect_of_step hnext) hc hc'
      cases ha
      rw [hadConnectedJoinHandle_of_bit hpc hr hc hx (h.attached hp hc)] at hhad
      cases hhad
  | true =>
      rw [if_pos rfl]
      obtain ⟨next, hnext, rfl⟩ := worker_eq_some hu
      have heff := effect_of_step hnext
      obtain ⟨hc, hbit, hword⟩ := hadConnectedJoinHandle_step hhad hnext
      have hother : actor (.advance (some t)) ≠ some (none : Option T) := by simp [actor]
      have hc' : next.state.isCompleted = true := by
        rw [hword]
        decide
      -- Before, nobody was woken and nobody was about to be.
      have hzero : s.wakings = 0 := by
        by_contra hne
        rw [h.woken (Nat.pos_of_ne_zero hne)] at hc
        cases hc
      have hnone : ∀ t', s.waking t' ≠ .takeWaker := by
        intro t' htake
        have hwaking := h.waking t'
        unfold WakingOk at hwaking
        rw [htake] at hwaking
        rw [hwaking.1] at hc
        cases hc
      refine h.worker heff hother (by simp) (by simp [callOf])
        ((step_effect hnext).2 none hother) rfl rfl rfl rfl rfl rfl ?_ ?_ (fun _ => id) ?_ ?_
      · exact fun hstage => h.unreturned (by_contra fun hne => stage_step heff hne hstage)
      · exact fun hstage =>
          h.stored (stage_completed_step heff (by simp) hstage)
      · intro t'
        have hunique : ∀ t₁, Function.update s.waking t .takeWaker t₁ = .takeWaker → t₁ = t := by
          intro t₁ htake
          by_contra hne
          rw [update_of_ne hne] at htake
          exact hnone t₁ htake
        by_cases ht : t' = t
        · subst ht
          simp only [WakingOk, update_self]
          exact ⟨hc', hzero, h.waker hbit, hunique⟩
        · have hbefore := h.waking t'
          simp only [WakingOk, update_of_ne ht] at hbefore ⊢
          split
          · trivial
          · rename_i htake
            exact absurd htake (hnone t')
          · rename_i hfail
            simp [hfail] at hbefore
      · exact fun _ _ => Or.inr ⟨t, update_self ..⟩

theorem ready_ok (h : JoinOk s) {v : V} (hstep : s.ready t v = some s') : JoinOk s' := by
  obtain ⟨u, hu, rfl⟩ := Option.map_eq_some_iff.mp hstep
  obtain ⟨next, hnext, rfl⟩ := worker_eq_some hu
  have heff := effect_of_step hnext
  have hother : actor (.poll (some t) true) ≠ some (none : Option T) := by simp [actor]
  have hfacts : s.sys.stage = .inProgress ∧ next.stage = .completed ∧
      next.state = s.sys.state := by
    cases heff with
    | call hcall => cases hcall
    | ready hpc => exact ⟨h.stage.holds _ (by rw [hpc]; trivial), rfl, rfl⟩
  obtain ⟨hin, hout, hstate⟩ := hfacts
  refine h.worker heff hother (by simp) (by simp [callOf])
    ((step_effect hnext).2 none hother) rfl rfl rfl rfl rfl rfl ?_ (fun _ => ⟨v, rfl, rfl⟩) ?_
    (fun t' => (h.waking t').frame rfl rfl rfl (by rw [hstate]; exact id)) ?_
  · exact fun hstage => nomatch hout.symm.trans hstage
  · intro v' hv'
    rw [h.unreturned hin] at hv'
    cases hv'
  · intro hp hc'
    exact h.owed hp (hstate ▸ hc')

/-- The worker that has completed the task wakes the handle. -/
theorem wakeHandle_ok (h : JoinOk s) (hstep : s.wakeHandle t = some s') : JoinOk s' := by
  obtain ⟨htake, hstep⟩ := Option.ite_none_right_eq_some.mp hstep
  have hself := h.waking t
  simp only [WakingOk, htake] at hself
  obtain ⟨hc, hzero, hwaker, hunique⟩ := hself
  rw [if_pos hwaker] at hstep
  cases hstep
  -- Nobody else was about to wake it.
  refine { h with
    place := ?_, waker := ?_, waking := ?_, woken := ?_, once := ?_, owed := ?_,
    log := h.log.frame rfl rfl fun _ => id }
  · have hplace := h.place
    unfold HandleOk at hplace ⊢
    split at hplace
    case h_2 hset =>
      obtain ⟨hnew, hbegan, -, hval⟩ := hplace
      simp only [hset]
      exact ⟨hnew, hbegan, fun hnot => by simp [hc] at hnot, hval⟩
    all_goals
      rename_i hset
      simp only [hset]
      exact hplace
  · intro hbit
    have hbit : s.sys.state.hasJoinHandle = true := hbit
    rw [h.word hc] at hbit
    exact absurd hbit (by decide)
  · intro t'
    have hbefore := h.waking t'
    by_cases ht : t' = t
    · subst ht
      simp only [WakingOk, update_self]
    · simp only [WakingOk, update_of_ne ht] at hbefore ⊢
      split
      · trivial
      · rename_i htake'
        exact absurd (hunique t' htake') ht
      · rename_i hfail
        simp [hfail] at hbefore
  · exact fun _ => hc
  · exact Nat.le_of_eq (by rw [hzero])
  · exact fun _ _ => Or.inl (by rw [hzero])

end Workers

end Kyron.Proofs.Task
