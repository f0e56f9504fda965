import Kyron.Proofs.Task.AsyncTask
import Kyron.Proofs.Task.Owed

/-!
# `Kyron.Proofs.Task.SafetyWake`: a safety wake leads into the safety queue

`schedule_safety` sets the safety bit and pushes an idle task into the queue of the safety worker.
A task that runs is not pushed: whoever runs it sees the bit in `transition_to_idle` and pushes
it back to the queue that it came from. The result of `transition_to_idle` does not say which
of the two bits was set, so a normal worker pushes such a task back to a normal queue.

* `safety_wake_queued`: as long as no safety wake is accepted while a normal worker runs the task
  and the safety queue has room, a task with the safety bit is on its way to the safety worker.
* `safety_wake_in_normal_queue`: a safety wake that is accepted during a run on a normal worker.
-/

set_option autoImplicit false

namespace Kyron.Proofs.Task

open Kyron.Lib
open Kyron.Task
open Kyron.Task.TaskStateSnapshot

/-! ### The safety bit -/

theorem isSafetyNotified_eq (v : TaskStateSnapshot) : v.isSafetyNotified = flag 6 v := by
  have hmask : ∀ i < 32, taskNotifiedSafety.toBitVec.getLsbD i = true ↔ i = 6 := by decide
  rw [Bool.eq_iff_iff]
  unfold isSafetyNotified flag
  rw [and_bne_zero]
  constructor
  · rintro ⟨i, hi, hx, hm⟩
    rw [(hmask i hi).mp hm] at hx
    exact hx
  · exact fun hx => ⟨6, by decide, hx, by decide⟩

theorem isNotified_of_isSafetyNotified {v : TaskStateSnapshot} (h : v.isSafetyNotified = true) :
    v.isNotified = true := by
  rw [isSafetyNotified_eq] at h
  rw [isNotified_eq, h, Bool.or_true]

variable {T : Type}

/-- What an exchange does to the safety bit: it leaves the bit, or sets it in a safety wake, or
clears it when a run starts or the task is completed. -/
theorem stores_safetyNotified {v new : TaskStateSnapshot} {op : Op} {next : Pc}
    (hst : Stores v op new next) :
    new.isSafetyNotified = v.isSafetyNotified ∨ op = .scheduleSafety ∨
      new.isSafetyNotified = false := by
  cases hst with
  | schedule => exact Or.inl (by simp [isSafetyNotified_eq, flag_setNotified])
  | scheduleSafety => exact Or.inr (Or.inl rfl)
  | abort => exact Or.inl (by simp [isSafetyNotified_eq, flag_setCanceled])
  | setWaker => exact Or.inl (by simp [isSafetyNotified_eq, flag_setJoinHandle])
  | toRunning =>
      refine Or.inr (Or.inr ?_)
      simp [isSafetyNotified_eq, setRunning_eq_setIdle, flag_setIdle, flag_unsetNotified]
  | toIdle => exact Or.inl (by simp [isSafetyNotified_eq, flag_setIdle])
  | toCompleted => exact Or.inr (Or.inr (by decide))

/-- An exchange that leaves a task idle, by what it does: it found the task idle and recorded
no notification, or it notified an idle task, or it ended a run. -/
theorem stores_idle {p : Phase} {v new : TaskStateSnapshot} {op : Op} {next : Pc}
    (hphase : InPhase p v) (hst : Stores v op new next) (hidle : new.isIdle = true)
    (hcanceled : new.isCanceled = false) :
    (v.isIdle = true ∧ v.isCanceled = false ∧ op = .setWaker ∧ new.isNotified = v.isNotified) ∨
    (v.isIdle = true ∧ v.isCanceled = false ∧ op = .schedule ∧ next = .respawn .normal) ∨
    (op = .scheduleSafety ∧ next = .respawn .safety) ∨
    ∃ worker, op = .toIdle worker ∧ new.isNotified = v.isNotified ∧
      next = if v.isNotified then .repush worker else .idle := by
  have hpidle := hphase.idle
  have hprunning := hphase.running
  cases hst with
  | schedule hc hn hx =>
      rw [hphase.setNotified.idle] at hidle
      have hp : p = .idle := of_decide_eq_true hidle
      subst hp
      refine Or.inr (Or.inl ⟨hpidle, hx, rfl, ?_⟩)
      rw [hprunning]
      rfl
  | scheduleSafety hc hx =>
      rw [hphase.setSafetyNotified.idle] at hidle
      have hp : p = .idle := of_decide_eq_true hidle
      subst hp
      refine Or.inr (Or.inr (Or.inl ⟨rfl, ?_⟩))
      rw [hprunning]
      rfl
  | abort hc hx => simp at hcanceled
  | setWaker hc hx =>
      rw [hphase.setJoinHandle.idle, ← hpidle] at hidle
      exact Or.inl ⟨hidle, hx, rfl, by simp⟩
  | toRunning worker hi hr hc hx =>
      have hp : p = .idle := of_decide_eq_true (by rw [← hpidle]; exact hi)
      subst hp
      rw [hphase.unsetNotified.setRunning.idle] at hidle
      cases hidle
  | toIdle worker hr hx => exact Or.inr (Or.inr (Or.inr ⟨worker, rfl, by simp, rfl⟩))
  | toCompleted worker hr hx => exact absurd hidle (by decide)

/-! ### The condition -/

/-- The condition on a step: no safety wake is accepted while a normal worker runs the task, and
no push into the safety queue is refused. -/
def SafetyWakeInTime (s : Sys T) : Action T → Prop
  | .advance t => s.pc t = .update .scheduleSafety (some s.state) → s.state.isCanceled = false →
      ∀ t', ¬ RunsOn .normal (s.pc t')
  | .push t fits => PushesTo .safety (s.pc t) → fits = true
  | _ => True

/-- The invariant: a normal worker runs the task only without the safety bit. -/
structure SafetyOk (s : Sys T) : Prop where
  runner : RunnerOk s
  clear : ∀ t, RunsOn .normal (s.pc t) → s.state.isSafetyNotified = false
  hasSafety : s.hasSafety = true
  owed : Owed isSafetyNotified (· = .safety) s

section Steps

variable [DecidableEq T] {s s' : Sys T}

/-- No step changes whether the engine has a safety worker. -/
theorem hasSafety_step {a : Action T} (heff : Effect s a s') : s'.hasSafety = s.hasSafety := by
  cases heff <;> rfl

/-- A normal worker runs the task only without the safety bit: its run started without the bit,
and no safety wake is accepted while it lasts. -/
theorem clear_step (hok : RunnerOk s) (hclear : ∀ t, RunsOn .normal (s.pc t) →
      s.state.isSafetyNotified = false) {a : Action T} (hguard : SafetyWakeInTime s a)
    (heff : Effect s a s') {t : T} (hruns : RunsOn .normal (s'.pc t)) :
    s'.state.isSafetyNotified = false := by
  rcases hok.runsOn_step heff hruns with hbefore | hstarts
  · have hold := hclear t hbefore
    cases heff with
    | stores hpc hst =>
        rcases stores_safetyNotified hst with hsame | rfl | hnew
        · exact hsame.trans hold
        · have hcanceled := (stores_phase (s := s) hok.phase.choose_spec hst).1.1
          exact absurd hbefore (hguard hpc hcanceled t)
        · exact hnew
    | _ => exact hold
  · generalize s'.state = new at hstarts
    cases hstarts
    simp [isSafetyNotified_eq, setRunning_eq_setIdle, flag_setIdle, flag_unsetNotified]

theorem SafetyOk.step (h : SafetyOk s) {a : Action T} (hguard : SafetyWakeInTime s a)
    (heff : Effect s a s') : SafetyOk s' where
  runner := h.runner.step heff
  clear := fun _ hruns => clear_step h.runner h.clear hguard heff hruns
  hasSafety := (hasSafety_step heff).trans h.hasSafety
  owed := by
    refine h.owed.step h.runner heff ?_ ?_
    · intro t op new next _ hpc hst hidle hcanceled hbit
      obtain ⟨p, hphase⟩ := h.runner.phase
      have hsafety := stores_safetyNotified hst
      rcases stores_idle hphase hst hidle hcanceled with
        ⟨hi, hx, rfl, -⟩ | ⟨hi, hx, rfl, -⟩ | ⟨-, hnext⟩ | ⟨worker, rfl, -, hnext⟩
      · refine Or.inl ⟨hi, hx, ?_⟩
        simpa [hbit] using hsafety.symm
      · refine Or.inl ⟨hi, hx, ?_⟩
        simpa [hbit] using hsafety.symm
      · exact Or.inr ⟨.safety, rfl, Or.inl hnext⟩
      · -- The run that ends saw the bit, so it was a run of the safety worker.
        have hold : s.state.isSafetyNotified = true := by simpa [hbit] using hsafety.symm
        have hworker : worker = .safety := by
          cases worker with
          | safety => rfl
          | normal =>
              have hclear := h.clear t (by rw [hpc]; rfl)
              rw [hold] at hclear
              cases hclear
        subst hworker
        rw [if_pos (isNotified_of_isSafetyNotified hold)] at hnext
        exact Or.inr ⟨.safety, rfl, Or.inr hnext⟩
    · rintro t fits lane rfl rfl hpushes
      exact ⟨hguard hpushes, fun _ => h.hasSafety⟩

/-- In every run of an engine with a safety worker in which no safety wake is accepted while a
normal worker runs the task and no push into the safety queue is refused: a task that is idle,
not canceled and has the safety bit has an entry in the safety queue, or an activity is about to
push one there, unless the safety worker has just taken the entry to poll the task. -/
theorem safety_wake_queued (lane : Lane)
    (hrun : Reaches Sys.step SafetyWakeInTime (Sys.spawned lane true) s)
    (hidle : s.state.isIdle = true) (hcanceled : s.state.isCanceled = false)
    (hsafety : s.state.isSafetyNotified = true) (htaken : ∀ t, ¬ Takes .safety (s.pc t)) :
    0 < s.entries .safety ∨ ∃ t, PushesTo .safety (s.pc t) := by
  have hok : SafetyOk s := by
    refine hrun.invariant (I := SafetyOk) ?_ fun s a s' h hguard hstep =>
      h.step hguard (effect_of_step hstep)
    exact
      { runner := runnerOk_spawned lane true
        clear := fun _ hruns => hruns.elim
        hasSafety := rfl
        owed := fun _ _ hbit => absurd (show new.isSafetyNotified = true from hbit) (by decide) }
  obtain ⟨_, rfl, howed⟩ := hok.owed hidle hcanceled hsafety
  refine howed.imp_right ?_
  rintro ⟨t, hanswers⟩
  exact ⟨t, hanswers.resolve_right (htaken t)⟩

end Steps

/-! ### Runs -/

instance (lane : Lane) (pc : Pc) : Decidable (RunsOn lane pc) := by
  unfold RunsOn
  split <;> infer_instance

instance (lane : Lane) (pc : Pc) : Decidable (PushesTo lane pc) :=
  inferInstanceAs (Decidable (_ ∨ _))

instance (s : Sys (Fin 2)) : (a : Action (Fin 2)) → Decidable (SafetyWakeInTime s a)
  | .advance _ => inferInstanceAs (Decidable (_ → _ → _))
  | .push _ _ => inferInstanceAs (Decidable (_ → _))
  | .wake _ | .wakeSafety _ | .abort _ | .attach _ | .pop _ _ | .poll _ _ | .takeResult =>
      .isTrue trivial

/-- A safety wake of an idle task puts it into the safety queue. -/
theorem safety_wake_queued_idle :
    ∃ s : Sys (Fin 2), Reaches Sys.step SafetyWakeInTime (Sys.spawned .normal true) s ∧
      s.state.isSafetyNotified = true ∧
      (0 < s.entries .safety ∨ ∃ t, PushesTo .safety (s.pc t)) := by
  obtain ⟨s, hrun, hidle, hcanceled, hsafety, hpcs⟩ : ∃ s : Sys (Fin 2),
      Reaches Sys.step SafetyWakeInTime (Sys.spawned .normal true) s ∧
        s.state.isIdle = true ∧ s.state.isCanceled = false ∧ s.state.isSafetyNotified = true ∧
        ∀ t, s.pc t = .idle :=
    exists_reaches (firstPoll 0 ++ [Action.wakeSafety 1, .advance 1, .advance 1, .push 1 true])
      (by decide +kernel)
  refine ⟨s, hrun, hsafety, safety_wake_queued .normal hrun hidle hcanceled hsafety ?_⟩
  rintro t ⟨val, hpc, -⟩
  rw [hpcs t] at hpc
  cases hpc

/-- The task runs on a normal worker when the safety wake is accepted. Its future returns
`Pending`, and the worker pushes the task back into its own queue. The task is idle with the
safety bit, every call has returned, and the safety queue is empty. -/
theorem safety_wake_in_normal_queue :
    ∃ s : Sys (Fin 2), Reaches Sys.step anyStep (Sys.spawned .normal true) s ∧
      s.state.isIdle = true ∧ s.state.isCanceled = false ∧ s.state.isSafetyNotified = true ∧
      s.entries .safety = 0 ∧ ∀ t, s.pc t = .idle :=
  exists_reaches ([Action.pop 0 .normal, .advance 0, .advance 0, .advance 0]
    ++ [Action.wakeSafety 1, .advance 1, .advance 1]
    ++ [Action.poll 0 false, .advance 0, .advance 0, .push 0 true]) (by decide +kernel)

end Kyron.Proofs.Task
