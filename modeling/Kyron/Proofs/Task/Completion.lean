import Kyron.Proofs.Task.Ownership

/-!
# `Kyron.Proofs.Task.Completion`: the word and the stage of a completed task

A task is completed by one exchange, of a worker that has the result in the stage. From then on
the word is `TASK_STATE_COMPLETED` and nobody writes it, and the stage changes only when the
result is taken. Until then the bit of the join handle is set by `set_waker` and never cleared.
-/

set_option autoImplicit false

namespace Kyron.Proofs.Task

open Kyron.Task

variable {T : Type} [DecidableEq T] {s s' : Sys T} {a : Action T}

theorem hasJoinHandle_eq (v : TaskStateSnapshot) : v.hasJoinHandle = flag 4 v :=
  and_beq_mask (by decide) (by decide)

omit [DecidableEq T] in
theorem RunnerOk.phase_completed (hok : RunnerOk s) (hc : s.state.isCompleted = true) :
    InPhase .completed s.state := by
  obtain ⟨p, hphase⟩ := hok.phase
  have hp : p = .completed := of_decide_eq_true (by rw [← hphase.completed]; exact hc)
  exact hp ▸ hphase

/-- A completed task keeps its word. -/
theorem state_of_completed (hok : RunnerOk s) (heff : Effect s a s')
    (hc : s.state.isCompleted = true) : s'.state = s.state := by
  have hphase := hok.phase_completed hc
  have hrunning := hphase.running
  cases heff with
  | stores hpc hst => cases hst <;> simp_all
  | _ => rfl

theorem isCompleted_step (hok : RunnerOk s) (heff : Effect s a s')
    (hc : s.state.isCompleted = true) : s'.state.isCompleted = true := by
  rw [state_of_completed hok heff hc]
  exact hc

/-- Only `transition_to_completed` stores a completed word. -/
theorem stores_isCompleted {p : Phase} {v new : TaskStateSnapshot} {op : Op} {next : Pc}
    (hphase : InPhase p v) (hc : v.isCompleted = false) (hst : Stores v op new next)
    (hc' : new.isCompleted = true) :
    ∃ lane, op = .toCompleted lane ∧ v.isRunning = true ∧ v.isCanceled = false ∧
      new = ⟨taskStateCompleted⟩ := by
  have hp : decide (p = .completed) = false := hphase.completed ▸ hc
  cases hst with
  | toCompleted lane hr hx => exact ⟨lane, rfl, hr, hx, rfl⟩
  | schedule => cases hp.symm.trans (hphase.setNotified.completed ▸ hc')
  | scheduleSafety => cases hp.symm.trans (hphase.setSafetyNotified.completed ▸ hc')
  | abort => cases hp.symm.trans (hphase.setCanceled.completed ▸ hc')
  | setWaker => cases hp.symm.trans (hphase.setJoinHandle.completed ▸ hc')
  | toRunning lane hi =>
      have hidle : p = .idle := of_decide_eq_true (by rw [← hphase.idle]; exact hi)
      subst hidle
      cases hphase.unsetNotified.setRunning.completed.symm.trans hc'
  | toIdle lane hr =>
      have hrun : p = .running := of_decide_eq_true (by rw [← hphase.running]; exact hr)
      subst hrun
      cases hphase.setIdle.completed.symm.trans hc'

/-- A task is completed by a worker that had its result. -/
theorem completed_step (hok : RunnerOk s) (heff : Effect s a s') (hc : s.state.isCompleted = false)
    (hc' : s'.state.isCompleted = true) :
    ∃ t lane, a = .advance t ∧ s.pc t = .update (.toCompleted lane) (some s.state) ∧
      s.state.isRunning = true ∧ s.state.isCanceled = false ∧
      s'.state = ⟨taskStateCompleted⟩ ∧ s'.stage = s.stage := by
  cases heff with
  | @stores t op new next hpc hst =>
      obtain ⟨lane, rfl, hr, hx, hnew⟩ := stores_isCompleted hok.phase.choose_spec hc hst hc'
      exact ⟨t, lane, rfl, hpc, hr, hx, hnew, rfl⟩
  | _ =>
      have hsame : s.state.isCompleted = true := hc'
      rw [hc] at hsame
      cases hsame

/-- Until the task is completed the bit of the join handle is only set, and only by
`set_waker`. -/
theorem stores_hasJoinHandle {v new : TaskStateSnapshot} {op : Op} {next : Pc}
    (hst : Stores v op new next) (hc' : new.isCompleted = false) :
    new.hasJoinHandle = v.hasJoinHandle ∨ new.hasJoinHandle = true ∧ op = .setWaker := by
  cases hst with
  | toCompleted => exact absurd hc' (by decide)
  | setWaker => exact Or.inr ⟨by simp [hasJoinHandle_eq, flag_setJoinHandle], rfl⟩
  | schedule => exact Or.inl (by simp [hasJoinHandle_eq, flag_setNotified])
  | scheduleSafety => exact Or.inl (by simp [hasJoinHandle_eq, flag_setSafetyNotified])
  | abort => exact Or.inl (by simp [hasJoinHandle_eq, flag_setCanceled])
  | toRunning =>
      exact Or.inl (by simp [hasJoinHandle_eq, setRunning_eq_setIdle, flag_setIdle,
        flag_unsetNotified])
  | toIdle => exact Or.inl (by simp [hasJoinHandle_eq, flag_setIdle])

theorem hasJoinHandle_step (heff : Effect s a s') (hc' : s'.state.isCompleted = false) :
    s'.state.hasJoinHandle = s.state.hasJoinHandle ∨
      s'.state.hasJoinHandle = true ∧ ∃ t, a = .advance t ∧ InCall .setWaker (s.pc t) := by
  cases heff with
  | @stores t op new next hpc hst =>
      refine (stores_hasJoinHandle hst hc').imp_right ?_
      rintro ⟨hset, rfl⟩
      exact ⟨hset, t, rfl, _, hpc⟩
  | _ => exact Or.inl rfl

/-- The stage of a completed task changes only when its result is taken. -/
theorem stage_of_completed (hok : RunnerOk s) (hstage : StageOk s) (heff : Effect s a s')
    (hc : s.state.isCompleted = true) (hx : s.state.isCanceled = false)
    (hnot : a ≠ .takeResult) : s'.stage = s.stage := by
  cases heff with
  | clears hpc =>
      have hcan := (hstage.clears _ hpc).1
      rw [hx] at hcan
      cases hcan
  | @ready t lane hpc =>
      have hrunning := hok.running t (by rw [hpc]; exact ⟨lane, rfl⟩)
      rw [(hok.phase_completed hc).running] at hrunning
      cases hrunning
  | takes => exact absurd rfl hnot
  | _ => rfl

/-- The stage holds a result only after the future has returned it. -/
theorem stage_completed_step (heff : Effect s a s') (hnot : ∀ t, a ≠ .poll t true)
    (hstage : s'.stage = .completed) : s.stage = .completed := by
  cases heff with
  | clears | takes => cases hstage
  | ready => exact absurd rfl (hnot _)
  | _ => exact hstage

/-- The activity has found a stage that `poll_core` does not expect. -/
def StagePanic (pc : Pc) : Prop :=
  pc = .panicked .stageExtracted ∨ pc = .panicked .stageCompleted

theorem closure_error {op : Op} {v : TaskStateSnapshot} {p : Panic}
    (h : op.closure v = .error p) : ¬ StagePanic (.panicked p) := by
  have hp : p = .runningNotIdle ∨ p = .idleNotRunning ∨ p = .idleAlreadyIdle ∨
      p = .completedNotRunning ∨ p = .completedTwice := by
    cases op with
    | schedule | scheduleSafety | abort | setWaker => cases h
    | toRunning worker =>
        simp only [Op.closure, TaskState.transitionToRunning] at h
        split_ifs at h <;> cases h
        simp
    | toIdle worker =>
        simp only [Op.closure, TaskState.transitionToIdle] at h
        split_ifs at h <;> cases h <;> simp
    | toCompleted worker =>
        simp only [Op.closure, TaskState.transitionToCompleted] at h
        split_ifs at h <;> cases h <;> simp
  rintro (h | h) <;> (cases h; simp at hp)

/-- No poll finds a stage that it does not expect. -/
theorem stagePanic_step (hstage : StageOk s) (heff : Effect s a s') {t : T}
    (hpc : StagePanic (s'.pc t)) : StagePanic (s.pc t) := by
  have hold : ∀ {u : Sys T} {t' : T} {pc : Pc}, u.pc = s.pc → s'.pc = (u.goto t' pc).pc →
      ¬ StagePanic pc → StagePanic (s.pc t) := by
    intro u t' pc hu hpcs hne
    rw [hpcs] at hpc
    exact hu ▸ goto_pc_before hpc hne
  cases heff with
  | asserts _ hcl _ => exact hold rfl rfl (closure_error hcl)
  | leaves _ _ hleaves => exact hold rfl rfl (by cases hleaves <;> simp [StagePanic])
  | @stores t' op new next _ hst =>
      refine hold (u := { s with state := new, polls := _ }) rfl rfl ?_
      cases hst with
      | schedule | scheduleSafety | abort | toIdle => split <;> simp [StagePanic]
      | setWaker | toRunning | toCompleted => simp [StagePanic]
  | finds hpc' hne => exact absurd (hstage.holds _ (by rw [hpc']; trivial)) hne
  | refused _ _ hnext =>
      exact hold rfl rfl (by rcases hnext with rfl | rfl <;> simp [StagePanic])
  | call | load | looks | pending => exact hold rfl rfl (by simp [StagePanic])
  | pop => exact hold (u := s.dequeue _) rfl rfl (by simp [StagePanic])
  | clears => exact hold (u := { s with stage := .extracted }) rfl rfl (by simp [StagePanic])
  | ready => exact hold (u := { s with stage := .completed }) rfl rfl (by simp [StagePanic])
  | pushes => exact hold (u := s.enqueue _) rfl rfl (by simp [StagePanic])
  | takes | noResult => exact hpc

end Kyron.Proofs.Task
