import Kyron.Proofs.Task.AsyncTask
import Kyron.Proofs.Task.Runner
import Kyron.Task.Ownership

/-!
# `Kyron.Proofs.Task.Ownership`: abort and execution agree on who owns the future

The stage of a task is not guarded by a lock. Who may touch it follows from the state word.

* The worker that runs the task owns the stage: `abort` leaves it alone while the running bit is
  set.
* An `abort` that cancels an idle task owns it: a canceled task is never run again.
* A worker that finds its task canceled at the end of a run owns it: it was the only runner.
* The join handle owns it once the task is completed.

`StageOk` is this, as an invariant of all runs, also of those in which a task is in both queues.
`future_owned_once` reads off what the callers see.
-/

set_option autoImplicit false

namespace Kyron.Proofs.Task

open Kyron.Lib
open Kyron.Task

variable {T : Type}

/-- The worker has not yet given the future back: it polls, or the future returned `Pending`. -/
def HoldsFuture : Pc → Prop
  | .polling _ | .inFuture _ | .update (.toIdle _) _ => True
  | _ => False

/-- The future of the worker has returned `Ready`. -/
def HasResult : Pc → Prop
  | .update (.toCompleted _) _ => True
  | _ => False

theorem runs_iff {pc : Pc} : Runs pc ↔ HoldsFuture pc ∨ HasResult pc := by
  unfold Runs RunsOn HoldsFuture HasResult
  split <;> simp

structure StageOk (s : Sys T) : Prop where
  holds : ∀ t, HoldsFuture (s.pc t) → s.stage = .inProgress
  result : ∀ t, HasResult (s.pc t) → s.stage = .completed
  idle : s.state.isIdle = true → s.state.isCanceled = false → s.stage = .inProgress
  running : s.state.isRunning = true → s.state.isCanceled = false → ∃ t, Runs (s.pc t)
  completed : s.state.isCompleted = true → s.stage ≠ .inProgress
  clears : ∀ t, s.pc t = .clearStage → s.state.isCanceled = true ∧ ∀ t', ¬ Runs (s.pc t')
  canceled : s.state.isCanceled = true → s.stage = .inProgress →
    ∃ t, Runs (s.pc t) ∨ s.pc t = .clearStage

theorem stageOk_spawned (lane : Lane) (hasSafety : Bool) :
    StageOk (Sys.spawned lane hasSafety : Sys T) where
  holds := fun _ _ => rfl
  result := fun _ h => h.elim
  idle := fun _ _ => rfl
  running := fun h => absurd (show TaskStateSnapshot.new.isRunning = true from h) (by decide)
  completed := fun h => absurd (show TaskStateSnapshot.new.isCompleted = true from h) (by decide)
  clears := fun _ h => nomatch h
  canceled := fun h => absurd (show TaskStateSnapshot.new.isCanceled = true from h) (by decide)

/-- No assertion fails at the end of a run: the runner has read a running word. -/
theorem RunnerOk.not_runs_of_asserts {s : Sys T} (h : RunnerOk s) {t : T} {op : Op}
    {v : TaskStateSnapshot} (hpc : s.pc t = .update op (some v)) (hasserts : Asserts v op) :
    ¬ Runs (s.pc t) := by
  rw [hpc]
  intro hruns
  have hact := h.activity t
  rw [hpc] at hact
  obtain ⟨hread, hrunning⟩ := hact v rfl
  obtain ⟨p, hphase⟩ := hread.phase
  have hidle := hphase.idle
  have hprunning := hphase.running
  have hcompleted := hphase.completed
  cases hasserts with
  | toRunning => exact hruns.elim fun _ hout => hout.elim
  | toIdle | toCompleted => simp_all

section Steps

variable [DecidableEq T] {s s' : Sys T} {t : T} {pc : Pc}

/-- Who is in a place is still there after another activity has moved, and the one that moves may
take its place along. -/
theorem exists_goto {P : Pc → Prop} {u : Sys T} (h : ∃ t', P (u.pc t'))
    (hself : P (u.pc t) → P pc) : ∃ t', P ((u.goto t pc).pc t') := by
  obtain ⟨t', ht'⟩ := h
  by_cases heq : t' = t
  · subst heq
    exact ⟨t', by rw [goto_pc_self]; exact hself ht'⟩
  · exact ⟨t', by rwa [goto_pc_other heq]⟩

/-- One activity moves in its run, or outside of all runs, and does not touch the stage. -/
theorem StageOk.goto (h : StageOk s) (hholds : HoldsFuture pc ↔ HoldsFuture (s.pc t))
    (hresult : HasResult pc ↔ HasResult (s.pc t)) (hclears : pc ≠ .clearStage)
    (hclears' : s.pc t ≠ .clearStage) : StageOk (s.goto t pc) := by
  have hruns : Runs pc ↔ Runs (s.pc t) := by rw [runs_iff, runs_iff, hholds, hresult]
  constructor
  case holds =>
    intro t' hpc
    rcases goto_pc_cases hpc with ⟨-, hself⟩ | hother
    · exact h.holds t (hholds.mp hself)
    · exact h.holds t' hother
  case result =>
    intro t' hpc
    rcases goto_pc_cases hpc with ⟨-, hself⟩ | hother
    · exact h.result t (hresult.mp hself)
    · exact h.result t' hother
  case idle => exact h.idle
  case running => exact fun hr hx => exists_goto (h.running hr hx) hruns.mpr
  case completed => exact h.completed
  case clears =>
    intro t' hpc
    obtain ⟨hx, hnone⟩ := h.clears t'
      (goto_pc_before (P := (· = .clearStage)) hpc hclears)
    refine ⟨hx, fun t'' hrun => ?_⟩
    rcases goto_pc_cases hrun with ⟨-, hself⟩ | hother
    · exact hnone t (hruns.mp hself)
    · exact hnone t'' hother
  case canceled =>
    intro hx hstage
    refine exists_goto (P := fun pc => Runs pc ∨ pc = .clearStage) (h.canceled hx hstage) ?_
    rintro (hrun | hclear)
    · exact Or.inl (hruns.mpr hrun)
    · exact absurd hclear hclears'

/-- An activity that does not run the task moves to a place outside of all runs. -/
theorem StageOk.leave (h : StageOk s) (hbefore : ¬ Runs (s.pc t)) (hafter : ¬ Runs pc)
    (hclears : pc ≠ .clearStage) (hclears' : s.pc t ≠ .clearStage) : StageOk (s.goto t pc) := by
  rw [runs_iff, not_or] at hbefore hafter
  exact h.goto (iff_of_false hafter.1 hbefore.1) (iff_of_false hafter.2 hbefore.2) hclears hclears'

omit [DecidableEq T] in
/-- The word changes, but neither its phase nor whether it is canceled. -/
theorem StageOk.setState (h : StageOk s) {p : Phase} {new : TaskStateSnapshot} {n : Nat}
    (hphase : InPhase p s.state) (hnew : InPhase p new)
    (hx : new.isCanceled = s.state.isCanceled) :
    StageOk { s with state := new, polls := n } where
  holds := h.holds
  result := h.result
  idle := by
    change new.isIdle = true → new.isCanceled = false → _
    rw [hnew.idle, ← hphase.idle, hx]
    exact h.idle
  running := by
    change new.isRunning = true → new.isCanceled = false → _
    rw [hnew.running, ← hphase.running, hx]
    exact h.running
  completed := by
    change new.isCompleted = true → _
    rw [hnew.completed, ← hphase.completed]
    exact h.completed
  clears := by
    change ∀ t, _ → new.isCanceled = true ∧ _
    rw [hx]
    exact h.clears
  canceled := by
    change new.isCanceled = true → _
    rw [hx]
    exact h.canceled

omit [DecidableEq T] in
/-- A task that is not canceled has nobody in `clear_stage`. -/
theorem StageOk.not_clears (h : StageOk s) (hx : s.state.isCanceled = false) (t : T) :
    s.pc t ≠ .clearStage := by
  intro hpc
  rw [(h.clears t hpc).1] at hx
  cases hx

omit [DecidableEq T] in
/-- A run has ended in a task that is not canceled. -/
theorem stageOk_of_end {p : Phase} (hphase : InPhase p s.state) (hx : s.state.isCanceled = false)
    (hnone : ∀ t, ¬ Runs (s.pc t)) (hclears : ∀ t, s.pc t ≠ .clearStage)
    (hstage : p = .idle ∧ s.stage = .inProgress ∨ p = .completed ∧ s.stage ≠ .inProgress) :
    StageOk s := by
  have hidle := hphase.idle
  have hrunning := hphase.running
  have hcompleted := hphase.completed
  refine ⟨fun t hpc => ?_, fun t hpc => ?_, ?_, ?_, ?_, fun t hpc => ?_, ?_⟩
  · exact absurd (runs_iff.mpr (Or.inl hpc)) (hnone t)
  · exact absurd (runs_iff.mpr (Or.inr hpc)) (hnone t)
  · rcases hstage with ⟨rfl, hstage⟩ | ⟨rfl, hstage⟩ <;> simp_all
  · rcases hstage with ⟨rfl, hstage⟩ | ⟨rfl, hstage⟩ <;> simp_all
  · rcases hstage with ⟨rfl, hstage⟩ | ⟨rfl, hstage⟩ <;> simp_all
  · exact absurd hpc (hclears t)
  · simp [hx]

/-- The exchange of `abort`. A runner keeps the stage, and without one `abort` takes it. -/
theorem StageOk.abort (h : StageOk s) (hok : RunnerOk s) {n : Nat} {val : Option TaskStateSnapshot}
    (hpc : s.pc t = .update .abort val) (hx : s.state.isCanceled = false) :
    StageOk ({ s with state := s.state.setCanceled, polls := n }.goto t
      (if s.state.isRunning then .idle else .clearStage)) := by
  obtain ⟨p, hphase⟩ := hok.phase
  have hcompleted : s.state.setCanceled.isCompleted = s.state.isCompleted := by
    rw [hphase.setCanceled.completed, hphase.completed]
  have hself : ¬ Runs (s.pc t) := by
    rw [hpc]
    exact fun hruns => hruns.elim fun _ hout => hout.elim
  set pc := if s.state.isRunning then Pc.idle else .clearStage with hnext
  have hout : ¬ Runs pc := by
    rw [hnext]
    split <;> exact fun hruns => hruns.elim fun _ hout => hout.elim
  -- Who runs the task after the exchange ran it before.
  have hold : ∀ t', Runs ((({ s with state := s.state.setCanceled, polls := n } : Sys T).goto t
      pc).pc t') → Runs (s.pc t') := fun t' hrun =>
    goto_pc_before hrun hout
  constructor
  case holds =>
    intro t' hpc'
    have hrun := hold t' (runs_iff.mpr (Or.inl hpc'))
    rcases goto_pc_cases hpc' with ⟨rfl, -⟩ | hother
    · exact absurd hrun hself
    · exact h.holds t' hother
  case result =>
    intro t' hpc'
    have hrun := hold t' (runs_iff.mpr (Or.inr hpc'))
    rcases goto_pc_cases hpc' with ⟨rfl, -⟩ | hother
    · exact absurd hrun hself
    · exact h.result t' hother
  case idle => simp [Sys.goto]
  case running => simp [Sys.goto]
  case completed =>
    intro hdone
    have hdone : s.state.setCanceled.isCompleted = true := hdone
    rw [hcompleted] at hdone
    exact h.completed hdone
  case clears =>
    intro t' hclear
    refine ⟨by simp [Sys.goto], fun t'' hrun => ?_⟩
    -- Somebody is in `clear_stage`, so it is this call, and nobody ran the task.
    rcases goto_pc_cases (P := (· = .clearStage)) hclear with ⟨-, hthis⟩ | hother
    · have hrunning := hok.running t'' (hold t'' hrun)
      rw [hnext, if_pos hrunning] at hthis
      cases hthis
    · exact h.not_clears hx t' hother
  case canceled =>
    intro _ _
    by_cases hrunning : s.state.isRunning = true
    · exact exists_goto (P := fun pc => Runs pc ∨ pc = .clearStage)
        ((h.running hrunning hx).imp fun _ => Or.inl)
        fun hthis => absurd (hthis.resolve_right (by simp [hpc])) hself
    · refine ⟨t, Or.inr ?_⟩
      rw [goto_pc_self, hnext, if_neg hrunning]

/-- A successful exchange. -/
theorem StageOk.stores (h : StageOk s) (hok : RunnerOk s) {op : Op} {new : TaskStateSnapshot}
    {next : Pc} {n : Nat} (hpc : s.pc t = .update op (some s.state))
    (hst : Stores s.state op new next) :
    StageOk ({ s with state := new, polls := n }.goto t next) := by
  obtain ⟨p, hphase⟩ := hok.phase
  have hok' : RunnerOk ({ s with state := new, polls := n }.goto t next) :=
    hok.stores hpc hst rfl rfl
  -- Nobody is in `clear_stage`, because the task is not canceled.
  have hclears : ∀ (pc : Pc) t', s.state.isCanceled = false → pc ≠ .clearStage →
      ((({ s with state := new, polls := n } : Sys T).goto t pc).pc t') ≠ .clearStage := by
    intro pc t' hx hne hpc'
    exact h.not_clears hx t' (goto_pc_before (P := (· = .clearStage)) hpc' hne)
  cases hst with
  | schedule hc hn hx =>
      have hset := h.setState (n := n) hphase hphase.setNotified (by simp)
      split <;> exact hset.leave (by simp [hpc, Runs, RunsOn]) (by simp [Runs, RunsOn])
        (by simp) (by simp [hpc])
  | scheduleSafety hc hx =>
      have hset := h.setState (n := n) hphase hphase.setSafetyNotified (by simp)
      split <;> exact hset.leave (by simp [hpc, Runs, RunsOn]) (by simp [Runs, RunsOn])
        (by simp) (by simp [hpc])
  | abort hc hx => exact h.abort hok hpc hx
  | setWaker hc hx =>
      have hset := h.setState (n := n) hphase hphase.setJoinHandle (by simp)
      exact hset.leave (by simp [hpc, Runs, RunsOn]) (by simp [Runs, RunsOn]) (by simp)
        (by simp [hpc])
  | toRunning worker hi hr hc hx =>
      have hp : p = .idle := of_decide_eq_true (by rw [← hphase.idle]; exact hi)
      subst hp
      have hnew := hphase.unsetNotified.setRunning
      constructor
      case holds => exact fun _ _ => h.idle hi hx
      case result =>
        intro t' hpc'
        exact h.result t' (goto_pc_before hpc' id)
      case idle =>
        intro hidle
        cases hnew.idle.symm.trans hidle
      case running => exact fun _ _ => ⟨t, by rw [goto_pc_self]; exact ⟨worker, rfl⟩⟩
      case completed =>
        intro hdone
        cases hnew.completed.symm.trans hdone
      case clears => exact fun t' hclear => absurd hclear (hclears _ t' hx (by simp))
      case canceled =>
        intro hcan
        simp [Sys.goto, setRunning_eq_setIdle, hx] at hcan
  | toIdle worker hr hx =>
      have hp : p = .running := of_decide_eq_true (by rw [← hphase.running]; exact hr)
      subst hp
      refine stageOk_of_end hphase.setIdle (by simpa [Sys.goto] using hx) ?_ ?_
        (Or.inl ⟨rfl, h.holds t (by rw [hpc]; trivial)⟩)
      · intro t' hrun
        cases hphase.setIdle.running.symm.trans (hok'.running t' hrun)
      · intro t'
        refine hclears _ t' hx ?_
        split <;> simp
  | toCompleted worker hr hx =>
      have hcan : (⟨taskStateCompleted⟩ : TaskStateSnapshot).isCanceled = false := by decide
      refine stageOk_of_end inPhase_completed hcan ?_ ?_ (Or.inr ⟨rfl, ?_⟩)
      · intro t' hrun
        cases inPhase_completed.running.symm.trans (hok'.running t' hrun)
      · exact fun t' => hclears _ t' hx (by simp)
      · have hstage := h.result t (by rw [hpc]; trivial)
        simp [Sys.goto, hstage]

/-- A closure that leaves the word: a runner that finds its task canceled goes to `clear_stage`,
and nobody else runs the task. -/
theorem StageOk.leaves (h : StageOk s) (hok : RunnerOk s) {op : Op} {v : TaskStateSnapshot}
    {next : Pc} (hpc : s.pc t = .update op (some v)) (hcl : op.closure v = .ok (none, next))
    (hleaves : Leaves v op next) : StageOk (s.goto t next) := by
  have hout := hok.not_runs_of_leaves hpc hcl hleaves
  by_cases hruns : Runs (s.pc t)
  · have hclears : next = .clearStage ∧ v.isCanceled = true := by
      rw [hpc] at hruns
      obtain ⟨lane, hlane⟩ := hruns
      cases hleaves with
      | idleAborted _ hx | completedAborted _ hx => exact ⟨rfl, hx⟩
      | _ => exact hlane.elim
    obtain ⟨rfl, hv⟩ := hclears
    have hact := hok.activity t
    rw [hpc] at hact
    have hx : s.state.isCanceled = true := (hact v rfl).1.canceled hv
    have hnone : ∀ t', ¬ Runs ((s.goto t .clearStage).pc t') := by
      intro t' hrun
      rcases goto_pc_cases hrun with ⟨-, hthis⟩ | hother
      · exact hout hthis
      · have ht := hok.unique t' t hother hruns
        rw [ht, goto_pc_self] at hrun
        exact hout hrun
    exact
      { holds := fun t' hpc' => absurd (runs_iff.mpr (Or.inl hpc')) (hnone t')
        result := fun t' hpc' => absurd (runs_iff.mpr (Or.inr hpc')) (hnone t')
        idle := h.idle
        running := fun _ hnot => by simp [Sys.goto, hx] at hnot
        completed := h.completed
        clears := fun _ _ => ⟨hx, hnone⟩
        canceled := fun _ _ => ⟨t, Or.inr (goto_pc_self ..)⟩ }
  · refine h.leave hruns hout ?_ (by simp [hpc])
    rintro rfl
    refine hruns ?_
    rw [hpc]
    cases hleaves with
    | idleAborted worker | completedAborted worker => exact ⟨worker, rfl⟩

omit [DecidableEq T] in
/-- The entries of the queues do not matter. -/
theorem StageOk.setEntries (h : StageOk s) (entries : Lane → Nat) : StageOk { s with entries } :=
  ⟨h.holds, h.result, h.idle, h.running, h.completed, h.clears, h.canceled⟩

omit [DecidableEq T] in
/-- The future is gone from a task that nobody runs any more. -/
theorem stageOk_of_gone (hstage : s.stage ≠ .inProgress) (hnone : ∀ t, ¬ Runs (s.pc t))
    (hidle : s.state.isIdle = true → s.state.isCanceled = true)
    (hrunning : s.state.isRunning = true → s.state.isCanceled = true)
    (hclears : ∀ t, s.pc t = .clearStage → s.state.isCanceled = true) : StageOk s where
  holds := fun t hpc => absurd (runs_iff.mpr (Or.inl hpc)) (hnone t)
  result := fun t hpc => absurd (runs_iff.mpr (Or.inr hpc)) (hnone t)
  idle := fun hi hx => by simp [hidle hi] at hx
  running := fun hr hx => by simp [hrunning hr] at hx
  completed := fun _ => hstage
  clears := fun t hpc => ⟨hclears t hpc, hnone⟩
  canceled := fun _ hin => absurd hin hstage

/-- The future of the only runner returns `Ready`, and its result takes its place. -/
theorem StageOk.ready (h : StageOk s) (hok : RunnerOk s) {lane : Lane}
    (hpc : s.pc t = .inFuture lane) :
    StageOk ({ s with stage := .completed }.goto t (.update (.toCompleted lane) none)) := by
  have hruns : Runs (s.pc t) := by
    rw [hpc]
    exact ⟨lane, rfl⟩
  obtain ⟨p, hphase⟩ := hok.phase
  have hp : p = .running := of_decide_eq_true (by rw [← hphase.running]; exact hok.running t hruns)
  subst hp
  constructor
  case holds =>
    intro t' hpc'
    rcases goto_pc_cases hpc' with ⟨-, hthis⟩ | hother
    · exact hthis.elim
    · rw [hok.unique t' t (runs_iff.mpr (Or.inl hother)) hruns, goto_pc_self] at hpc'
      exact hpc'.elim
  case result => exact fun _ _ => rfl
  case idle => exact fun hi => nomatch hphase.idle.symm.trans hi
  case running => exact fun _ _ => ⟨t, by rw [goto_pc_self]; exact ⟨lane, rfl⟩⟩
  case completed => exact fun hdone => nomatch hphase.completed.symm.trans hdone
  case clears =>
    intro t' hclear
    have hbefore := goto_pc_before (P := (· = .clearStage)) hclear (by simp)
    exact absurd hruns ((h.clears t' hbefore).2 t)
  case canceled => exact fun _ hin => nomatch hin

/-- Every step keeps the invariant. -/
theorem StageOk.step (h : StageOk s) (hok : RunnerOk s) {a : Action T} (heff : Effect s a s') :
    StageOk s' := by
  have hidle_out : ∀ {t : T}, s.pc t = .idle → ¬ Runs (s.pc t) := by
    rintro t hpc hruns
    rw [hpc] at hruns
    exact hruns.elim fun _ hout => hout.elim
  cases heff with
  | @call _ t op hcall hidle =>
      refine h.leave (hidle_out hidle) ?_ (by simp) (by simp [hidle])
      cases a <;> cases hcall <;> simp [Runs, RunsOn]
  | pop hidle hentry =>
      exact (h.setEntries _).leave (hidle_out hidle) (by simp [Runs, RunsOn]) (by simp)
        (by simp [hidle])
  | @load t op val hpc =>
      refine h.goto ?_ ?_ (by simp) (by simp [hpc])
      · rw [hpc]
        cases op <;> rfl
      · rw [hpc]
        cases op <;> rfl
  | asserts hpc _ hasserts =>
      exact h.leave (hok.not_runs_of_asserts hpc hasserts) (by simp [Runs, RunsOn]) (by simp)
        (by simp [hpc])
  | leaves hpc hcl hleaves => exact h.leaves hok hpc hcl hleaves
  | stores hpc hst => exact h.stores hok hpc hst
  | looks hpc hstage =>
      exact h.goto (by rw [hpc]; rfl) (by rw [hpc]; rfl) (by simp) (by simp [hpc])
  | finds hpc hstage => exact absurd (h.holds _ (by rw [hpc]; trivial)) hstage
  | @clears t hpc =>
      obtain ⟨hx, hnone⟩ := h.clears t hpc
      refine stageOk_of_gone (by simp [Sys.goto]) (fun t' hrun => ?_) (fun _ => hx) (fun _ => hx)
        fun _ _ => hx
      rcases goto_pc_cases hrun with ⟨-, hthis⟩ | hother
      · exact hthis.elim fun _ hout => hout.elim
      · exact hnone t' hother
  | pending hpc =>
      exact h.goto (by rw [hpc]; rfl) (by rw [hpc]; rfl) (by simp) (by simp [hpc])
  | ready hpc => exact h.ready hok hpc
  | @pushes t lane hpc =>
      refine (h.setEntries _).leave (t := t) ?_ (by simp [Runs, RunsOn]) (by simp) ?_ <;>
        rcases hpc with hpc | hpc <;> simp [hpc, Runs, RunsOn]
  | @refused t lane fits pc hpc hfits hnext =>
      refine h.leave ?_ ?_ ?_ ?_
      · rcases hpc with hpc | hpc <;> simp [hpc, Runs, RunsOn]
      · rcases hnext with rfl | rfl <;> simp [Runs, RunsOn]
      · rcases hnext with rfl | rfl <;> simp
      · rcases hpc with hpc | hpc <;> simp [hpc]
  | takes hcompleted hcanceled =>
      -- The task is completed, so nobody runs it.
      obtain ⟨p, hphase⟩ := hok.phase
      have hp : p = .completed :=
        of_decide_eq_true (by rw [← hphase.completed]; exact hcompleted)
      subst hp
      refine stageOk_of_gone (by simp) (fun t hrun => ?_) (fun hi => ?_) (fun hr => ?_)
        fun t hpc => (h.clears t hpc).1
      · cases hphase.running.symm.trans (hok.running t hrun)
      · cases hphase.idle.symm.trans hi
      · cases hphase.running.symm.trans hr
  | noResult => exact h

/-- A canceled task keeps its word. -/
theorem state_of_canceled (hok : RunnerOk s) {a : Action T} (heff : Effect s a s')
    (hx : s.state.isCanceled = true) : s'.state = s.state := by
  cases heff with
  | stores hpc hst =>
      have hnot := (stores_phase (s := s) hok.phase.choose_spec hst).1.1
      rw [hx] at hnot
      cases hnot
  | _ => rfl

end Steps

/-! ### What the callers see -/

/-- What holds of the last call of `abort` by an activity. -/
structure AbortOk (s : Owned T) (t : T) : Prop where
  inside : s.inAbort t = true → s.answer t = none ∧
    (s.moved t = false ∧ InCall .abort (s.sys.pc t) ∨
      s.moved t = true ∧ s.sys.pc t = .clearStage ∧ s.sys.state.isCanceled = true ∧
        s.sys.state.isRunning = false)
  outside : s.inAbort t = false → ¬ InCall .abort (s.sys.pc t)
  answered : ∀ b, s.answer t = some b → (b = true ↔ s.moved t = true)

structure OwnedOk (s : Owned T) : Prop where
  runner : RunnerOk s.sys
  stage : StageOk s.sys
  drops : s.drops = if s.sys.stage = .inProgress then 0 else 1
  ready : s.ready = true → s.sys.stage ≠ .inProgress
  aborted : s.aborted = true →
    s.sys.state.isCanceled = true ∧ s.sys.state.isRunning = false
  abort : ∀ t, AbortOk s t

section Owned

variable [DecidableEq T] {s s' : Owned T} {next : Sys T} {a : Action T} {t : T}

/-- The stage never holds a future again. -/
theorem stage_step {u u' : Sys T} (heff : Effect u a u') (hstage : u.stage ≠ .inProgress) :
    u'.stage ≠ .inProgress := by
  cases heff with
  | clears | ready | takes => exact fun h => nomatch h
  | _ => exact hstage

/-- The recorded drops: one for the step that replaces the stage that held the future. -/
theorem countDrop_eq (h : OwnedOk s) (heff : Effect s.sys a next) :
    (s.countDrop next).drops = if next.stage = .inProgress then 0 else 1 := by
  unfold Owned.countDrop
  by_cases hstage : s.sys.stage = .inProgress
  · have hzero : s.drops = 0 := by rw [h.drops, if_pos hstage]
    by_cases hnext : next.stage = .inProgress <;> simp [hstage, hnext, hzero]
  · have hnext := stage_step heff hstage
    have hone : s.drops = 1 := by rw [h.drops, if_neg hstage]
    simp [hstage, hnext, hone]

omit [DecidableEq T] in
/-- A call of `abort` that is in progress goes on only in its own steps. -/
theorem AbortOk.frame (h : AbortOk s t) {s' : Owned T} (hpc : s'.sys.pc t = s.sys.pc t)
    (hstate : s.sys.state.isCanceled = true → s'.sys.state = s.sys.state)
    (hin : s'.inAbort t = s.inAbort t) (hmoved : s'.moved t = s.moved t)
    (hanswer : s'.answer t = s.answer t) : AbortOk s' t where
  inside := by
    rw [hin, hanswer, hmoved, hpc]
    intro hinside
    obtain ⟨hnone, hplace⟩ := h.inside hinside
    refine ⟨hnone, hplace.imp_right ?_⟩
    rintro ⟨hm, hclear, hx, hr⟩
    rw [hstate hx]
    exact ⟨hm, hclear, hx, hr⟩
  outside := by
    rw [hin, hpc]
    exact h.outside
  answered := by
    rw [hanswer, hmoved]
    exact h.answered

omit [DecidableEq T] in
theorem countDrop_rest (s : Owned T) (next : Sys T) :
    ∃ n, s.countDrop next = { s with drops := n } := by
  unfold Owned.countDrop
  split
  · exact ⟨_, rfl⟩
  · exact ⟨_, rfl⟩

theorem movesToCanceled_goto (u : Sys T) (t : T) (pc : Pc) :
    Owned.movesToCanceled u (u.goto t pc) = false := by
  unfold Owned.movesToCanceled Sys.goto
  cases u.state.isCanceled <;> simp

/-- A call of `abort` ends. It must have moved the task exactly when it comes from `clear_stage`. -/
theorem abortOk_ended (hidle : next.pc t = .idle)
    (hmoved : s.sys.pc t = .clearStage ↔
      (s.moved t || Owned.movesToCanceled s.sys next) = true) :
    AbortOk { s.stepAbort t next with sys := next } t := by
  refine ⟨?_, fun _ => ?_, fun b hb => ?_⟩
  · simp [Owned.stepAbort, hidle]
  · rintro ⟨val, hpc⟩
    rw [hidle] at hpc
    cases hpc
  · simp only [Owned.stepAbort, if_pos hidle, Function.update_self, Option.some.injEq] at hb ⊢
    rw [← hb, decide_eq_true_iff]
    exact hmoved

/-- A call of `abort` goes on. -/
theorem abortOk_continues (hbusy : next.pc t ≠ .idle) (hin : s.inAbort t = true)
    (hnone : s.answer t = none)
    (hplace : (s.moved t || Owned.movesToCanceled s.sys next) = false ∧ InCall .abort (next.pc t) ∨
      (s.moved t || Owned.movesToCanceled s.sys next) = true ∧ next.pc t = .clearStage ∧
        next.state.isCanceled = true ∧ next.state.isRunning = false) :
    AbortOk { s.stepAbort t next with sys := next } t := by
  refine ⟨fun _ => ?_, fun hout => ?_, fun b hb => ?_⟩
  · simp only [Owned.stepAbort, if_neg hbusy, Function.update_self]
    exact ⟨hnone, hplace⟩
  · simp [Owned.stepAbort, hbusy, hin] at hout
  · simp [Owned.stepAbort, hbusy, hnone] at hb

/-- A step inside a call of `abort`. -/
theorem AbortOk.advance (h : AbortOk s t) (hok : RunnerOk s.sys) (hin : s.inAbort t = true)
    (heff : Effect s.sys (.advance t) next) :
    AbortOk { s.stepAbort t next with sys := next } t := by
  obtain ⟨hnone, hplace⟩ := h.inside hin
  rcases hplace with ⟨hmoved, val, hpc⟩ | ⟨hmoved, hpc, hx, hr⟩
  · -- In `transition_to_canceled`.
    rcases heff.update hpc with rfl | ⟨v, p, rfl, hasserts, -⟩ | ⟨v, pc, rfl, -, hleaves, rfl⟩ |
      ⟨new, pc, rfl, hst, rfl⟩
    · -- The word is read, for the first time or again.
      refine abortOk_continues (by simp [goto_pc_self]) hin hnone (Or.inl ⟨?_, ?_⟩)
      · rw [hmoved, movesToCanceled_goto]
        rfl
      · exact ⟨_, goto_pc_self ..⟩
    · cases hasserts
    · cases hleaves
      refine abortOk_ended (goto_pc_self ..) ?_
      rw [hpc, hmoved, movesToCanceled_goto]
      simp
    · cases hst with
      | abort hc hx =>
          by_cases hr : s.sys.state.isRunning = true
          · -- The worker that runs the task will drop the future.
            refine abortOk_ended (by rw [goto_pc_self, if_pos hr]) ?_
            rw [hpc, hmoved]
            simp [Owned.movesToCanceled, hr]
          · obtain ⟨p, hphase⟩ := hok.phase
            have hrunning : s.sys.state.setCanceled.isRunning = s.sys.state.isRunning := by
              rw [hphase.setCanceled.running, hphase.running]
            rw [Bool.not_eq_true] at hr
            refine abortOk_continues (by simp [goto_pc_self, hr]) hin hnone
              (Or.inr ⟨?_, ?_, ?_, ?_⟩)
            · simp [Owned.movesToCanceled, Sys.goto, hr, hx]
            · rw [goto_pc_self, if_neg (by simp [hr])]
            · simp [Sys.goto]
            · exact hrunning.trans hr
  · -- In `clear_stage`.
    rw [heff.clearStage hpc]
    refine abortOk_ended (goto_pc_self ..) ?_
    rw [hmoved]
    simp [hpc]

/-- A call of `abort` in progress makes only steps of its own. -/
theorem advance_of_inAbort {u u' : Sys T} (hpc : InCall .abort (u.pc t) ∨ u.pc t = .clearStage)
    (hactor : actor a = some t) (hstep : u.step a = some u') : a = .advance t := by
  cases a with
  | advance t' =>
      cases hactor
      rfl
  | wake t' | wakeSafety t' | abort t' | attach t' | pop t' lane | poll t' ready | push t' fits =>
      cases hactor
      rcases hpc with ⟨val, hpc⟩ | hpc <;> simp [Sys.step, Sys.push, hpc] at hstep
  | takeResult => cases hactor

/-- What is recorded of a step outside of calls of `abort`. -/
theorem record_frame (s : Owned T) (next : Sys T) (hnot : a ≠ .abort t)
    (hadvance : a = .advance t → s.inAbort t = false) :
    (s.record a next).inAbort t = s.inAbort t ∧ (s.record a next).moved t = s.moved t ∧
      (s.record a next).answer t = s.answer t := by
  cases a with
  | abort t' =>
      have ht : t ≠ t' := fun heq => hnot (by rw [heq])
      simp [Owned.record, Owned.beginAbort, ht]
  | advance t' =>
      simp only [Owned.record]
      split
      · rename_i hin
        have ht : t ≠ t' := by
          rintro rfl
          rw [hadvance rfl] at hin
          cases hin
        unfold Owned.stepAbort
        split <;> simp [ht]
      · simp
  | _ => exact ⟨rfl, rfl, rfl⟩

/-- The calls of `abort` over a step. -/
theorem AbortOk.step (h : AbortOk s t) (hok : RunnerOk s.sys) (hstep : s.sys.step a = some next) :
    AbortOk { s.record a next with sys := next } t := by
  have heff := effect_of_step hstep
  by_cases habort : a = .abort t
  · -- A new call begins.
    subst habort
    have hpc : next.pc t = .update .abort none := by
      rw [heff.begins rfl]
      exact goto_pc_self ..
    refine ⟨fun _ => ⟨?_, Or.inl ⟨?_, none, hpc⟩⟩, fun hout => ?_, fun b hb => ?_⟩
    · simp [Owned.record, Owned.beginAbort]
    · simp [Owned.record, Owned.beginAbort]
    · simp [Owned.record, Owned.beginAbort] at hout
    · simp [Owned.record, Owned.beginAbort] at hb
  by_cases hin : s.inAbort t = true
  · by_cases hadvance : a = .advance t
    · subst hadvance
      rw [Owned.record, if_pos hin]
      exact h.advance hok hin heff
    · -- Another activity moves.
      have hactor : actor a ≠ some t := fun hactor => hadvance (advance_of_inAbort
        ((h.inside hin).2.imp And.right fun hright => hright.2.1) hactor hstep)
      obtain ⟨hin', hmoved, hanswer⟩ :=
        record_frame s next habort fun heq => absurd heq hadvance
      exact h.frame ((step_effect hstep).2 t hactor) (state_of_canceled hok heff) hin' hmoved
        hanswer
  · rw [Bool.not_eq_true] at hin
    obtain ⟨hin', hmoved, hanswer⟩ := record_frame s next habort fun _ => hin
    refine ⟨fun hinside => ?_, fun _ hcancels => ?_, fun b hb => ?_⟩
    · have hinside : (s.record a next).inAbort t = true := hinside
      rw [hin', hin] at hinside
      cases hinside
    · rcases inCall_step (by simp) heff hcancels with hbefore | hbegins
      · exact h.outside hin hbefore
      · cases a <;> cases hbegins
        exact habort rfl
    · change _ ↔ (s.record a next).moved t = true
      rw [hmoved]
      exact h.answered b (hanswer.symm.trans hb)

theorem record_drops (s : Owned T) (a : Action T) (next : Sys T) :
    (s.record a next).drops = s.drops := by
  cases a with
  | advance t =>
      simp only [Owned.record, Owned.stepAbort]
      split
      · split <;> rfl
      · rfl
  | _ => rfl

/-- The record says `Ready` after it did, or when the future returns it now. -/
theorem record_ready (s : Owned T) {a : Action T} (h : (s.record a next).ready = true) :
    s.ready = true ∨ ∃ t, a = .poll t true := by
  cases a with
  | advance t =>
      simp only [Owned.record, Owned.stepAbort] at h
      split at h
      · split at h <;> exact Or.inl h
      · exact Or.inl h
  | poll t ready =>
      rcases Bool.or_eq_true_iff.mp h with hbefore | hnow
      · exact Or.inl hbefore
      · exact Or.inr ⟨t, by rw [hnow]⟩
  | _ => exact Or.inl h

/-- The record says that an `abort` answered true after it did, or when one leaves `clear_stage`. -/
theorem record_aborted (s : Owned T) {a : Action T} (h : (s.record a next).aborted = true) :
    s.aborted = true ∨ ∃ t, s.inAbort t = true ∧ s.sys.pc t = .clearStage := by
  cases a with
  | advance t =>
      simp only [Owned.record, Owned.stepAbort] at h
      split at h
      · rename_i hin
        split at h
        · rcases Bool.or_eq_true_iff.mp h with hbefore | hnow
          · exact Or.inl hbefore
          · exact Or.inr ⟨t, hin, of_decide_eq_true hnow⟩
        · exact Or.inl h
      · exact Or.inl h
  | _ => exact Or.inl h

theorem OwnedOk.step (h : OwnedOk s) (hstep : s.step a = some s') : OwnedOk s' := by
  obtain ⟨next, hnext, rfl⟩ := Option.map_eq_some_iff.mp hstep
  have heff := effect_of_step hnext
  obtain ⟨n, hcount⟩ := countDrop_rest s next
  refine
    { runner := h.runner.step heff
      stage := h.stage.step h.runner heff
      drops := ?_
      ready := fun hready => ?_
      aborted := fun haborted => ?_
      abort := fun t => ?_ }
  · change ((s.countDrop next).record a next).drops = _
    rw [record_drops, countDrop_eq h heff]
  · rw [hcount] at hready
    rcases record_ready _ hready with hbefore | ⟨t, rfl⟩
    · exact stage_step heff (h.ready hbefore)
    · cases heff with
      | call hcall => cases hcall
      | ready => exact fun hin => nomatch hin
  · rw [hcount] at haborted
    -- A canceled task that does not run stays so.
    have hkeep : s.sys.state.isCanceled = true ∧ s.sys.state.isRunning = false →
        next.state.isCanceled = true ∧ next.state.isRunning = false := by
      intro hdead
      rwa [state_of_canceled h.runner heff hdead.1]
    rcases record_aborted _ haborted with hbefore | ⟨t, hin, hpc⟩
    · exact hkeep (h.aborted hbefore)
    · have hpc : s.sys.pc t = .clearStage := hpc
      rcases ((h.abort t).inside hin).2 with ⟨-, val, hcancels⟩ | ⟨-, -, hdead⟩
      · rw [hpc] at hcancels
        cases hcancels
      · exact hkeep hdead
  · rw [hcount]
    have hframe : AbortOk { s with drops := n } t :=
      (h.abort t).frame rfl (fun _ => rfl) rfl rfl rfl
    exact hframe.step h.runner hnext

omit [DecidableEq T] in
theorem ownedOk_spawned (lane : Lane) (hasSafety : Bool) :
    OwnedOk (Owned.spawned lane hasSafety : Owned T) where
  runner := runnerOk_spawned lane hasSafety
  stage := stageOk_spawned lane hasSafety
  drops := rfl
  ready := fun h => nomatch h
  aborted := fun h => nomatch h
  abort := fun _ =>
    { inside := fun h => nomatch h
      outside := fun _ hcancels => nomatch hcancels.choose_spec
      answered := fun _ h => nomatch h }

/-- The activity polls the future, or is about to. -/
def Polls (pc : Pc) : Prop := ∃ lane, pc = .polling lane ∨ pc = .inFuture lane

/-- In every run, also one in which assertions fail:

* at most one activity polls the future;
* nobody polls it once an `abort` has answered true, once it has returned `Ready`, or once it was
  dropped;
* it is dropped at most once, and exactly once when the task is completed or canceled and every
  worker and every `abort` has finished with it;
* an `abort` that has answered has answered true exactly when it was the call that made a task
  that did not run a canceled one. -/
theorem future_owned_once (lane : Lane) (hasSafety : Bool)
    (hrun : Reaches Owned.step anyStep (Owned.spawned lane hasSafety) s) :
    (∀ t t', Polls (s.sys.pc t) → Polls (s.sys.pc t') → t = t') ∧
    (s.aborted = true ∨ s.ready = true ∨ 0 < s.drops → ∀ t, ¬ Polls (s.sys.pc t)) ∧
    s.drops ≤ 1 ∧
    (s.sys.state.isCompleted = true ∨ s.sys.state.isCanceled = true →
      (∀ t, ¬ Runs (s.sys.pc t) ∧ s.sys.pc t ≠ .clearStage) → s.drops = 1) ∧
    ∀ t answer, s.answer t = some answer → (answer = true ↔ s.moved t = true) := by
  have h : OwnedOk s := hrun.invariant (ownedOk_spawned lane hasSafety)
    fun _ _ _ hok _ hstep => hok.step hstep
  have hholds : ∀ t, Polls (s.sys.pc t) → HoldsFuture (s.sys.pc t) := by
    rintro t ⟨worker, hpc | hpc⟩ <;> rw [hpc] <;> trivial
  have hruns : ∀ t, Polls (s.sys.pc t) → Runs (s.sys.pc t) := fun t hpolls =>
    runs_iff.mpr (Or.inl (hholds t hpolls))
  have hdrops := h.drops
  refine ⟨fun t t' hpolls hpolls' => h.runner.unique t t' (hruns t hpolls) (hruns t' hpolls'),
    fun hover t hpolls => ?_, ?_, fun hend hquiet => ?_, fun t => (h.abort t).answered⟩
  · have hstage := h.stage.holds t (hholds t hpolls)
    rcases hover with haborted | hready | hdropped
    · have hrunning := h.runner.running t (hruns t hpolls)
      rw [(h.aborted haborted).2] at hrunning
      cases hrunning
    · exact h.ready hready hstage
    · rw [hdrops, if_pos hstage] at hdropped
      cases hdropped
  · rw [hdrops]
    split <;> decide
  · have hgone : s.sys.stage ≠ .inProgress := by
      rcases hend with hcompleted | hcanceled
      · exact h.stage.completed hcompleted
      · intro hstage
        obtain ⟨t, hrun | hclear⟩ := h.stage.canceled hcanceled hstage
        · exact (hquiet t).1 hrun
        · exact (hquiet t).2 hclear
    rw [hdrops, if_neg hgone]

/-- A task is polled once, and an `abort` of the idle task answers true: the future was dropped
once. -/
theorem aborted_future_dropped_once :
    ∃ s : Owned (Fin 2), Reaches Owned.step anyStep (Owned.spawned .normal false) s ∧
      s.sys.state.isCanceled = true ∧ s.drops = 1 ∧ s.moved 1 = true := by
  obtain ⟨s, hrun, hcanceled, hanswer, hpcs⟩ : ∃ s : Owned (Fin 2),
      Reaches Owned.step anyStep (Owned.spawned .normal false) s ∧
        s.sys.state.isCanceled = true ∧ s.answer 1 = some true ∧ ∀ t, s.sys.pc t = .idle :=
    exists_reaches (firstPoll 0 ++ [Action.abort 1, .advance 1, .advance 1, .advance 1]) (by decide)
  obtain ⟨-, -, -, honce, hanswers⟩ := future_owned_once .normal false hrun
  refine ⟨s, hrun, hcanceled, honce (Or.inr hcanceled) fun t => ?_,
    (hanswers 1 true hanswer).mp rfl⟩
  rw [hpcs t]
  exact ⟨fun hruns => hruns.elim fun _ hout => hout.elim, fun hpc => nomatch hpc⟩

end Owned

end Kyron.Proofs.Task
