import Kyron.Proofs.Task.SafetyWake
import Kyron.Task.SafetyJoin

/-!
# `Kyron.Proofs.Task.SafetyJoin`: a notified joiner is in a queue

With one engine the two questions have the same answer: a completion makes a safety waker exactly
when there is a safety worker to wake. With several engines the safety task may have one where
the joiner has none. `respawn_into_safety` then returns without a push, and the safety bit that
was set before it keeps all later wakes away.

* `notified_joiner_queued`: when no safety task of an engine with a safety worker fails while its
  joiner is on an engine without one, a notified joiner is in a queue or about to be pushed.
* `joiner_dropped_across_engines`: otherwise it may be in none.
-/

set_option autoImplicit false

namespace Kyron.Proofs.Task

open Kyron.Lib
open Kyron.Task
open Kyron.Task.TaskStateSnapshot

variable {E T C : Type}

/-- The condition on a step: pushes succeed, and an error of a safety task that was spawned with a
safety worker reaches a joiner whose engine has one. -/
def WakeDeliverable (r : Engines E C) (_ : SafetyJoin T C) : JoinAction T C → Prop
  | .joiner (.push _ fits) => fits = true
  | .complete c _ isErr =>
      isErr = true → r.hasSafety (r.child c) = true → r.hasSafety r.joiner = true
  | _ => True

/-- The activity is in a safety wake. -/
def WakesSafety (pc : Pc) : Prop :=
  InCall .scheduleSafety pc ∨ pc = .respawn .safety

structure JoinerOk (s : Sys T) : Prop where
  runner : RunnerOk s
  deliverable : ∀ t, WakesSafety (s.pc t) → s.hasSafety = true
  owed : Owed isNotified (fun _ => True) s

section Steps

variable [DecidableEq T] {s s' : Sys T}

/-- Who is in a safety wake after a step was in it before, or begins it. -/
theorem wakesSafety_step {a : Action T} (heff : Effect s a s') {t : T}
    (hwakes : WakesSafety (s'.pc t)) : WakesSafety (s.pc t) ∨ a = .wakeSafety t := by
  rcases hwakes with hcall | hrespawn
  · rcases inCall_step (by simp) heff hcall with hbefore | hbegins
    · exact Or.inl (Or.inl hbefore)
    · cases a <;> cases hbegins
      exact Or.inr rfl
  · -- Only the exchange of a safety wake leads to the push.
    left
    have hold : ∀ {u : Sys T} {t' : T} {pc : Pc}, u.pc = s.pc → s'.pc = (u.goto t' pc).pc →
        pc ≠ .respawn .safety → WakesSafety (s.pc t) := by
      intro u t' pc hu hpcs hne
      rw [hpcs] at hrespawn
      have hbefore := goto_pc_before (P := (· = .respawn .safety)) hrespawn hne
      exact Or.inr (hu ▸ hbefore)
    cases heff with
    | leaves hpc hcl hleaves => exact hold rfl rfl (by cases hleaves <;> simp)
    | @stores t' op new next hpc hst =>
        rcases goto_pc_cases (P := (· = .respawn .safety)) hrespawn with ⟨rfl, hself⟩ | hother
        · cases hst with
          | scheduleSafety => exact Or.inl ⟨_, hpc⟩
          | schedule | abort | toIdle => split at hself <;> cases hself
          | setWaker | toRunning | toCompleted => cases hself
        · exact Or.inr hother
    | refused _ _ hnext => exact hold rfl rfl (by rcases hnext with rfl | rfl <;> simp)
    | call | load | asserts | looks | finds | pending => exact hold rfl rfl (by simp)
    | pop => exact hold (u := s.dequeue _) rfl rfl (by simp)
    | clears => exact hold (u := { s with stage := .extracted }) rfl rfl (by simp)
    | ready => exact hold (u := { s with stage := .completed }) rfl rfl (by simp)
    | pushes => exact hold (u := s.enqueue _) rfl rfl (by simp)
    | takes | noResult => exact Or.inr hrespawn

/-- A step of the joiner: pushes fit, and safety wakes begin only with a safety worker. -/
theorem JoinerOk.step (h : JoinerOk s) {a : Action T}
    (hfits : ∀ t fits, a = .push t fits → fits = true)
    (hwake : ∀ t, a = .wakeSafety t → s.hasSafety = true) (heff : Effect s a s') : JoinerOk s' where
  runner := h.runner.step heff
  deliverable := by
    intro t hwakes
    rw [hasSafety_step heff]
    rcases wakesSafety_step heff hwakes with hbefore | hbegins
    · exact h.deliverable t hbefore
    · exact hwake t hbegins
  owed := by
    refine h.owed.step h.runner heff ?_ ?_
    · intro t op new next _ hpc hst hidle hcanceled hbit
      obtain ⟨p, hphase⟩ := h.runner.phase
      rcases stores_idle hphase hst hidle hcanceled with
        ⟨hi, hx, -, hsame⟩ | ⟨-, -, -, hnext⟩ | ⟨-, hnext⟩ | ⟨worker, -, hsame, hnext⟩
      · exact Or.inl ⟨hi, hx, hsame ▸ hbit⟩
      · exact Or.inr ⟨.normal, trivial, Or.inl hnext⟩
      · exact Or.inr ⟨.safety, trivial, Or.inl hnext⟩
      · rw [if_pos (hsame ▸ hbit)] at hnext
        exact Or.inr ⟨worker, trivial, Or.inr hnext⟩
    · intro t fits lane ha _ _
      exact ⟨hfits t fits ha, fun hpc => h.deliverable t (Or.inr hpc)⟩

omit [DecidableEq T] in
theorem joinerOk_spawned (lane : Lane) (hasSafety : Bool) :
    JoinerOk (Sys.spawned lane hasSafety : Sys T) where
  runner := runnerOk_spawned lane hasSafety
  deliverable := fun t hwakes => by simp [Sys.spawned, WakesSafety, InCall] at hwakes
  owed := fun _ _ hbit => absurd (show new.isNotified = true from hbit) (by decide)

end Steps

/-! ### The runtime -/

section Runs

variable [DecidableEq T] [DecidableEq C]

/-- Every step of the runtime is a step of the joiner. -/
theorem safetyJoin_step {r : Engines E C} {s s' : SafetyJoin T C} {act : JoinAction T C}
    (h : JoinerOk s.joiner) (hsafety : s.joiner.hasSafety = r.hasSafety r.joiner)
    (hguard : WakeDeliverable r s act) (hstep : s.step r act = some s') :
    JoinerOk s'.joiner ∧ s'.joiner.hasSafety = r.hasSafety r.joiner := by
  cases act with
  | joiner a =>
      have hnot : ∀ t, a ≠ .wakeSafety t := by
        rintro t rfl
        cases hstep
      have hjoiner : ∃ j, s.joiner.step a = some j ∧ s' = { s with joiner := j } := by
        cases a with
        | wakeSafety t => exact absurd rfl (hnot t)
        | _ =>
            obtain ⟨j, hj, heq⟩ := Option.map_eq_some_iff.mp hstep
            exact ⟨j, hj, heq.symm⟩
      obtain ⟨j, hj, rfl⟩ := hjoiner
      have heff := effect_of_step hj
      refine ⟨h.step ?_ (fun t ha => absurd ha (hnot t)) heff, (hasSafety_step heff).trans hsafety⟩
      rintro t fits rfl
      exact hguard
  | complete c t isErr =>
      simp only [SafetyJoin.step] at hstep
      split at hstep
      · cases hstep
      · obtain ⟨j, hj, rfl⟩ := Option.map_eq_some_iff.mp hstep
        have heff := effect_of_step hj
        refine ⟨h.step ?_ ?_ heff, (hasSafety_step heff).trans hsafety⟩
        · intro t' fits ha
          unfold SafetyJoin.wakeJoiner at ha
          split at ha <;> cases ha
        · intro t' ha
          unfold SafetyJoin.wakeJoiner at ha
          split at ha
          · rename_i hsafe
            rw [Bool.and_eq_true] at hsafe
            rw [hsafety]
            exact hguard hsafe.1 hsafe.2
          · cases ha

/-- In every run in which pushes succeed and no error of a safety task with a safety worker meets
a joiner without one: a joiner that is idle, not canceled and notified has an entry in a queue of
its scheduler, or an activity is about to push one, unless a worker has just taken the entry to
poll it. -/
theorem notified_joiner_queued (r : Engines E C) {s : SafetyJoin T C}
    (hrun : Reaches (SafetyJoin.step r) (WakeDeliverable r) (.new r) s)
    (hidle : s.joiner.state.isIdle = true) (hcanceled : s.joiner.state.isCanceled = false)
    (hnotified : s.joiner.state.isNotified = true)
    (htaken : ∀ t lane, ¬ Takes lane (s.joiner.pc t)) :
    0 < queueEntries s.joiner ∨ ∃ t, IsPushing (s.joiner.pc t) := by
  have hok : JoinerOk s.joiner ∧ s.joiner.hasSafety = r.hasSafety r.joiner := by
    refine hrun.invariant
      (I := fun s => JoinerOk s.joiner ∧ s.joiner.hasSafety = r.hasSafety r.joiner) ?_ ?_
    · exact ⟨joinerOk_spawned .normal _, rfl⟩
    · rintro s act s' ⟨h, hsafety⟩ hguard hstep
      exact safetyJoin_step h hsafety hguard hstep
  obtain ⟨lane, -, hentry | ⟨t, hanswers⟩⟩ := hok.1.owed hidle hcanceled hnotified
  · left
    unfold queueEntries
    cases lane <;> omega
  · exact Or.inr ⟨t, lane, hanswers.resolve_right (htaken t lane)⟩

instance (r : Engines (Fin 2) (Fin 1)) (s : SafetyJoin (Fin 2) (Fin 1)) :
    (act : JoinAction (Fin 2) (Fin 1)) → Decidable (WakeDeliverable r s act)
  | .joiner a =>
      match a with
      | .push _ fits => inferInstanceAs (Decidable (fits = true))
      | .wake _ | .wakeSafety _ | .abort _ | .attach _ | .pop _ _ | .advance _ | .poll _ _
      | .takeResult => .isTrue trivial
  | .complete _ _ _ => inferInstanceAs (Decidable (_ → _ → _))

/-- Two engines, of which only the second has a safety worker. The safety task is on the second
one and the joiner on `joiner`. -/
def twoEngines (joiner : Fin 2) : Engines (Fin 2) (Fin 1) where
  hasSafety := fun e => e == Fin.last 1
  joiner := joiner
  child := fun _ => Fin.last 1

/-- The joiner is polled once by `t`, and then the safety task `c` fails and wakes it on `u`. -/
def joinFailed (t u : T) (c : C) : List (JoinAction T C) :=
  (firstPoll t).map .joiner ++
    [JoinAction.complete c u true, .joiner (.advance u), .joiner (.advance u),
      .joiner (.push u true)]

/-- A joiner on the engine of the safety task is in the safety queue. -/
theorem failed_joiner_queued :
    ∃ s : SafetyJoin (Fin 2) (Fin 1), Reaches (SafetyJoin.step (twoEngines 1))
        (WakeDeliverable (twoEngines 1)) (.new (twoEngines 1)) s ∧ s.completed 0 = true ∧
      (0 < queueEntries s.joiner ∨ ∃ t, IsPushing (s.joiner.pc t)) := by
  obtain ⟨s, hrun, hdone, hidle, hcanceled, hnotified, hpcs⟩ :
      ∃ s : SafetyJoin (Fin 2) (Fin 1), Reaches (SafetyJoin.step (twoEngines 1))
          (WakeDeliverable (twoEngines 1)) (.new (twoEngines 1)) s ∧
        s.completed 0 = true ∧ s.joiner.state.isIdle = true ∧
        s.joiner.state.isCanceled = false ∧ s.joiner.state.isNotified = true ∧
        ∀ t, s.joiner.pc t = .idle :=
    exists_reaches (joinFailed 0 1 0) (by decide)
  refine ⟨s, hrun, hdone, notified_joiner_queued (twoEngines 1) hrun hidle hcanceled hnotified ?_⟩
  rintro t lane ⟨val, hpc, -⟩
  rw [hpcs t] at hpc
  cases hpc

/-- The joiner is on the engine without a safety worker. It is idle and notified, every call has
returned, and no queue holds it. -/
theorem joiner_dropped_across_engines :
    ∃ s : SafetyJoin (Fin 2) (Fin 1),
      Reaches (SafetyJoin.step (twoEngines 0)) anyStep (.new (twoEngines 0)) s ∧
      s.joiner.state.isIdle = true ∧ s.joiner.state.isCanceled = false ∧
      s.joiner.state.isNotified = true ∧ queueEntries s.joiner = 0 ∧ ∀ t, s.joiner.pc t = .idle :=
  exists_reaches (joinFailed 0 1 0) (by decide)

end Runs

end Kyron.Proofs.Task
