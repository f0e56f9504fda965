import Kyron.Proofs.Scheduler.Turns
import Kyron.Scheduler.TaskLog

/-!
# `Kyron.Proofs.Scheduler.Rounds`: the steps of a worker that only move it on

A round of a worker picks at most one task, after a look at the global queue and at the drivers
when they are due. `Stage` says how far a round has come. Most steps of a worker neither touch the
queues nor end a stage early: `MovesOn` is what they have in common, and `advance_movesOn` and
`turn_movesOn` say which ones they are.
-/

set_option autoImplicit false

namespace Kyron.Proofs.Scheduler

open Kyron.Lib
open Kyron.Scheduler
open AsyncWorkers

variable {n : Nat} {K O : Type}

/-! ### Stages of a round -/

/-- How far a round has come: it has begun and the look around may be due, the look is done or not
due, it has picked a task or found none. A worker that has panicked stays as it is. -/
inductive Stage
  | begun
  | looked
  | picked
  | stopped
  deriving DecidableEq

/-- The stage with respect to the global queue. -/
def globalStage : AsyncPc n K → Stage
  | .within site | .push site _ _ | .notify site | .pick site | .unpark site _ =>
      match site with
      | .timers | .driverIo => .begun
      | .task | .parkIo | .parkExit => .picked
  | .tryIo | .next => .begun
  | .fetchTail site | .fetchLen site _ | .fetchMove site _ =>
      match site with
      | .next => .begun
      | .steal | .global => .looked
  | .pop _ _ | .searchLoad | .searchAdd | .steal _ _ | .publish _ _ _ => .looked
  | .panicked => .stopped
  | _ => .picked

/-- The stage with respect to the drivers. -/
def driversStage : AsyncPc n K → Stage
  | .within site | .push site _ _ | .notify site | .pick site | .unpark site _ =>
      match site with
      | .timers => .begun
      | .driverIo => .looked
      | .task | .parkIo | .parkExit => .picked
  | .tryIo | .next | .fetchTail _ | .fetchLen _ _ | .fetchMove _ _ | .pop _ _ | .searchLoad
  | .searchAdd | .steal _ _ | .publish _ _ _ => .looked
  | .panicked => .stopped
  | _ => .picked

/-- Steps from one stage to another that need no pick and no look. -/
def Stage.Leads (stage stage' : Stage) : Prop :=
  stage' = stage ∨ stage = .looked ∧ stage' = .picked ∨ stage' = .stopped

/-! ### Steps that move a worker on -/

variable {s s' : AsyncWorkers n K O} {w : Fin n} {a : AsyncAction n K O}

/-- The step moves a worker on, with the same tasks in its hand, and does nothing that is logged. -/
structure MovesOn (s s' : AsyncWorkers n K O) (a : AsyncAction n K O) (w : Fin n) : Prop where
  picks : s.picks a = []
  refuses : s.refuses a = []
  submits : AsyncWorkers.submits a = []
  fetches : s.fetches a = none
  runsDrivers : s.runsDrivers a = none
  global : s'.global = s.global
  queue : s'.queue = s.queue
  loop : ∃ l, s'.loop = Function.update s.loop w l ∧ l.tick = (s.loop w).tick ∧
    l.pc.inHand = (s.loop w).pc.inHand ∧
    (globalStage (s.loop w).pc).Leads (globalStage l.pc) ∧
    (driversStage (s.loop w).pc).Leads (driversStage l.pc)

/-- The places from which the next step begins a round, looks around, or moves a task. -/
def isSpecial : AsyncPc n K → Bool
  | .run | .next | .push _ _ _ | .publish _ _ _ | .fetchMove _ _ | .pop _ _
  | .within .timers => true
  | _ => false

/-- The worker goes on from any other place. -/
theorem movesOn_of_pc {pc : AsyncPc n K} {l : AsyncLoop n K} (hpc : (s.loop w).pc = pc)
    (hordinary : isSpecial pc = false) (hglobal : s'.global = s.global)
    (hqueue : s'.queue = s.queue) (hloop : s'.loop = Function.update s.loop w l)
    (htick : l.tick = (s.loop w).tick) (hhand : l.pc.inHand = pc.inHand)
    (hstage : (globalStage pc).Leads (globalStage l.pc))
    (hstage' : (driversStage pc).Leads (driversStage l.pc)) : MovesOn s s' (.advance w) w := by
  subst hpc
  refine ⟨?_, rfl, rfl, ?_, ?_, hglobal, hqueue, l, hloop, htick, hhand, hstage, hstage'⟩
  all_goals
    simp only [picks, fetches, runsDrivers]
    split
    next hpc =>
      rw [hpc] at hordinary
      cases hordinary
    next => rfl

theorem advance_movesOn (hordinary : isSpecial (s.loop w).pc = false)
    (hstep : s.advance w = some s') : MovesOn s s' (.advance w) w := by
  cases hpc : (s.loop w).pc with
  | run | next | push _ _ _ | publish _ _ _ | fetchMove _ _ | pop _ _ =>
      rw [hpc] at hordinary
      cases hordinary
  | within site =>
      rw [hpc] at hordinary
      simp only [advance, hpc] at hstep
      cases hstep
      cases site with
      | timers => cases hordinary
      | driverIo | task | parkIo | parkExit =>
          exact movesOn_of_pc hpc rfl rfl rfl rfl rfl rfl (Or.inl rfl) (Or.inl rfl)
  | pick site =>
      -- which siblings are picked does not matter here
      obtain ⟨parked, hparked⟩ := pickTargets_frame s (some w)
      simp only [advance, stepSpawn, hpc, hparked, Option.ite_none_right_eq_some] at hstep
      obtain ⟨-, hstep⟩ := hstep
      cases hstep
      exact movesOn_of_pc hpc rfl rfl rfl rfl rfl rfl (Or.inl rfl) (Or.inl rfl)
  | unlist site =>
      obtain ⟨parked, hparked⟩ := transitionFromParked_frame s w
      simp only [advance, stepPark, hpc, hparked, Option.ite_none_right_eq_some] at hstep
      obtain ⟨-, hstep⟩ := hstep
      cases site
      all_goals
        cases hstep
        exact movesOn_of_pc hpc rfl rfl rfl rfl rfl rfl (Or.inl rfl) (Or.inl rfl)
  | unpark site todo | steal todo stolen | recheckHead todo | execute todo | listed todo =>
      cases todo
      all_goals
        simp only [advance, stepSpawn, stepSearch, stepPark, stepPick, hpc] at hstep
        repeat' split at hstep
      all_goals cases hstep
      all_goals exact movesOn_of_pc hpc rfl rfl rfl rfl rfl rfl (Or.inl rfl) (Or.inl rfl)
  | _ =>
      -- a worker that finds nothing goes from `looked` to `picked`, a panic stops it
      simp only [advance, stepSpawn, stepPick, stepSearch, stepPark, stepParker, hpc] at hstep
      repeat' split at hstep
      all_goals cases hstep
      all_goals
        refine movesOn_of_pc hpc rfl rfl rfl rfl rfl rfl ?_ ?_
      all_goals first
        | exact Or.inl rfl
        | exact Or.inr (Or.inl ⟨rfl, rfl⟩)
        | exact Or.inr (Or.inr rfl)

variable [DecidableEq O]

/-- The end of the calls of the system, and the choices in a search and in `park`. -/
theorem turn_movesOn (ha : a = .elapsed w ∨ a = .returns w ∨ (∃ start, a = .search w start) ∨
    ∃ time, a = .park w time) (hstep : s.step a = some s') : MovesOn s s' a w := by
  rcases ha with rfl | rfl | ⟨start, rfl⟩ | ⟨time, rfl⟩
  all_goals
    simp only [step, search, park] at hstep
    split at hstep
  all_goals first
    | cases hstep
      done
    | rename_i hpc
      repeat' split at hstep
      all_goals cases hstep
      all_goals
        refine ⟨rfl, rfl, rfl, rfl, rfl, rfl, rfl, _, rfl, rfl, ?_, ?_, ?_⟩
        all_goals rw [hpc]
      all_goals first
        | rfl
        | exact Or.inl rfl

end Kyron.Proofs.Scheduler
