import Mathlib.Logic.Basic

/-!
# `Kyron.Lib.Transition`: runs of a step function

A concurrent system is a partial step function `step : σ → α → Option σ`: `none` says that
the action is not possible in the state. `Reaches step ok s s'` says that `s'` follows from
`s` by steps that all meet the guard `ok`, a condition on the action and the state before it.
With the guard `anyStep` these are all the runs.

* `Reaches.invariant`: what holds at the start and is kept by every guarded step holds in
  every state reached.
* `exists_reaches`: a list of actions that runs through is a run, so its last state is
  reached.
-/

set_option autoImplicit false

namespace Kyron.Lib

variable {σ α : Type*} {step : σ → α → Option σ} {ok : σ → α → Prop}

/-- The guard that every step meets. -/
def anyStep (_ : σ) (_ : α) : Prop := True

instance (s : σ) (a : α) : Decidable (anyStep s a) := .isTrue trivial

/-- `s'` follows from `s` by guarded steps. -/
inductive Reaches (step : σ → α → Option σ) (ok : σ → α → Prop) (s : σ) : σ → Prop
  | refl : Reaches step ok s s
  | tail {s' s'' : σ} (a : α) (before : Reaches step ok s s') (guard : ok s' a)
      (next : step s' a = some s'') : Reaches step ok s s''

/-- What holds at the start and is kept by every guarded step holds in every state reached. -/
theorem Reaches.invariant {I : σ → Prop} {s s' : σ} (h : Reaches step ok s s') (hinit : I s)
    (hstep : ∀ s a s', I s → ok s a → step s a = some s' → I s') : I s' := by
  induction h with
  | refl => exact hinit
  | tail a _ hguard hnext ih => exact hstep _ a _ ih hguard hnext

/-- A run can be continued by a run. -/
theorem Reaches.trans {s s' s'' : σ} (h : Reaches step ok s s') (h' : Reaches step ok s' s'') :
    Reaches step ok s s'' := by
  induction h' with
  | refl => exact h
  | tail a _ hguard hnext ih => exact ih.tail a hguard hnext

/-- Runs a list of actions, one after the other, while they are possible and meet the guard. -/
def runActions (step : σ → α → Option σ) (ok : σ → α → Prop) [∀ s a, Decidable (ok s a)] :
    σ → List α → Option σ
  | s, [] => some s
  | s, a :: as =>
      if ok s a then
        match step s a with
        | none => none
        | some s' => runActions step ok s' as
      else
        none

/-- A list of actions that runs through is a run. -/
theorem reaches_of_runActions [∀ s a, Decidable (ok s a)] {s s' : σ} (as : List α)
    (hrun : runActions step ok s as = some s') : Reaches step ok s s' := by
  induction as generalizing s with
  | nil =>
      cases hrun
      exact .refl
  | cons a as ih =>
      unfold runActions at hrun
      split at hrun
      · rename_i hguard
        cases hnext : step s a with
        | none =>
            rw [hnext] at hrun
            cases hrun
        | some t =>
            rw [hnext] at hrun
            exact (Reaches.refl.tail a hguard hnext).trans (ih hrun)
      · cases hrun

/-- A property of the state at the end of a list of actions that runs through is a property of
some state reached. -/
theorem exists_reaches [∀ s a, Decidable (ok s a)] {P : σ → Prop} {s : σ} (as : List α)
    (hrun : ∃ s' ∈ runActions step ok s as, P s') : ∃ s', Reaches step ok s s' ∧ P s' := by
  obtain ⟨s', hs', hP⟩ := hrun
  exact ⟨s', reaches_of_runActions as hs', hP⟩

end Kyron.Lib
