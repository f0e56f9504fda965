import Kyron.Proofs.Task.Token

/-!
# `Kyron.Proofs.Task.Runner`: what a step does, and who runs the task

`Effect` says once what each step of `Sys.step` does, so that the invariants below and in the
modules that follow do not look into the step function again.

`RunnerOk` is the part of the invariant that needs no condition on the wakes. It also holds when
a task is in both queues and two workers take it: the exchange of `transition_to_running` lets
only one of them go on. A worker that runs the task has the running bit in the word, and only
its own `transition_to_idle` or `transition_to_completed` takes the bit out.
-/

set_option autoImplicit false

namespace Kyron.Proofs.Task

open Kyron.Lib
open Kyron.Task
open Function

variable {T : Type}

/-! ### What a step does -/

/-- The calls that an idle activity begins. -/
def callOf : Action T → Option (T × Op)
  | .wake t => some (t, .schedule)
  | .wakeSafety t => some (t, .scheduleSafety)
  | .abort t => some (t, .abort)
  | .attach t => some (t, .setWaker)
  | _ => none

/-- The activity is about to push the task into the lane. -/
def PushesTo (lane : Lane) (pc : Pc) : Prop := pc = .respawn lane ∨ pc = .repush lane

section Effects

variable [DecidableEq T]

theorem goto_pc_self (s : Sys T) (t : T) (pc : Pc) : (s.goto t pc).pc t = pc :=
  update_self ..

theorem goto_pc_other {s : Sys T} {t t' : T} {pc : Pc} (h : t' ≠ t) :
    (s.goto t pc).pc t' = s.pc t' :=
  update_of_ne h ..

/-- What holds of the place of an activity after one has moved: it is the one that moved, or it
was in that place before. -/
theorem goto_pc_cases {P : Pc → Prop} {u : Sys T} {t t' : T} {pc : Pc}
    (h : P ((u.goto t' pc).pc t)) : t = t' ∧ P pc ∨ P (u.pc t) := by
  by_cases ht : t = t'
  · subst ht
    rw [goto_pc_self] at h
    exact Or.inl ⟨rfl, h⟩
  · rw [goto_pc_other ht] at h
    exact Or.inr h

/-- After one has moved to another kind of place, who is in a place of this kind was so before. -/
theorem goto_pc_before {P : Pc → Prop} {u : Sys T} {t t' : T} {pc : Pc}
    (h : P ((u.goto t' pc).pc t)) (hne : ¬ P pc) : P (u.pc t) :=
  (goto_pc_cases h).resolve_left fun hself => hne hself.2

/-- What a step does. -/
inductive Effect (s : Sys T) : Action T → Sys T → Prop
  | call {a : Action T} {t : T} {op : Op} (hcall : callOf a = some (t, op))
      (hidle : s.pc t = .idle) : Effect s a (s.goto t (.update op none))
  | pop {t : T} {lane : Lane} (hidle : s.pc t = .idle) (hentry : 0 < s.entries lane) :
      Effect s (.pop t lane) ((s.dequeue lane).goto t (.update (.toRunning lane) none))
  | load {t : T} {op : Op} {val : Option TaskStateSnapshot} (hpc : s.pc t = .update op val) :
      Effect s (.advance t) (s.goto t (.update op (some s.state)))
  | asserts {t : T} {op : Op} {v : TaskStateSnapshot} {p : Panic}
      (hpc : s.pc t = .update op (some v)) (hcl : op.closure v = .error p)
      (hasserts : Asserts v op) : Effect s (.advance t) (s.goto t (.panicked p))
  | leaves {t : T} {op : Op} {v : TaskStateSnapshot} {next : Pc}
      (hpc : s.pc t = .update op (some v)) (hcl : op.closure v = .ok (none, next))
      (hleaves : Leaves v op next) : Effect s (.advance t) (s.goto t next)
  | stores {t : T} {op : Op} {new : TaskStateSnapshot} {next : Pc}
      (hpc : s.pc t = .update op (some s.state)) (hstores : Stores s.state op new next) :
      Effect s (.advance t) ({ s with
        state := new
        polls := if op.startsPoll then s.polls + 1 else s.polls }.goto t next)
  | looks {t : T} {lane : Lane} (hpc : s.pc t = .polling lane) (hstage : s.stage = .inProgress) :
      Effect s (.advance t) (s.goto t (.inFuture lane))
  | finds {t : T} {lane : Lane} {p : Panic} (hpc : s.pc t = .polling lane)
      (hstage : s.stage ≠ .inProgress) : Effect s (.advance t) (s.goto t (.panicked p))
  | clears {t : T} (hpc : s.pc t = .clearStage) :
      Effect s (.advance t) ({ s with stage := .extracted }.goto t .idle)
  | pending {t : T} {lane : Lane} (hpc : s.pc t = .inFuture lane) :
      Effect s (.poll t false) (s.goto t (.update (.toIdle lane) none))
  | ready {t : T} {lane : Lane} (hpc : s.pc t = .inFuture lane) :
      Effect s (.poll t true)
        ({ s with stage := .completed }.goto t (.update (.toCompleted lane) none))
  | pushes {t : T} {lane : Lane} (hpc : PushesTo lane (s.pc t)) :
      Effect s (.push t true) ((s.enqueue lane).goto t .idle)
  | refused {t : T} {lane : Lane} {fits : Bool} {pc : Pc} (hpc : PushesTo lane (s.pc t))
      (hfits : fits = false ∨ s.pc t = .respawn .safety ∧ s.hasSafety = false)
      (hnext : pc = .idle ∨ pc = .overflow) : Effect s (.push t fits) (s.goto t pc)
  | takes (hcompleted : s.state.isCompleted = true) (hcanceled : s.state.isCanceled = false) :
      Effect s .takeResult { s with stage := .extracted }
  | noResult : Effect s .takeResult s

theorem effect_of_attempt {s : Sys T} {t : T} {op : Op} {v : TaskStateSnapshot}
    (hpc : s.pc t = .update op (some v)) : Effect s (.advance t) (s.attempt t op v) := by
  unfold Sys.attempt
  rcases closure_cases op v with ⟨p, hcl, hasserts⟩ | ⟨next, hcl, hleaves⟩ | ⟨new, next, hcl, hst⟩
  · rw [hcl]
    exact .asserts hpc hcl hasserts
  · rw [hcl]
    exact .leaves hpc hcl hleaves
  · rw [hcl]
    dsimp only
    by_cases hv : s.state = v
    · subst hv
      rw [if_pos rfl]
      exact .stores hpc hst
    · rw [if_neg hv]
      exact .load hpc

/-- Every own step of an activity has one of the listed effects. -/
theorem effect_of_advance {s s' : Sys T} {t : T} (hstep : s.advance t = some s') :
    Effect s (.advance t) s' := by
  unfold Sys.advance at hstep
  split at hstep
  · rename_i hpc
    cases hstep
    exact .load hpc
  · rename_i hpc
    cases hstep
    exact effect_of_attempt hpc
  · rename_i hpc
    split at hstep
    · rename_i hstage
      cases hstep
      exact .looks hpc hstage
    all_goals
      rename_i hstage
      cases hstep
      exact .finds hpc (by simp [hstage])
  · rename_i hpc
    cases hstep
    exact .clears hpc
  · cases hstep

/-- A push that is decided by whether it fits. -/
theorem effect_of_fits {s s' : Sys T} {t : T} {lane : Lane} {fits : Bool} {pc : Pc}
    (hpc : PushesTo lane (s.pc t)) (hnext : pc = .idle ∨ pc = .overflow)
    (hstep : (if fits then some ((s.enqueue lane).goto t .idle) else some (s.goto t pc)) =
      some s') :
    Effect s (.push t fits) s' := by
  cases fits with
  | true =>
      cases hstep
      exact .pushes hpc
  | false =>
      cases hstep
      exact .refused hpc (Or.inl rfl) hnext

theorem effect_of_push {s s' : Sys T} {t : T} {fits : Bool} (hstep : s.push t fits = some s') :
    Effect s (.push t fits) s' := by
  unfold Sys.push at hstep
  split at hstep
  · rename_i hpc
    exact effect_of_fits (Or.inl hpc) (Or.inr rfl) hstep
  · rename_i hpc
    exact effect_of_fits (Or.inr hpc) (Or.inr rfl) hstep
  · rename_i hpc
    split at hstep
    · rename_i hsafety
      cases hstep
      exact .refused (Or.inl hpc) (Or.inr ⟨hpc, by simpa using hsafety⟩) (Or.inl rfl)
    · exact effect_of_fits (Or.inl hpc) (Or.inr rfl) hstep
  · rename_i hpc
    exact effect_of_fits (Or.inr hpc) (Or.inl rfl) hstep
  · cases hstep

/-- Every step has one of the effects. -/
theorem effect_of_step {s s' : Sys T} {a : Action T} (hstep : s.step a = some s') :
    Effect s a s' := by
  cases a with
  | wake t =>
      obtain ⟨⟨hidle, -⟩, rfl⟩ := Option.ite_some_none_eq_some.mp hstep
      exact .call rfl hidle
  | wakeSafety t =>
      obtain ⟨⟨hidle, -⟩, rfl⟩ := Option.ite_some_none_eq_some.mp hstep
      exact .call rfl hidle
  | abort t | attach t =>
      obtain ⟨hidle, rfl⟩ := Option.ite_some_none_eq_some.mp hstep
      exact .call rfl hidle
  | pop t lane =>
      obtain ⟨⟨hidle, hentry⟩, rfl⟩ := Option.ite_some_none_eq_some.mp hstep
      exact .pop hidle hentry
  | advance t => exact effect_of_advance hstep
  | poll t ready =>
      simp only [Sys.step] at hstep
      split at hstep
      · rename_i hpc
        cases ready <;> cases hstep
        · exact .pending hpc
        · exact .ready hpc
      · cases hstep
  | push t fits => exact effect_of_push hstep
  | takeResult =>
      simp only [Sys.step] at hstep
      split at hstep
      · cases hstep
        exact .noResult
      · rename_i hcanceled
        split at hstep
        · cases hstep
          exact .noResult
        · rename_i hcompleted
          cases hstep
          exact .takes (by simpa using hcompleted) (by simpa using hcanceled)

/-- A call of an idle activity begins. -/
theorem Effect.begins {s s' : Sys T} {a : Action T} {t : T} {op : Op} (heff : Effect s a s')
    (hcall : callOf a = some (t, op)) : s' = s.goto t (.update op none) := by
  cases heff with
  | call hcall' =>
      rw [hcall] at hcall'
      cases hcall'
      rfl
  | _ => cases hcall

/-- An activity goes on inside of an update. -/
theorem Effect.update {s s' : Sys T} {t : T} {op : Op} {val : Option TaskStateSnapshot}
    (heff : Effect s (.advance t) s') (hpc : s.pc t = .update op val) :
    s' = s.goto t (.update op (some s.state)) ∨
    (∃ v p, val = some v ∧ Asserts v op ∧ s' = s.goto t (.panicked p)) ∨
    (∃ v next, val = some v ∧ op.closure v = .ok (none, next) ∧ Leaves v op next ∧
      s' = s.goto t next) ∨
    ∃ new next, val = some s.state ∧ Stores s.state op new next ∧
      s' = { s with
        state := new
        polls := if op.startsPoll then s.polls + 1 else s.polls }.goto t next := by
  cases heff with
  | call hcall => cases hcall
  | load hpc' =>
      rw [hpc] at hpc'
      cases hpc'
      exact Or.inl rfl
  | asserts hpc' _ hasserts =>
      rw [hpc] at hpc'
      cases hpc'
      exact Or.inr (Or.inl ⟨_, _, rfl, hasserts, rfl⟩)
  | leaves hpc' hcl hleaves =>
      rw [hpc] at hpc'
      cases hpc'
      exact Or.inr (Or.inr (Or.inl ⟨_, _, rfl, hcl, hleaves, rfl⟩))
  | stores hpc' hst =>
      rw [hpc] at hpc'
      cases hpc'
      exact Or.inr (Or.inr (Or.inr ⟨_, _, rfl, hst, rfl⟩))
  | looks hpc' | finds hpc' | clears hpc' =>
      rw [hpc] at hpc'
      cases hpc'

/-- An activity leaves `clear_stage`. -/
theorem Effect.clearStage {s s' : Sys T} {t : T} (heff : Effect s (.advance t) s')
    (hpc : s.pc t = .clearStage) : s' = { s with stage := .extracted }.goto t .idle := by
  cases heff with
  | call hcall => cases hcall
  | clears => rfl
  | load hpc' | asserts hpc' | leaves hpc' | stores hpc' | looks hpc' | finds hpc' =>
      rw [hpc] at hpc'
      cases hpc'

end Effects

/-! ### Who is in a call -/

/-- The activity is in the update of the call. -/
def InCall (op : Op) (pc : Pc) : Prop := ∃ val, pc = .update op val

/-- Who is in one of the calls of an idle activity after a step was in it before, or begins it. -/
theorem inCall_step [DecidableEq T] {s s' : Sys T} {t : T} {a : Action T} {op : Op}
    (hop : ∀ lane, op ≠ .toRunning lane ∧ op ≠ .toIdle lane ∧ op ≠ .toCompleted lane)
    (heff : Effect s a s') (hpc : InCall op (s'.pc t)) :
    InCall op (s.pc t) ∨ callOf a = some (t, op) := by
  cases heff with
  | @call _ t' op' hcall _ =>
      rcases goto_pc_cases hpc with ⟨rfl, val, hself⟩ | hother
      · cases hself
        exact Or.inr hcall
      · exact Or.inl hother
  | @load t' op' val hpc' =>
      rcases goto_pc_cases hpc with ⟨rfl, val', hself⟩ | hother
      · cases hself
        exact Or.inl ⟨val, hpc'⟩
      · exact Or.inl hother
  | leaves _ _ hleaves =>
      refine Or.inl (goto_pc_before hpc ?_)
      rintro ⟨val, hself⟩
      cases hleaves <;> cases hself
  | stores _ hst =>
      refine Or.inl (goto_pc_before hpc ?_)
      rintro ⟨val, hself⟩
      cases hst with
      | schedule | scheduleSafety | abort | toIdle => split at hself <;> cases hself
      | setWaker | toRunning | toCompleted => cases hself
  | refused _ _ hnext =>
      refine Or.inl (goto_pc_before hpc ?_)
      rintro ⟨val, hself⟩
      rcases hnext with rfl | rfl <;> cases hself
  | pop | pending | ready =>
      -- A worker begins an update, which is none of these calls.
      refine Or.inl (goto_pc_before hpc ?_)
      rintro ⟨val, hself⟩
      cases hself
      simp at hop
  | asserts | looks | finds | clears | pushes =>
      refine Or.inl (goto_pc_before hpc ?_)
      rintro ⟨val, hself⟩
      cases hself
  | takes | noResult => exact Or.inl hpc

/-! ### Who runs the task -/

/-- A worker of the lane is between its transition to running and the end of that run. -/
def RunsOn (lane : Lane) : Pc → Prop
  | .polling worker | .inFuture worker | .update (.toIdle worker) _
  | .update (.toCompleted worker) _ => worker = lane
  | _ => False

/-- Some worker runs the task. -/
def Runs (pc : Pc) : Prop := ∃ lane, RunsOn lane pc

/-- A word that the task has had: it is in some phase, and a cancellation in it still stands. -/
structure WasRead (s : Sys T) (v : TaskStateSnapshot) : Prop where
  phase : ∃ p, InPhase p v
  canceled : v.isCanceled = true → s.state.isCanceled = true

/-- What holds of an activity whatever else happens: it has read a word that the task has had,
and a worker that runs the task has read it running. -/
def PcOk (s : Sys T) : Pc → Prop
  | .update op val => ∀ v ∈ val, WasRead s v ∧ (Runs (.update op val) → v.isRunning = true)
  | _ => True

structure RunnerOk (s : Sys T) : Prop where
  phase : ∃ p, InPhase p s.state
  activity : ∀ t, PcOk s (s.pc t)
  running : ∀ t, Runs (s.pc t) → s.state.isRunning = true
  unique : ∀ t t', Runs (s.pc t) → Runs (s.pc t') → t = t'

/-- What word a call has read last does not matter to who runs the task. -/
theorem runs_update_congr {op : Op} {val val' : Option TaskStateSnapshot}
    (h : Runs (.update op val)) : Runs (.update op val') := by
  cases op with
  | toIdle | toCompleted => exact h
  | _ => exact h.elim fun _ hout => hout.elim

theorem PcOk.mono {s s' : Sys T} {pc : Pc} (h : PcOk s pc)
    (hcanceled : s.state.isCanceled = true → s'.state.isCanceled = true) : PcOk s' pc := by
  cases pc with
  | update op val =>
      intro v hv
      obtain ⟨hread, hruns⟩ := h v hv
      exact ⟨⟨hread.phase, fun hx => hcanceled (hread.canceled hx)⟩, hruns⟩
  | _ => trivial

section Steps

variable [DecidableEq T] {s s' : Sys T} {t : T} {pc : Pc} {op : Op} {new : TaskStateSnapshot}
  {next : Pc}

/-- One activity moves and the word stays. -/
theorem RunnerOk.move (h : RunnerOk s) (hstate : s'.state = s.state)
    (hpcs : s'.pc = Function.update s.pc t pc) (hself : PcOk s pc)
    (hruns : Runs pc → Runs (s.pc t)) : RunnerOk s' := by
  -- Who runs after the step ran before it.
  have hold : ∀ t', Runs (s'.pc t') → Runs (s.pc t') := by
    intro t' hrun
    rw [hpcs] at hrun
    by_cases ht : t' = t
    · subst ht
      rw [update_self] at hrun
      exact hruns hrun
    · rwa [update_of_ne ht] at hrun
  refine ⟨by rw [hstate]; exact h.phase, fun t' => ?_, fun t' hrun => ?_, fun t₁ t₂ h₁ h₂ => ?_⟩
  · have hkeep : ∀ {pc : Pc}, PcOk s pc → PcOk s' pc :=
      fun hok => hok.mono (by rw [hstate]; exact id)
    rw [hpcs]
    by_cases ht : t' = t
    · subst ht
      rw [update_self]
      exact hkeep hself
    · rw [update_of_ne ht]
      exact hkeep (h.activity t')
  · rw [hstate]
    exact h.running t' (hold t' hrun)
  · exact h.unique t₁ t₂ (hold t₁ h₁) (hold t₂ h₂)

/-- An activity moves out of its call. -/
theorem RunnerOk.leave (h : RunnerOk s) (hstate : s'.state = s.state)
    (hpcs : s'.pc = Function.update s.pc t pc) (hout : ¬ Runs pc) (hself : PcOk s pc) :
    RunnerOk s' :=
  h.move hstate hpcs hself fun hrun => absurd hrun hout

omit [DecidableEq T] in
/-- A word that a closure stores is in a phase again and keeps a cancellation. The closure leaves
the phase, or starts a run, or ends one. -/
theorem stores_phase {p : Phase} {v : TaskStateSnapshot} (hphase : InPhase p v)
    (hst : Stores v op new next) :
    (v.isCanceled = false ∧ PcOk s next) ∧
    ((InPhase p new ∧ ¬ Runs next) ∨
      (p = .idle ∧ InPhase .running new) ∨
      ((∃ p', InPhase p' new) ∧ ¬ Runs next ∧ Runs (.update op (some v)))) := by
  have hrunning := hphase.running
  cases hst with
  | schedule _ _ hx =>
      refine ⟨⟨hx, ?_⟩, Or.inl ⟨hphase.setNotified, ?_⟩⟩ <;> split <;> simp [PcOk, Runs, RunsOn]
  | scheduleSafety _ hx =>
      refine ⟨⟨hx, ?_⟩, Or.inl ⟨hphase.setSafetyNotified, ?_⟩⟩ <;> split <;>
        simp [PcOk, Runs, RunsOn]
  | abort _ hx =>
      refine ⟨⟨hx, ?_⟩, Or.inl ⟨hphase.setCanceled, ?_⟩⟩ <;> split <;> simp [PcOk, Runs, RunsOn]
  | setWaker _ hx =>
      exact ⟨⟨hx, trivial⟩, Or.inl ⟨hphase.setJoinHandle, by simp [Runs, RunsOn]⟩⟩
  | toRunning worker hi _ _ hx =>
      have hp : p = .idle := by
        have hidle := hphase.idle
        simp_all
      subst hp
      exact ⟨⟨hx, trivial⟩, Or.inr (Or.inl ⟨rfl, hphase.unsetNotified.setRunning⟩)⟩
  | toIdle worker hr hx =>
      have hp : p = .running := by simp_all
      subst hp
      refine ⟨⟨hx, ?_⟩, Or.inr (Or.inr ⟨⟨_, hphase.setIdle⟩, ?_, ⟨worker, rfl⟩⟩)⟩ <;> split <;>
        simp [PcOk, Runs, RunsOn]
  | toCompleted worker _ hx =>
      exact ⟨⟨hx, trivial⟩, Or.inr (Or.inr ⟨⟨_, inPhase_completed⟩, by simp [Runs, RunsOn],
        ⟨worker, rfl⟩⟩)⟩

/-- A successful exchange. -/
theorem RunnerOk.stores (h : RunnerOk s) (hpc : s.pc t = .update op (some s.state))
    (hst : Stores s.state op new next) (hstate : s'.state = new)
    (hpcs : s'.pc = Function.update s.pc t next) : RunnerOk s' := by
  obtain ⟨p, hphase⟩ := h.phase
  obtain ⟨⟨hx, hself⟩, hkind⟩ := stores_phase (s := s) hphase hst
  have hactivity : ∀ t', PcOk s' (s'.pc t') := by
    intro t'
    have hkeep : ∀ {pc : Pc}, PcOk s pc → PcOk s' pc := fun hok => hok.mono (by simp [hx])
    rw [hpcs]
    by_cases ht : t' = t
    · subst ht
      rw [update_self]
      exact hkeep hself
    · rw [update_of_ne ht]
      exact hkeep (h.activity t')
  have hself_or : ∀ t', Runs (s'.pc t') → t' = t ∧ Runs next ∨ t' ≠ t ∧ Runs (s.pc t') := by
    intro t' hrun
    rw [hpcs] at hrun
    by_cases ht : t' = t
    · subst ht
      rw [update_self] at hrun
      exact Or.inl ⟨rfl, hrun⟩
    · rw [update_of_ne ht] at hrun
      exact Or.inr ⟨ht, hrun⟩
  rcases hkind with ⟨hnew, hnext⟩ | ⟨rfl, hnew⟩ | ⟨hnew, hnext, hself'⟩
  · -- The phase stays, and so do the runners.
    have hold : ∀ t', Runs (s'.pc t') → Runs (s.pc t') := fun t' hrun =>
      (hself_or t' hrun).elim (fun hthis => absurd hthis.2 hnext) And.right
    refine ⟨⟨p, by rwa [hstate]⟩, hactivity, fun t' hrun => ?_, fun t₁ t₂ h₁ h₂ => ?_⟩
    · rw [hstate, hnew.running, ← hphase.running]
      exact h.running t' (hold t' hrun)
    · exact h.unique t₁ t₂ (hold t₁ h₁) (hold t₂ h₂)
  · -- The task was idle, so nobody ran it.
    have hnone : ∀ t', ¬ Runs (s.pc t') := by
      intro t' hrun
      have hrunning := h.running t' hrun
      rw [hphase.running] at hrunning
      cases hrunning
    have hold : ∀ t', Runs (s'.pc t') → t' = t := fun t' hrun =>
      (hself_or t' hrun).elim And.left fun hother => absurd hother.2 (hnone t')
    refine ⟨⟨_, by rwa [hstate]⟩, hactivity, fun t' _ => ?_, fun t₁ t₂ h₁ h₂ => ?_⟩
    · rw [hstate, hnew.running]
      rfl
    · rw [hold t₁ h₁, hold t₂ h₂]
  · -- The worker that ends its run was the only one.
    have hnone : ∀ t', ¬ Runs (s'.pc t') := by
      intro t' hrun
      rcases hself_or t' hrun with ⟨-, hthis⟩ | ⟨hne, hother⟩
      · exact hnext hthis
      · exact hne (h.unique t' t hother (by rwa [hpc]))
    obtain ⟨p', hnew⟩ := hnew
    exact ⟨⟨p', by rwa [hstate]⟩, hactivity, fun t' hrun => absurd hrun (hnone t'),
      fun t₁ _ h₁ _ => absurd h₁ (hnone t₁)⟩

omit [DecidableEq T] in
/-- A worker never goes on to poll on a word that its closure leaves: that word would be idle and
completed. -/
theorem RunnerOk.not_runs_of_leaves (h : RunnerOk s) {v : TaskStateSnapshot}
    (hpc : s.pc t = .update op (some v)) (hcl : op.closure v = .ok (none, next))
    (hleaves : Leaves v op next) : ¬ Runs next := by
  cases hleaves with
  | runsCompleted worker hc =>
      have hact := h.activity t
      rw [hpc] at hact
      obtain ⟨p, hphase⟩ := (hact v rfl).1.phase
      have hidle := hphase.idle
      have hcompleted := hphase.completed
      have hrunning := hphase.running
      rw [hc] at hcompleted
      have hp : p = .completed := by simpa using hcompleted.symm
      subst hp
      simp [Op.closure, TaskState.transitionToRunning, hidle, hrunning, bind, Except.bind] at hcl
  | _ => simp [Runs, RunsOn]

/-- Every step keeps the invariant. -/
theorem RunnerOk.step (h : RunnerOk s) {a : Action T} (heff : Effect s a s') : RunnerOk s' := by
  cases heff with
  | @call _ t op hcall hidle =>
      refine h.leave rfl rfl ?_ fun v hv => nomatch hv
      cases a <;> cases hcall <;> simp [Runs, RunsOn]
  | pop hidle hentry => exact h.leave rfl rfl (by simp [Runs, RunsOn]) fun v hv => nomatch hv
  | @load t op val hpc =>
      refine h.move rfl rfl ?_ (by rw [hpc]; exact runs_update_congr)
      intro v hv
      cases hv
      refine ⟨⟨h.phase, id⟩, fun hruns => h.running t ?_⟩
      rw [hpc]
      exact runs_update_congr hruns
  | asserts hpc hcl hasserts => exact h.leave rfl rfl (by simp [Runs, RunsOn]) trivial
  | @leaves t op v next hpc hcl hleaves =>
      refine h.leave rfl rfl (h.not_runs_of_leaves hpc hcl hleaves) ?_
      cases hleaves <;> trivial
  | stores hpc hstores => exact h.stores hpc hstores rfl rfl
  | looks hpc hstage => exact h.move rfl rfl trivial (by rw [hpc]; exact id)
  | finds hpc hstage => exact h.leave rfl rfl (by simp [Runs, RunsOn]) trivial
  | clears hpc => exact h.leave rfl rfl (by simp [Runs, RunsOn]) trivial
  | pending hpc => exact h.move rfl rfl (fun v hv => nomatch hv) (by rw [hpc]; exact id)
  | ready hpc => exact h.move rfl rfl (fun v hv => nomatch hv) (by rw [hpc]; exact id)
  | pushes hpc => exact h.leave rfl rfl (by simp [Runs, RunsOn]) trivial
  | refused hpc hfits hnext =>
      refine h.leave rfl rfl ?_ ?_ <;> rcases hnext with rfl | rfl <;> simp [Runs, RunsOn, PcOk]
  | takes hcompleted hcanceled =>
      exact ⟨h.phase, fun t => (h.activity t).mono id, h.running, h.unique⟩
  | noResult => exact h

/-- Who runs the task after a step ran it before, or makes the exchange that starts the run. -/
theorem RunnerOk.runsOn_step (h : RunnerOk s) {a : Action T} (heff : Effect s a s') {lane : Lane}
    (hruns : RunsOn lane (s'.pc t)) :
    RunsOn lane (s.pc t) ∨ Stores s.state (.toRunning lane) s'.state (.polling lane) := by
  cases heff with
  | @call _ t' op hcall _ =>
      rcases goto_pc_cases (P := RunsOn lane) hruns with ⟨-, hself⟩ | hother
      · cases a <;> cases hcall <;> exact hself.elim
      · exact Or.inl hother
  | @load t' op val hpc =>
      rcases goto_pc_cases (P := RunsOn lane) hruns with ⟨rfl, hself⟩ | hother
      · left
        rw [hpc]
        cases op <;> exact hself
      · exact Or.inl hother
  | leaves hpc hcl hleaves =>
      rcases goto_pc_cases (P := RunsOn lane) hruns with ⟨rfl, hself⟩ | hother
      · exact absurd ⟨lane, hself⟩ (h.not_runs_of_leaves hpc hcl hleaves)
      · exact Or.inl hother
  | stores hpc hst =>
      rcases goto_pc_cases (P := RunsOn lane) hruns with ⟨rfl, hself⟩ | hother
      · cases hst with
        | toRunning worker hi hr hc hx =>
            cases hself
            exact Or.inr (.toRunning _ hi hr hc hx)
        | schedule | scheduleSafety | abort | toIdle => split at hself <;> exact hself.elim
        | setWaker | toCompleted => exact hself.elim
      · exact Or.inl hother
  | looks hpc _ | pending hpc | ready hpc =>
      -- The same run goes on.
      rcases goto_pc_cases (P := RunsOn lane) hruns with ⟨rfl, hself⟩ | hother
      · left
        rw [hpc]
        exact hself
      · exact Or.inl hother
  | pop | asserts | finds | clears | pushes =>
      exact Or.inl ((goto_pc_cases (P := RunsOn lane) hruns).resolve_left And.right)
  | refused _ _ hnext =>
      refine Or.inl ((goto_pc_cases (P := RunsOn lane) hruns).resolve_left ?_)
      rcases hnext with rfl | rfl <;> exact And.right
  | takes | noResult => exact Or.inl hruns

end Steps

theorem runnerOk_spawned (lane : Lane) (hasSafety : Bool) :
    RunnerOk (Sys.spawned lane hasSafety : Sys T) where
  phase := ⟨_, inPhase_new⟩
  activity := fun _ => trivial
  running := fun t hrun => by simp [Sys.spawned, Runs, RunsOn] at hrun
  unique := fun t t' hrun => by simp [Sys.spawned, Runs, RunsOn] at hrun

end Kyron.Proofs.Task
