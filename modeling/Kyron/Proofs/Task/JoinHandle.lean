import Kyron.Proofs.Task.JoinInvariant

/-!
# `Kyron.Proofs.Task.JoinHandle`: the result is delivered once, and no completion is missed

The owner of the handle never completes the task, and leaves the value and the workers alone
(`JoinOk.owner`). It answers `Pending` in two places: after `set_waker` has set the bit, and when it
is polled again before the task is completed. In both the bit is in the word.

`join_handle_delivers_once` reads off what the owner of the handle sees.
-/

set_option autoImplicit false

namespace Kyron.Proofs.Task

open Kyron.Lib
open Kyron.Task
open JoinSys

/-! ### The steps of the owner of the handle -/

section Owner

variable {T V : Type} [DecidableEq T] {s s' : JoinSys T V} {a : Action (Option T)}

/-- The owner of the handle makes a step. It never completes the task, and it leaves the value and
the workers alone. -/
theorem JoinOk.owner (h : JoinOk s) (heff : Effect s.sys a s'.sys)
    (hcall : ∀ t, callOf a ≠ some (some t, .setWaker)) (hready : ∀ t, a ≠ .poll t true)
    (hcompleted : s'.sys.state.isCompleted = s.sys.state.isCompleted)
    (hstage : s.sys.state.isCompleted = true → s'.sys.stage = s.sys.stage)
    (hstored : s'.stored = s.stored) (hreturned : s'.returned = s.returned)
    (hwaking : s'.waking = s.waking) (hwakings : s'.wakings = s.wakings)
    (hwaker : s.handleWaker = true → s'.handleWaker = true)
    (hfinished : s'.state ≠ .finished → s.state ≠ .finished)
    (hpended : Pended s' → Pended s ∨ s.sys.state.isCompleted = false)
    (hplace : HandleOk s')
    (hbit : s'.sys.state.hasJoinHandle = true → s'.handleWaker = true)
    (hattached : Pended s' → s'.sys.state.isCompleted = false →
      s'.sys.state.hasJoinHandle = true)
    (hlog : LogOk s') : JoinOk s' := by
  constructor
  case runner => exact h.runner.step heff
  case stage => exact h.stage.step h.runner heff
  case intact => exact fun t hpanic => h.intact t (stagePanic_step h.stage heff hpanic)
  case workers => exact h.workers_step heff hcall
  case place => exact hplace
  case word =>
    intro hc'
    rw [hcompleted] at hc'
    rw [state_of_completed h.runner heff hc']
    exact h.word hc'
  case unreturned =>
    intro hin
    rw [hreturned]
    exact h.unreturned (by_contra fun hne => stage_step heff hne hin)
  case stored =>
    rw [hstored, hreturned]
    exact fun hin => h.stored (stage_completed_step heff hready hin)
  case result =>
    intro hc' hfin
    rw [hcompleted] at hc'
    rw [hstage hc']
    exact h.result hc' (hfinished hfin)
  case waker => exact hbit
  case attached => exact hattached
  case waking =>
    intro t
    have hbefore := h.waking t
    unfold WakingOk at hbefore ⊢
    rw [hwaking, hwakings, hcompleted]
    split at hbefore
    · trivial
    · exact ⟨hbefore.1, hbefore.2.1, hwaker hbefore.2.2.1, hbefore.2.2.2⟩
    · exact hbefore
  case woken =>
    rw [hwakings, hcompleted]
    exact h.woken
  case once =>
    rw [hwakings]
    exact h.once
  case owed =>
    intro hp hc'
    rw [hcompleted] at hc'
    rw [hwakings, hwaking]
    rcases hpended hp with hbefore | hnot
    · exact h.owed hbefore hc'
    · rw [hc'] at hnot
      cases hnot
  case log => exact hlog

/-- The owner moves without a step on the task, and without an answer. -/
theorem JoinOk.moves (h : JoinOk s) (handle : HandlePc) (began : Bool × Bool)
    (hplace : HandleOk { s with handle, began }) : JoinOk { s with handle, began } :=
  h.owner (a := .takeResult) .noResult (by simp [callOf])
    (by simp) rfl (fun _ => rfl) rfl rfl rfl rfl id id Or.inl hplace h.waker
    h.attached (h.log.frame rfl rfl fun _ => id)

omit [DecidableEq T] in
/-- The log after an answer. -/
theorem LogOk.answer (h : LogOk s) (hfin : s.state ≠ .finished) {r : JoinPoll V}
    (hrecord : RecordOk s.returned ⟨s.began.1, s.began.2, r⟩) : LogOk (s.answer r) where
  fresh := by cases r <;> exact fun hnew => nomatch hnew
  pended := by
    cases r with
    | pending => exact fun _ => ⟨_, List.mem_cons_self, rfl⟩
    | ok | operationAborted => exact fun hpolled => nomatch hpolled
  pending := by
    cases r with
    | pending =>
        intro _ r' hr'
        rcases List.mem_cons.mp hr' with rfl | hold
        · rfl
        · exact h.pending hfin r' hold
    | ok | operationAborted => exact fun hnot => absurd rfl hnot
  once := h.pending hfin
  record := by
    intro r' hr'
    rcases List.mem_cons.mp hr' with rfl | hold
    · exact hrecord
    · exact h.record r' hold

omit [DecidableEq T] in
theorem pended_answer {r : JoinPoll V} (h : Pended (s.answer r)) : r = .pending ∨ Pended s := by
  obtain ⟨r', hr', hpending⟩ := h
  rcases List.mem_cons.mp hr' with rfl | hold
  · exact Or.inl hpending
  · exact Or.inr ⟨r', hold, hpending⟩

/-- `get_future_ret` loads the word. -/
theorem getState_ok (h : JoinOk s) (hhandle : s.handle = .getState) : JoinOk s.getState := by
  have hplace := h.place
  simp only [HandleOk, hhandle] at hplace
  obtain ⟨hidle, hbegan, hfin, hnew⟩ := hplace
  -- An answer without a result leaves the task alone.
  have hanswer : ∀ r : JoinPoll V, (r = .pending → Pended s ∧ s.sys.state.isCompleted = false) →
      RecordOk s.returned ⟨s.began.1, s.began.2, r⟩ → JoinOk (s.answer r) := by
    intro r hpending hrecord
    have hback : Pended (s.answer r) → Pended s := fun hp =>
      (pended_answer hp).elim (fun hr => (hpending hr).1) id
    exact h.owner (a := .takeResult) .noResult (by simp [callOf])
      (by simp) rfl (fun _ => rfl) rfl rfl rfl rfl id (fun _ => hfin)
      (fun hp => Or.inl (hback hp)) hidle h.waker (fun hp => h.attached (hback hp))
      (h.log.answer hfin hrecord)
  unfold getState
  split
  · -- Canceled.
    rename_i hx
    refine hanswer _ (by simp) ⟨fun hdone => ?_, fun _ => rfl, by simp⟩
    have hnot := h.not_canceled (hbegan.1 hdone)
    rw [hx] at hnot
    cases hnot
  · rename_i hx
    split
    · rename_i hc
      have hc : s.sys.state.isCompleted = false := by simpa using hc
      split
      · -- A new handle is only here because the task is over.
        rename_i hstate
        rcases hnew hstate with hdone | hcan
        · rw [hc] at hdone
          cases hdone
        · exact absurd hcan hx
      all_goals
        rename_i hstate
        refine hanswer _ (fun _ => ⟨?_, hc⟩) ⟨fun hdone => ?_, fun hcan => ?_, by simp⟩
        · first
            | exact h.log.pended hstate
            | exact absurd hstate hfin
        · have hdone := hbegan.1 hdone
          rw [hc] at hdone
          cases hdone
        · exact absurd (hbegan.2 hcan) hx
    · rename_i hc
      exact h.moves _ s.began ⟨hidle, hbegan, hfin, by simpa using hc⟩

/-- `get_future_ret` takes the result. -/
theorem takeStage_ok (h : JoinOk s) (hhandle : s.handle = .takeStage) : JoinOk s.takeStage := by
  have hplace := h.place
  simp only [HandleOk, hhandle] at hplace
  obtain ⟨hidle, hbegan, hfin, hc⟩ := hplace
  have hx := h.not_canceled hc
  have hstage := h.result hc hfin
  obtain ⟨v, hstored, hreturned⟩ := h.stored hstage
  have heff : Effect s.sys .takeResult { s.sys with stage := .extracted } := .takes hc hx
  unfold takeStage
  rw [hstage, hstored]
  have hback : Pended (s.answer (.ok v)) → Pended s := fun hp =>
    (pended_answer hp).resolve_left fun hr => nomatch hr
  have hlog : LogOk (s.answer (.ok v)) := by
    refine h.log.answer hfin ⟨fun _ => ⟨v, rfl⟩, fun hcan => ?_, fun v' hv' => ?_⟩
    · have hcan := hbegan.2 hcan
      rw [hx] at hcan
      cases hcan
    · cases hv'
      exact hreturned
  exact
    { runner := h.runner.step heff
      stage := h.stage.step h.runner heff
      intact := h.intact
      workers := h.workers
      place := hidle
      word := h.word
      unreturned := fun hin => nomatch hin
      stored := fun hin => nomatch hin
      result := fun _ hnot => absurd rfl hnot
      waker := h.waker
      attached := fun hp => h.attached (hback hp)
      waking := h.waking
      woken := h.woken
      once := h.once
      owed := fun hp => h.owed (hback hp)
      log := hlog.frame rfl rfl fun _ => id }

/-- The owner begins a call or goes on with one, which is not over with an answer. -/
theorem JoinOk.calls (h : JoinOk s) (handle : HandlePc) (began : Bool × Bool) (waker : Bool)
    {next : Sys (Option T)} (heff : Effect s.sys a next)
    (hactor : actor a = some none) (hready : ∀ t, a ≠ .poll t true)
    (hpc : ∀ lane val, s.sys.pc none ≠ .update (.toCompleted lane) val)
    (hwaker : s.handleWaker = true → waker = true)
    (hset : InCall .setWaker (s.sys.pc none) → s.sys.state.isCompleted = false → waker = true)
    (hplace : HandleOk { s with sys := next, handle, began, handleWaker := waker }) :
    JoinOk { s with sys := next, handle, began, handleWaker := waker } := by
  have hcompleted : next.state.isCompleted = s.sys.state.isCompleted := by
    cases hc : s.sys.state.isCompleted with
    | true => rw [state_of_completed h.runner heff hc, hc]
    | false =>
        rw [Bool.eq_false_iff]
        intro hc'
        obtain ⟨t, lane, rfl, hplace, -⟩ := completed_step h.runner heff hc hc'
        cases hactor
        exact hpc _ _ hplace
  have hbit : next.state.isCompleted = false →
      next.state.hasJoinHandle = s.sys.state.hasJoinHandle ∨
      next.state.hasJoinHandle = true ∧ InCall .setWaker (s.sys.pc none) := by
    intro hc'
    refine (hasJoinHandle_step heff hc').imp_right ?_
    rintro ⟨hset, t, rfl, hin⟩
    cases hactor
    exact ⟨hset, hin⟩
  refine h.owner heff ?_ hready hcompleted ?_ rfl rfl rfl rfl hwaker id Or.inl hplace ?_ ?_
    (h.log.frame rfl rfl fun _ => id)
  · intro t hcall
    cases a <;> cases hcall
    cases hactor
  · refine fun hc => stage_of_completed h.runner h.stage heff hc (h.not_canceled hc) ?_
    rintro rfl
    cases hactor
  · intro hhas
    cases hc' : next.state.isCompleted with
    | true =>
        have hc := hcompleted.symm.trans hc'
        have hhas : next.state.hasJoinHandle = true := hhas
        rw [state_of_completed h.runner heff hc] at hhas
        exact hwaker (h.waker hhas)
    | false =>
        rcases hbit hc' with hsame | ⟨-, hin⟩
        · exact hwaker (h.waker (hsame ▸ hhas))
        · exact hset hin (hcompleted.symm.trans hc')
  · intro hp hc'
    rcases hbit hc' with hsame | ⟨hhas, -⟩
    · exact hsame.trans (h.attached hp (hcompleted.symm.trans hc'))
    · exact hhas

/-- The handle is polled. -/
theorem poll_ok (h : JoinOk s) (hstep : s.poll = some s') : JoinOk s' := by
  simp only [poll, Option.ite_none_right_eq_some] at hstep
  obtain ⟨hhandle, hstep⟩ := hstep
  have hidle := h.place
  simp only [HandleOk, hhandle] at hidle
  split at hstep
  · rename_i hstate
    obtain ⟨next, hnext, rfl⟩ := Option.map_eq_some_iff.mp hstep
    have heff := effect_of_step hnext
    obtain rfl := heff.begins rfl
    refine h.calls _ _ true heff rfl (by simp) (by simp [hidle]) (fun _ => rfl)
      (fun _ _ => rfl) ⟨hstate, ⟨id, id⟩, fun _ => rfl, none, goto_pc_self .., ?_⟩
    exact fun v hv => nomatch hv
  · rename_i hstate
    cases hstep
    have hstate : s.state = .polled := hstate
    exact h.moves _ _ ⟨hidle, ⟨id, id⟩, by simp [hstate], by simp [hstate]⟩
  · rename_i hstate
    cases hstep
    exact h.moves _ _ ⟨hidle, rfl, hstate⟩

/-- The task is aborted through the handle. -/
theorem abort_ok (h : JoinOk s) (hstep : s.step .abort = some s') : JoinOk s' := by
  simp only [step, Option.ite_none_right_eq_some, Option.map_eq_some_iff] at hstep
  obtain ⟨hhandle, next, hnext, rfl⟩ := hstep
  have hidle := h.place
  simp only [HandleOk, hhandle] at hidle
  have heff := effect_of_step hnext
  obtain rfl := heff.begins rfl
  refine h.calls _ s.began s.handleWaker heff rfl
    (by simp) (by simp [hidle]) id ?_ (Or.inl ⟨none, goto_pc_self ..⟩)
  rintro ⟨val, hpc⟩
  rw [hidle] at hpc
  cases hpc

/-- `abort` goes on. -/
theorem aborting_ok (h : JoinOk s) (hhandle : s.handle = .aborting)
    (hstep : s.stepHandle = some s') : JoinOk s' := by
  simp only [stepHandle, hhandle, Option.map_eq_some_iff] at hstep
  obtain ⟨next, hnext, rfl⟩ := hstep
  have hplace := h.place
  simp only [HandleOk, hhandle] at hplace
  have heff := effect_of_advance hnext
  refine h.calls _ s.began s.handleWaker heff rfl
    (by simp) ?_ id ?_ ?_
  · intro lane val hpc
    rcases hplace with ⟨_, hpc'⟩ | hpc' <;> rw [hpc] at hpc' <;> cases hpc'
  · rintro ⟨val, hpc⟩
    rcases hplace with ⟨_, hpc'⟩ | hpc' <;> rw [hpc] at hpc' <;> cases hpc'
  · have hnext : next.pc none = .idle ∨ InCall .abort (next.pc none) ∨
        next.pc none = .clearStage := by
      rcases hplace with ⟨val, hpc⟩ | hpc
      · rcases heff.update hpc with rfl | ⟨v, p, -, hasserts, -⟩ | ⟨v, pc, -, -, hleaves, rfl⟩ |
          ⟨new, pc, -, hst, rfl⟩
        · exact Or.inr (Or.inl ⟨_, goto_pc_self ..⟩)
        · cases hasserts
        · cases hleaves
          exact Or.inl (goto_pc_self ..)
        · cases hst
          rw [goto_pc_self]
          split <;> simp
      · rw [heff.clearStage hpc]
        exact Or.inl (goto_pc_self ..)
    by_cases hidle : next.pc none = .idle
    · rw [if_pos hidle]
      exact hidle
    · rw [if_neg hidle]
      exact hnext.resolve_left hidle

/-- When `set_waker` leaves the word, the task is over. -/
theorem setWaker_leaves {v : TaskStateSnapshot} {next : Pc}
    (hcl : Op.setWaker.closure v = .ok (none, next)) :
    (TaskState.setWaker v).2 = false ∧ (v.isCompleted = true ∨ v.isCanceled = true) := by
  simp only [Op.closure, TaskState.setWaker] at hcl ⊢
  split at hcl
  · rename_i hover
    simp_all
  · cases hcl

/-- `set_waker` goes on. -/
theorem setWaker_ok (h : JoinOk s) (hhandle : s.handle = .setWaker)
    (hstep : s.stepSetWaker = some s') : JoinOk s' := by
  obtain ⟨next, hnext, rfl⟩ := Option.map_eq_some_iff.mp hstep
  have hplace := h.place
  simp only [HandleOk, hhandle] at hplace
  obtain ⟨hnew, hbegan, hwaker, val, hpc, hread⟩ := hplace
  have hpc' : ∀ lane val', s.sys.pc none ≠ .update (.toCompleted lane) val' := by simp [hpc]
  have heff := effect_of_advance hnext
  have hfin : s.state ≠ .finished := by simp [hnew]
  have hactivity := h.runner.activity none
  rw [hpc] at hactivity
  rcases heff.update hpc with rfl | ⟨v, p, rfl, hasserts, -⟩ | ⟨v, pc, rfl, hcl, hleaves, rfl⟩ |
    ⟨new, pc, rfl, hst, rfl⟩
  · -- The word is read, for the first time or again.
    have hsame : ∀ {u : JoinSys T V}, u = { s with
        sys := s.sys.goto none (.update .setWaker (some s.sys.state)) } → JoinOk u := by
      rintro u rfl
      refine h.calls s.handle s.began s.handleWaker
        (.load hpc) rfl (by simp) hpc' id (fun _ => hwaker) ?_
      simp only [HandleOk, hhandle]
      refine ⟨hnew, hbegan, hwaker, some s.sys.state, goto_pc_self .., ?_⟩
      intro v hv hc
      cases hv
      exact hc
    refine hsame ?_
    rw [hpc]
    cases val with
    | none => rfl
    | some v => simp [goto_pc_self]
  · cases hasserts
  · -- The task is over, and the handle goes on to take what there is.
    cases hleaves
    obtain ⟨hfalse, hover⟩ := setWaker_leaves hcl
    rw [hpc]
    simp only [goto_pc_self, if_true, hfalse]
    refine h.calls _ s.began s.handleWaker (.leaves hpc hcl .setWaker) rfl
      (by simp) hpc' id (fun _ => hwaker)
      ⟨goto_pc_self .., hbegan, hfin, fun _ => ?_⟩
    exact hover.imp (hread _ rfl) (hactivity _ rfl).1.canceled
  · -- The bit is set with the waker in place, and the answer is `Pending`.
    cases hst with
    | setWaker hc hx =>
        obtain ⟨p, hphase⟩ := h.runner.phase
        have htrue : (TaskState.setWaker s.sys.state).2 = true := by
          simp [TaskState.setWaker, hc, hx]
        have hcompleted : s.sys.state.setJoinHandle.isCompleted = s.sys.state.isCompleted := by
          rw [hphase.setJoinHandle.completed, hphase.completed]
        have hbit : s.sys.state.setJoinHandle.hasJoinHandle = true := by
          simp [hasJoinHandle_eq, flag_setJoinHandle]
        have hlog : LogOk (s.answer .pending) := by
          refine h.log.answer hfin ⟨fun hdone => ?_, fun hcan => ?_, by simp⟩
          · have hdone := hbegan.1 hdone
            rw [hc] at hdone
            cases hdone
          · have hcan := hbegan.2 hcan
            rw [hx] at hcan
            cases hcan
        rw [hpc]
        simp only [goto_pc_self, if_true, htrue]
        exact h.owner (a := .advance none) (.stores hpc (.setWaker hc hx))
          (by simp [callOf]) (by simp) hcompleted
          (fun _ => rfl) rfl rfl rfl rfl id (fun _ => hfin) (fun _ => Or.inr hc)
          (goto_pc_self ..) (fun _ => hwaker hc) (fun _ _ => hbit)
          (hlog.frame rfl rfl fun _ => id)

end Owner

/-! ### What the owner of the handle sees -/

section Runs

variable {T V : Type} [DecidableEq T] {s s' : JoinSys T V}

theorem joinStep_ok (h : JoinOk s) {act : JoinHandleAction T V} (hstep : s.step act = some s') :
    JoinOk s' := by
  cases act with
  | wake t | wakeSafety t | pop t lane | pending t | push t fits =>
      refine worker_ok h hstep rfl (by simp [callOf]) (by simp) ?_
      -- None of these is an exchange.
      intro _ hc
      obtain ⟨next, hnext, rfl⟩ := worker_eq_some hstep
      rw [Bool.eq_false_iff]
      intro hc'
      obtain ⟨_, _, ha, _⟩ := completed_step h.runner (effect_of_step hnext) hc hc'
      cases ha
  | advance t => exact advance_ok h hstep
  | ready t v => exact ready_ok h hstep
  | wakeHandle t => exact wakeHandle_ok h hstep
  | poll => exact poll_ok h hstep
  | abort => exact abort_ok h hstep
  | handle =>
      have hstep : s.stepHandle = some s' := hstep
      cases hhandle : s.handle with
      | setWaker =>
          simp only [stepHandle, hhandle] at hstep
          exact setWaker_ok h hhandle hstep
      | getState =>
          simp only [stepHandle, hhandle, Option.some.injEq] at hstep
          exact hstep ▸ getState_ok h hhandle
      | takeStage =>
          simp only [stepHandle, hhandle, Option.some.injEq] at hstep
          exact hstep ▸ takeStage_ok h hhandle
      | aborting => exact aborting_ok h hhandle hstep
      | idle | panicked e => simp [stepHandle, hhandle] at hstep

theorem joinOk_of_reaches {lane : Lane} {hasSafety : Bool}
    (hrun : Reaches JoinSys.step anyStep (JoinSys.spawned lane hasSafety) s) : JoinOk s :=
  hrun.invariant (joinOk_spawned lane hasSafety) fun _ _ _ h _ hstep => joinStep_ok h hstep

/-- A step leaves the word alone, or is a step on the task. -/
theorem joinStep_word {act : JoinHandleAction T V} (hstep : s.step act = some s') :
    s'.sys.state = s.sys.state ∨ ∃ a, s.sys.step a = some s'.sys := by
  cases act with
  | wake t | wakeSafety t | pop t lane | pending t | push t fits =>
      obtain ⟨next, hnext, rfl⟩ := worker_eq_some hstep
      exact Or.inr ⟨_, hnext⟩
  | advance t | ready t v =>
      obtain ⟨s₁, hs₁, rfl⟩ := Option.map_eq_some_iff.mp hstep
      obtain ⟨next, hnext, rfl⟩ := worker_eq_some hs₁
      refine Or.inr ⟨_, hnext.trans ?_⟩
      first
      | rfl
      | split <;> rfl
  | wakeHandle t =>
      simp only [step, wakeHandle] at hstep
      repeat' split at hstep
      all_goals cases hstep
      all_goals exact Or.inl rfl
  | poll =>
      simp only [step, poll] at hstep
      repeat' split at hstep
      · obtain ⟨next, hnext, rfl⟩ := Option.map_eq_some_iff.mp hstep
        exact Or.inr ⟨_, hnext⟩
      all_goals cases hstep
      all_goals exact Or.inl rfl
  | abort =>
      simp only [step, Option.ite_none_right_eq_some] at hstep
      obtain ⟨next, hnext, rfl⟩ := Option.map_eq_some_iff.mp hstep.2
      exact Or.inr ⟨_, hnext⟩
  | handle =>
      simp only [step, stepHandle] at hstep
      split at hstep
      · obtain ⟨next, hnext, rfl⟩ := Option.map_eq_some_iff.mp hstep
        refine Or.inr ⟨.advance none, hnext.trans ?_⟩
        repeat' split
        all_goals rfl
      · cases hstep
        unfold getState
        repeat' split
        all_goals exact Or.inl rfl
      · cases hstep
        unfold takeStage
        split
        all_goals exact Or.inl rfl
      · obtain ⟨next, hnext, rfl⟩ := Option.map_eq_some_iff.mp hstep
        exact Or.inr ⟨.advance none, hnext⟩
      all_goals cases hstep

/-- A task that was canceled stays so. -/
theorem canceled_stays (h : JoinOk s) (hx : s.sys.state.isCanceled = true)
    (hrun : Reaches JoinSys.step anyStep s s') : s'.sys.state.isCanceled = true := by
  refine (hrun.invariant (I := fun s => JoinOk s ∧ s.sys.state.isCanceled = true) ⟨h, hx⟩ ?_).2
  rintro s act s' ⟨h, hx⟩ - hstep
  refine ⟨joinStep_ok h hstep, ?_⟩
  rcases joinStep_word hstep with heq | ⟨a, ha⟩
  · rwa [heq]
  · rwa [state_of_canceled h.runner (effect_of_step ha) hx]

/-- A poll that begins after a `Pending` answer and a completion returns the result. -/
theorem poll_completed (h : JoinOk s) (hhandle : s.handle = .idle) (hstate : s.state = .polled)
    (hc : s.sys.state.isCompleted = true) :
    ∃ v s₁ s₂ s₃, s.returned = some v ∧ s.step .poll = some s₁ ∧ s₁.step .handle = some s₂ ∧
      s₂.step .handle = some s₃ ∧ s₃.log = ⟨true, false, .ok v⟩ :: s.log := by
  have hx := h.not_canceled hc
  have hstage := h.result hc (by simp [hstate])
  obtain ⟨v, hstored, hreturned⟩ := h.stored hstage
  let s₁ := { s with
    began := (s.sys.state.isCompleted, s.sys.state.isCanceled), handle := HandlePc.getState }
  let s₂ := { s₁ with handle := HandlePc.takeStage }
  refine ⟨v, s₁, s₂, s₂.takeStage, hreturned, ?_, ?_, rfl, ?_⟩
  · simp [step, poll, hhandle, hstate, s₁]
  · simp [step, stepHandle, getState, s₁, s₂, hc, hx]
  · simp [takeStage, s₁, s₂, hstage, hstored, answer, hc, hx]

/-- Nothing keeps a worker that is to wake the handle from it. -/
theorem wakeHandle_of_takeWaker {t : T} (htake : s.waking t = .takeWaker)
    (hzero : s.wakings = 0) (hwaker : s.handleWaker = true) :
    ∃ s', s.step (.wakeHandle t) = some s' ∧ s'.wakings = 1 := by
  simp [step, wakeHandle, htake, hwaker, hzero]

/-- `Ready(Ok(_))`. -/
def isOk : JoinPoll V → Bool
  | .ok _ => true
  | _ => false

/-- At most one poll has answered with a result. -/
theorem countP_isOk_le_one {log : List (PollRecord V)}
    (honce : ∀ r ∈ log.tail, r.answer = .pending) : log.countP (fun r => isOk r.answer) ≤ 1 := by
  cases log with
  | nil => exact Nat.zero_le _
  | cons r rest =>
      have hzero : rest.countP (fun r => isOk r.answer) = 0 := by
        rw [List.countP_eq_zero]
        intro r' hr'
        rw [honce r' hr']
        simp [isOk]
      rw [List.countP_cons, hzero]
      split <;> decide

end Runs

end Kyron.Proofs.Task
