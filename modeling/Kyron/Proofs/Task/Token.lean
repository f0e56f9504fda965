import Kyron.Proofs.Task.State
import Kyron.Task.AsyncTask

/-!
# `Kyron.Proofs.Task.Token`: one reference to the task is in use

At any time at most one reference to a task can lead to a poll: an entry of a queue, an
activity that is about to push one, or a worker that has taken one and polls. `Token` says
where it is. `TaskOk` ties the token to the state word: while the task is idle and not
notified there is no token, so a wake that finds it so creates the only one; while a worker
runs the task it holds the token.

The rule has one exception in the source. `set_safety_notified` looks at the safety bit only,
so a safety wake of an idle task that is already notified creates a second token.
`SingleNotify` is the condition that this does not happen, and `step_taskOk` shows that every
step that meets it keeps `TaskOk`.
-/

set_option autoImplicit false

namespace Kyron.Proofs.Task

open Kyron.Task

/-! ### What a closure does -/

/-- The closure of `op` stores `new` over the word `v`, and the call goes on at the `Pc`. -/
inductive Stores (v : TaskStateSnapshot) : Op → TaskStateSnapshot → Pc → Prop
  | schedule (hc : v.isCompleted = false) (hn : v.isNotified = false) (hx : v.isCanceled = false) :
      Stores v .schedule v.setNotified (if v.isRunning then .idle else .respawn .normal)
  | scheduleSafety (hc : v.isCompleted = false) (hx : v.isCanceled = false) :
      Stores v .scheduleSafety v.setSafetyNotified
        (if v.isRunning then .idle else .respawn .safety)
  | abort (hc : v.isCompleted = false) (hx : v.isCanceled = false) :
      Stores v .abort v.setCanceled (if v.isRunning then .idle else .clearStage)
  | setWaker (hc : v.isCompleted = false) (hx : v.isCanceled = false) :
      Stores v .setWaker v.setJoinHandle .idle
  | toRunning (worker : Lane) (hi : v.isIdle = true) (hr : v.isRunning = false)
      (hc : v.isCompleted = false) (hx : v.isCanceled = false) :
      Stores v (.toRunning worker) v.unsetNotified.setRunning (.polling worker)
  | toIdle (worker : Lane) (hr : v.isRunning = true) (hx : v.isCanceled = false) :
      Stores v (.toIdle worker) v.setIdle (if v.isNotified then .repush worker else .idle)
  | toCompleted (worker : Lane) (hr : v.isRunning = true) (hx : v.isCanceled = false) :
      Stores v (.toCompleted worker) ⟨taskStateCompleted⟩ .idle

/-- The closure of `op` leaves the word `v` as it is, and the call goes on at the `Pc`. -/
inductive Leaves (v : TaskStateSnapshot) : Op → Pc → Prop
  | schedule (h : v.isCompleted = true ∨ v.isNotified = true ∨ v.isCanceled = true) :
      Leaves v .schedule .idle
  | scheduleSafety : Leaves v .scheduleSafety .idle
  | abort : Leaves v .abort .idle
  | setWaker : Leaves v .setWaker .idle
  | alreadyRunning (worker : Lane) (h : v.isRunning = true) : Leaves v (.toRunning worker) .idle
  | runsCompleted (worker : Lane) (h : v.isCompleted = true) :
      Leaves v (.toRunning worker) (.polling worker)
  | runsAborted (worker : Lane) (hx : v.isCanceled = true) : Leaves v (.toRunning worker) .idle
  | idleAborted (worker : Lane) (hx : v.isCanceled = true) : Leaves v (.toIdle worker) .clearStage
  | completedAborted (worker : Lane) (hx : v.isCanceled = true) :
      Leaves v (.toCompleted worker) .clearStage

/-- The closure of `op` fails an assertion on the word `v`. -/
inductive Asserts (v : TaskStateSnapshot) : Op → Prop
  | toRunning (worker : Lane) (hr : v.isRunning = false) (hi : v.isIdle = false) :
      Asserts v (.toRunning worker)
  | toIdle (worker : Lane) (h : v.isRunning = false ∨ v.isIdle = true) : Asserts v (.toIdle worker)
  | toCompleted (worker : Lane) (h : v.isRunning = false ∨ v.isCompleted = true) :
      Asserts v (.toCompleted worker)

/-- The three outcomes of a closure: it fails an assertion, leaves the word or stores a new one. -/
def ClosureOutcome (op : Op) (v : TaskStateSnapshot) : Prop :=
  (∃ p, op.closure v = .error p ∧ Asserts v op) ∨
  (∃ next, op.closure v = .ok (none, next) ∧ Leaves v op next) ∨
  (∃ new next, op.closure v = .ok (some new, next) ∧ Stores v op new next)

section Closures

variable (v : TaskStateSnapshot) (worker : Lane)

theorem schedule_cases : ClosureOutcome .schedule v := by
  right
  by_cases h : v.isCompleted || v.isNotified || v.isCanceled
  · refine Or.inl ⟨.idle, ?_, .schedule (by simpa [or_assoc] using h)⟩
    simp [Op.closure, TaskState.setNotified, h]
  · have h' := h
    simp only [Bool.or_eq_true, not_or, Bool.not_eq_true] at h'
    refine Or.inr ⟨_, _, ?_, .schedule h'.1.1 h'.1.2 h'.2⟩
    cases hr : v.isRunning <;> simp [Op.closure, TaskState.setNotified, h, hr]

theorem scheduleSafety_cases : ClosureOutcome .scheduleSafety v := by
  right
  by_cases h : v.isCompleted || v.isSafetyNotified || v.isCanceled
  · refine Or.inl ⟨.idle, ?_, .scheduleSafety⟩
    simp [Op.closure, TaskState.setSafetyNotified, h]
  · have h' := h
    simp only [Bool.or_eq_true, not_or, Bool.not_eq_true] at h'
    refine Or.inr ⟨_, _, ?_, .scheduleSafety h'.1.1 h'.2⟩
    cases hr : v.isRunning <;> simp [Op.closure, TaskState.setSafetyNotified, h, hr]

theorem abort_cases : ClosureOutcome .abort v := by
  right
  by_cases h : v.isCompleted || v.isCanceled
  · refine Or.inl ⟨.idle, ?_, .abort⟩
    simp [Op.closure, TaskState.transitionToCanceled, h]
  · have h' := h
    simp only [Bool.or_eq_true, not_or, Bool.not_eq_true] at h'
    refine Or.inr ⟨_, _, ?_, .abort h'.1 h'.2⟩
    cases hr : v.isRunning <;> simp [Op.closure, TaskState.transitionToCanceled, h, hr]

theorem setWaker_cases : ClosureOutcome .setWaker v := by
  right
  by_cases h : v.isCompleted || v.isCanceled
  · refine Or.inl ⟨.idle, ?_, .setWaker⟩
    simp [Op.closure, TaskState.setWaker, h]
  · have h' := h
    simp only [Bool.or_eq_true, not_or, Bool.not_eq_true] at h'
    refine Or.inr ⟨_, _, ?_, .setWaker h'.1 h'.2⟩
    simp [Op.closure, TaskState.setWaker, h]

theorem toRunning_cases : ClosureOutcome (.toRunning worker) v := by
  by_cases hr : v.isRunning = true
  · refine Or.inr (Or.inl ⟨.idle, ?_, .alreadyRunning worker hr⟩)
    simp [Op.closure, TaskState.transitionToRunning, hr]
    rfl
  rw [Bool.not_eq_true] at hr
  by_cases hi : v.isIdle = true
  · right
    by_cases hc : v.isCompleted = true
    · refine Or.inl ⟨.polling worker, ?_, .runsCompleted worker hc⟩
      simp [Op.closure, TaskState.transitionToRunning, hr, hi, hc]
      rfl
    rw [Bool.not_eq_true] at hc
    by_cases hx : v.isCanceled = true
    · refine Or.inl ⟨.idle, ?_, .runsAborted worker hx⟩
      simp [Op.closure, TaskState.transitionToRunning, hr, hi, hc, hx]
      rfl
    · rw [Bool.not_eq_true] at hx
      refine Or.inr ⟨_, _, ?_, .toRunning worker hi hr hc hx⟩
      simp [Op.closure, TaskState.transitionToRunning, hr, hi, hc, hx]
      rfl
  · rw [Bool.not_eq_true] at hi
    refine Or.inl ⟨.runningNotIdle, ?_, .toRunning worker hr hi⟩
    simp [Op.closure, TaskState.transitionToRunning, hr, hi]
    rfl

theorem toIdle_cases : ClosureOutcome (.toIdle worker) v := by
  by_cases hr : v.isRunning = true
  · by_cases hi : v.isIdle = true
    · refine Or.inl ⟨.idleAlreadyIdle, ?_, .toIdle worker (Or.inr hi)⟩
      simp [Op.closure, TaskState.transitionToIdle, hr, hi]
      rfl
    rw [Bool.not_eq_true] at hi
    right
    by_cases hx : v.isCanceled = true
    · refine Or.inl ⟨.clearStage, ?_, .idleAborted worker hx⟩
      simp [Op.closure, TaskState.transitionToIdle, hr, hi, hx]
      rfl
    · rw [Bool.not_eq_true] at hx
      refine Or.inr ⟨_, _, ?_, .toIdle worker hr hx⟩
      cases hn : v.isNotified <;> simp [Op.closure, TaskState.transitionToIdle, hr, hi, hx, hn]
        <;> rfl
  · rw [Bool.not_eq_true] at hr
    refine Or.inl ⟨.idleNotRunning, ?_, .toIdle worker (Or.inl hr)⟩
    simp [Op.closure, TaskState.transitionToIdle, hr]
    rfl

theorem toCompleted_cases : ClosureOutcome (.toCompleted worker) v := by
  by_cases hr : v.isRunning = true
  · by_cases hc : v.isCompleted = true
    · refine Or.inl ⟨.completedTwice, ?_, .toCompleted worker (Or.inr hc)⟩
      simp [Op.closure, TaskState.transitionToCompleted, hr, hc]
      rfl
    rw [Bool.not_eq_true] at hc
    right
    by_cases hx : v.isCanceled = true
    · refine Or.inl ⟨.clearStage, ?_, .completedAborted worker hx⟩
      simp [Op.closure, TaskState.transitionToCompleted, hr, hc, hx]
      rfl
    · rw [Bool.not_eq_true] at hx
      refine Or.inr ⟨_, _, ?_, .toCompleted worker hr hx⟩
      cases hj : v.hasJoinHandle <;>
        simp [Op.closure, TaskState.transitionToCompleted, hr, hc, hx, hj] <;> rfl
  · rw [Bool.not_eq_true] at hr
    refine Or.inl ⟨.completedNotRunning, ?_, .toCompleted worker (Or.inl hr)⟩
    simp [Op.closure, TaskState.transitionToCompleted, hr]
    rfl

theorem closure_cases (op : Op) (v : TaskStateSnapshot) : ClosureOutcome op v := by
  cases op with
  | schedule => exact schedule_cases v
  | scheduleSafety => exact scheduleSafety_cases v
  | abort => exact abort_cases v
  | setWaker => exact setWaker_cases v
  | toRunning worker => exact toRunning_cases v worker
  | toIdle worker => exact toIdle_cases v worker
  | toCompleted worker => exact toCompleted_cases v worker

end Closures

/-! ### The token -/

/-- Where the reference is that can lead to the next poll. -/
inductive Token (T : Type)
  | none
  | queued (lane : Lane)
  | held (t : T)
  deriving DecidableEq

/-- A word `v` read by the holder of the token: it is in the phase `p`, and if it was canceled
the task still is. -/
def ReadBy {T : Type} (s : Sys T) (p : Phase) (val : Option TaskStateSnapshot) : Prop :=
  ∀ v ∈ val, InPhase p v ∧ (v.isCanceled = true → s.state.isCanceled = true)

/-- What holds of an activity `t` that stands at a `Pc`. `calm` says that the run has no safety
wakes and no refused pushes. -/
def ActivityOk {T : Type} (calm : Prop) (s : Sys T) (p : Phase) (k : Token T) (t : T) : Pc → Prop
  | .idle | .overflow | .update .abort _ | .update .setWaker _ => k ≠ .held t
  | .update .schedule _ => k ≠ .held t ∧ 0 < s.polls
  | .update .scheduleSafety _ => k ≠ .held t ∧ 0 < s.polls ∧ ¬ calm
  | .update (.toRunning _) val => k = .held t ∧ p = .idle ∧ ReadBy s .idle val
  | .update (.toIdle _) val =>
      k = .held t ∧ p = .running ∧ s.stage = .inProgress ∧ ReadBy s .running val
  | .update (.toCompleted _) val => k = .held t ∧ p = .running ∧ ReadBy s .running val
  | .respawn lane => k = .held t ∧ p = .idle ∧ (calm → lane = .normal)
  | .repush _ => k = .held t ∧ p = .idle
  | .polling _ | .inFuture _ => k = .held t ∧ p = .running ∧ s.stage = .inProgress
  | .clearStage => k ≠ .held t ∧ s.state.isCanceled = true ∧ (p = .idle ∨ k = .none)
  | .panicked _ => False

/-- The invariant of a task in phase `p` whose token is at `k`. -/
structure TaskOk {T : Type} [DecidableEq T] (calm : Prop) (s : Sys T) (p : Phase) (k : Token T) :
    Prop where
  phase : InPhase p s.state
  entries : ∀ lane, s.entries lane = if k = .queued lane then 1 else 0
  queued : ∀ lane, k = .queued lane → p = .idle
  fresh : p = .idle → s.state.isNotified = false → s.state.isCanceled = false → 0 < s.polls →
    k = .none
  owed : calm → p = .idle → s.state.isNotified = true → s.state.isCanceled = false → k ≠ .none
  stage : p = .idle → s.state.isCanceled = false → s.stage = .inProgress
  activity : ∀ t, ActivityOk calm s p k t (s.pc t)

section Frame

variable {T : Type} {calm : Prop} {s s' : Sys T} {p p' : Phase} {k k' : Token T} {t : T} {pc : Pc}

/-- An activity keeps its place when the phase, the token and the stage stay. -/
theorem ActivityOk.frame (h : ActivityOk calm s p k t pc)
    (hstage : s'.stage = s.stage) (hpolls : s.polls ≤ s'.polls)
    (hcanceled : s.state.isCanceled = true → s'.state.isCanceled = true) :
    ActivityOk calm s' p k t pc := by
  have hread : ∀ (q : Phase) (val : Option TaskStateSnapshot), ReadBy s q val → ReadBy s' q val :=
    fun q val hr v hv => ⟨(hr v hv).1, fun hx => hcanceled ((hr v hv).2 hx)⟩
  unfold ActivityOk at h ⊢
  split at h <;> simp_all <;> omega

/-- An activity that does not hold the token keeps its place when the token stays away from
it. -/
theorem ActivityOk.frame_unheld (h : ActivityOk calm s p k t pc)
    (hk : k ≠ .held t) (hk' : k' ≠ .held t) (hpolls : s.polls ≤ s'.polls)
    (hcanceled : s.state.isCanceled = true →
      s'.state.isCanceled = true ∧ (p = .idle ∨ k = .none → p' = .idle ∨ k' = .none)) :
    ActivityOk calm s' p' k' t pc := by
  unfold ActivityOk at h ⊢
  split at h <;> simp_all <;> omega

/-- The stage matters only to the worker that runs the task. -/
theorem ActivityOk.setStage (h : ActivityOk calm s p k t pc) (stage : TaskStage)
    (hrun : p = .running → k ≠ .held t) : ActivityOk calm { s with stage } p k t pc := by
  unfold ActivityOk at h ⊢
  split at h <;> simp_all [ReadBy]

/-- An activity that reads the word again. -/
theorem ActivityOk.reload {op : Op} {val : Option TaskStateSnapshot} (hphase : InPhase p s.state)
    (h : ActivityOk calm s p k t (.update op val)) :
    ActivityOk calm s p k t (.update op (some s.state)) := by
  have hread : ∀ q, p = q → ReadBy s q (some s.state) := by
    rintro q rfl v hv
    cases hv
    exact ⟨hphase, id⟩
  cases op with
  | schedule | scheduleSafety | abort | setWaker => exact h
  | toRunning worker => exact ⟨h.1, h.2.1, hread _ h.2.1⟩
  | toIdle worker => exact ⟨h.1, h.2.1, h.2.2.1, hread _ h.2.1⟩
  | toCompleted worker => exact ⟨h.1, h.2.1, hread _ h.2.1⟩

end Frame

variable {T : Type} [DecidableEq T] {calm : Prop} {s s' : Sys T} {p p' : Phase} {k k' : Token T}
  {t : T}

/-- The activities of a system in which `t` has moved. -/
theorem activity_goto {pc : Pc} (hself : ActivityOk calm s p k t pc)
    (hothers : ∀ t' ≠ t, ActivityOk calm s p k t' (s.pc t')) (t' : T) :
    ActivityOk calm (s.goto t pc) p k t' ((s.goto t pc).pc t') := by
  unfold Sys.goto
  by_cases ht : t' = t
  · subst ht
    dsimp only
    rw [Function.update_self]
    exact hself
  · dsimp only
    rw [Function.update_of_ne ht]
    exact hothers t' ht

/-- Moving an activity and nothing else. -/
theorem TaskOk.goto {pc : Pc} (h : TaskOk calm s p k) (hself : ActivityOk calm s p k t pc) :
    TaskOk calm (s.goto t pc) p k :=
  { h with activity := activity_goto hself fun t' _ => h.activity t' }

/-- The holder of the token gives it up and goes idle. In a calm run this happens only when no
poll is owed any more. -/
theorem TaskOk.drop {pc : Pc} (h : TaskOk calm s p k) (hk : k = .held t)
    (hself : ActivityOk calm s p .none t pc)
    (howed : calm → p = .idle → s.state.isNotified = true → s.state.isCanceled = true) :
    TaskOk calm (s.goto t pc) p .none where
  phase := h.phase
  entries := by
    intro lane
    have := h.entries lane
    simp_all [Sys.goto]
  queued := by simp
  fresh := by simp
  owed := by
    intro hc hp hn hx
    change s.state.isCanceled = false at hx
    rw [howed hc hp hn] at hx
    cases hx
  stage := h.stage
  activity := activity_goto hself fun t' ht' =>
    (h.activity t').frame_unheld (by rw [hk]; simpa using Ne.symm ht') (by simp) (Nat.le_refl _)
      fun hx => ⟨hx, fun _ => Or.inr rfl⟩

/-- A new word in the same phase that does not take back a cancellation. -/
theorem TaskOk.setState (h : TaskOk calm s p k) {new : TaskStateSnapshot} (hphase : InPhase p new)
    (hcanceled : s.state.isCanceled = true → new.isCanceled = true)
    (hfresh : p = .idle → new.isNotified = false → new.isCanceled = false → 0 < s.polls → k = .none)
    (howed : calm → p = .idle → new.isNotified = true → new.isCanceled = false → k ≠ .none) :
    TaskOk calm { s with state := new } p k where
  phase := hphase
  entries := h.entries
  queued := h.queued
  fresh := hfresh
  owed := howed
  stage := by
    intro hp hx
    refine h.stage hp (Bool.eq_false_iff.mpr fun hcan => ?_)
    rw [show _ = _ from hcanceled hcan] at hx
    cases hx
  activity := fun t => (h.activity t).frame rfl (Nat.le_refl _) hcanceled

/-- A wake of an idle task without a token: the activity takes the token that it creates. -/
theorem TaskOk.create (h : TaskOk calm s .idle .none) {new : TaskStateSnapshot} {lane : Lane}
    (hphase : InPhase .idle new) (hx : s.state.isCanceled = false)
    (hnotified : new.isNotified = true)
    (hlane : calm → lane = .normal) :
    TaskOk calm ({ s with state := new }.goto t (.respawn lane)) .idle (.held t) where
  phase := hphase
  entries := by
    intro lane
    have := h.entries lane
    simp_all [Sys.goto]
  queued := by simp
  fresh := by
    intro _ hn
    change new.isNotified = false at hn
    rw [hnotified] at hn
    cases hn
  owed := by simp
  stage := fun hp _ => h.stage hp hx
  activity := activity_goto ⟨rfl, rfl, hlane⟩ fun t' ht' =>
    (h.activity t').frame_unheld (by simp) (by simpa using Ne.symm ht') (Nat.le_refl _)
      fun hx' => by simp [hx] at hx'

/-- The holder of the token moves a task that is not canceled to another phase, and keeps the
token or gives it up. -/
theorem TaskOk.move (h : TaskOk calm s p (.held t)) (hx : s.state.isCanceled = false)
    {new : TaskStateSnapshot} {n : Nat} {pc : Pc} (hphase : InPhase p' new)
    (hk : k' = .held t ∨ k' = .none) (hpolls : s.polls ≤ n)
    (hstage : p' = .idle → s.stage = .inProgress)
    (hfresh : p' = .idle → new.isNotified = false → k' = .none)
    (howed : p' = .idle → new.isNotified = true → k' ≠ .none)
    (hself : ActivityOk calm { s with state := new, polls := n } p' k' t pc) :
    TaskOk calm ({ s with state := new, polls := n }.goto t pc) p' k' where
  phase := hphase
  entries := by
    intro lane
    have := h.entries lane
    rcases hk with rfl | rfl <;> simp_all [Sys.goto]
  queued := by rcases hk with rfl | rfl <;> simp
  fresh := fun hp hn _ _ => hfresh hp hn
  owed := fun _ hp hn _ => howed hp hn
  stage := fun hp _ => hstage hp
  activity := activity_goto hself fun t' ht' =>
    (h.activity t').frame_unheld (by simpa using Ne.symm ht')
      (by rcases hk with rfl | rfl <;> simp [Ne.symm ht']) hpolls fun hx' => by simp [hx] at hx'

/-- A successful exchange keeps the invariant, if a safety wake of an idle task finds it not
notified. -/
theorem stored_taskOk (h : TaskOk calm s p k) {op : Op} {new : TaskStateSnapshot} {next : Pc}
    (hact : ActivityOk calm s p k t (.update op (some s.state))) (hst : Stores s.state op new next)
    (hsafe : op = .scheduleSafety → p = .idle → s.state.isNotified = false) :
    ∃ p' k', TaskOk calm ({ s with
      state := new, polls := if op.startsPoll then s.polls + 1 else s.polls }.goto t next)
      p' k' := by
  have hrunning := h.phase.running
  have hcompleted := h.phase.completed
  cases hst with
  | schedule hc hn hx =>
      by_cases hr : s.state.isRunning = true
      · -- The worker that runs the task sees the bit in `transition_to_idle`.
        rw [if_pos hr]
        refine ⟨p, k, TaskOk.goto (h.setState h.phase.setNotified (by simp) ?_ ?_) hact.1⟩
        · simp
        · intro _ hp
          simp_all
      · -- The task is idle and was not notified, so there is no token: this wake creates it.
        have hp : p = .idle := by cases p <;> simp_all
        subst hp
        have hk := h.fresh rfl hn hx hact.2
        subst hk
        rw [if_neg hr]
        exact ⟨_, _, h.create h.phase.setNotified hx (by simp) fun _ => rfl⟩
  | scheduleSafety hc hx =>
      by_cases hr : s.state.isRunning = true
      · rw [if_pos hr]
        refine ⟨p, k, TaskOk.goto (h.setState h.phase.setSafetyNotified (by simp) ?_ ?_) hact.1⟩
        · simp
        · intro _ hp
          simp_all
      · have hp : p = .idle := by cases p <;> simp_all
        subst hp
        -- The closure did not look at the notified bit. The guard says that it was clear.
        have hk := h.fresh rfl (hsafe rfl rfl) hx hact.2.1
        subst hk
        rw [if_neg hr]
        exact ⟨_, _, h.create h.phase.setSafetyNotified hx (by simp)
          fun hcalm => absurd hcalm hact.2.2⟩
  | abort hc hx =>
      -- A canceled task needs no poll any more, so both conditions on the token fall away.
      have hset := h.setState h.phase.setCanceled (by simp) (by simp) (by simp)
      by_cases hr : s.state.isRunning = true
      · rw [if_pos hr]
        exact ⟨p, k, hset.goto hact⟩
      · have hp : p = .idle := by cases p <;> simp_all
        rw [if_neg hr]
        exact ⟨p, k, hset.goto ⟨hact, by simp, Or.inl hp⟩⟩
  | setWaker hc hx =>
      refine ⟨p, k, TaskOk.goto (h.setState h.phase.setJoinHandle (by simp) ?_ ?_) hact⟩
      · simpa using h.fresh
      · simpa using h.owed
  | toRunning worker hi hr hc hx =>
      obtain ⟨rfl, rfl, -⟩ := hact
      exact ⟨.running, .held t, h.move hx h.phase.unsetNotified.setRunning (Or.inl rfl)
        (Nat.le_succ _) (by simp) (by simp) (by simp) ⟨rfl, rfl, h.stage rfl hx⟩⟩
  | toIdle worker hr hx =>
      obtain ⟨rfl, rfl, hstage, -⟩ := hact
      by_cases hn : s.state.isNotified = true
      · rw [if_pos hn]
        exact ⟨.idle, .held t, h.move hx h.phase.setIdle (Or.inl rfl) (Nat.le_refl _)
          (fun _ => hstage) (by simp [hn]) (by simp) ⟨rfl, rfl⟩⟩
      · rw [if_neg hn]
        exact ⟨.idle, .none, h.move hx h.phase.setIdle (Or.inr rfl) (Nat.le_refl _)
          (fun _ => hstage) (by simp) (by simp [hn]) (by simp [ActivityOk])⟩
  | toCompleted worker hr hx =>
      obtain ⟨rfl, rfl, -⟩ := hact
      exact ⟨.completed, .none, h.move hx inPhase_completed (Or.inr rfl) (Nat.le_refl _)
        (by simp) (by simp) (by simp) (by simp [ActivityOk])⟩

/-- One attempt of `fetch_update_with_return` keeps the invariant. -/
theorem attempt_taskOk (h : TaskOk calm s p k) {op : Op} {v : TaskStateSnapshot}
    (hpc : s.pc t = .update op (some v))
    (hsafe : op = .scheduleSafety → s.state = v → s.state.isIdle = true →
      s.state.isNotified = false) :
    ∃ p' k', TaskOk calm (s.attempt t op v) p' k' := by
  have hact := h.activity t
  rw [hpc] at hact
  unfold Sys.attempt
  rcases closure_cases op v with ⟨_, hcl, hasserts⟩ | ⟨next, hcl, hleaves⟩ | ⟨new, next, hcl, hst⟩
  · -- No assertion fails: the holder of the token has read a word of the phase it works in.
    exfalso
    cases hasserts with
    | toRunning worker hr hi =>
        have hread := (hact.2.2 v rfl).1.idle
        simp_all
    | toIdle worker hfail =>
        have hread := (hact.2.2.2 v rfl).1
        have hidle := hread.idle
        have hrunning := hread.running
        simp_all
    | toCompleted worker hfail =>
        have hread := (hact.2.2 v rfl).1
        have hcompleted := hread.completed
        have hrunning := hread.running
        simp_all
  · rw [hcl]
    cases hleaves with
    | schedule _ => exact ⟨p, k, h.goto hact.1⟩
    | scheduleSafety => exact ⟨p, k, h.goto hact.1⟩
    | abort => exact ⟨p, k, h.goto hact⟩
    | setWaker => exact ⟨p, k, h.goto hact⟩
    | alreadyRunning worker hr =>
        -- The holder of the token has read a word of an idle task.
        have hread := (hact.2.2 v rfl).1.running
        simp_all
    | runsCompleted worker hc =>
        have hread := (hact.2.2 v rfl).1.completed
        simp_all
    | runsAborted worker hx =>
        exact ⟨p, .none, h.drop hact.1 (by simp [ActivityOk]) fun _ _ _ => (hact.2.2 v rfl).2 hx⟩
    | idleAborted worker hx =>
        have hcan := (hact.2.2.2 v rfl).2 hx
        exact ⟨p, .none, h.drop hact.1 ⟨by simp, hcan, Or.inr rfl⟩ fun _ _ _ => hcan⟩
    | completedAborted worker hx =>
        have hcan := (hact.2.2 v rfl).2 hx
        exact ⟨p, .none, h.drop hact.1 ⟨by simp, hcan, Or.inr rfl⟩ fun _ _ _ => hcan⟩
  · rw [hcl]
    dsimp only
    by_cases hs : s.state = v
    · subst hs
      rw [if_pos rfl]
      refine stored_taskOk h hact hst fun hop hp => hsafe hop rfl ?_
      rw [h.phase.idle]
      simp [hp]
    · -- The exchange failed, and the loop goes on with the word that it found.
      rw [if_neg hs]
      exact ⟨p, k, h.goto (hact.reload h.phase)⟩

/-! ### Every step -/

/-- A safety wake does not take effect on an idle task that is already notified. -/
def SingleNotify (s : Sys T) (a : Action T) : Prop :=
  match a with
  | .advance t =>
      ¬ (s.pc t = .update .scheduleSafety (some s.state) ∧ s.state.isIdle = true ∧
        s.state.isNotified = true)
  | _ => True

instance (s : Sys T) (a : Action T) : Decidable (SingleNotify s a) :=
  match a with
  | .advance t => inferInstanceAs (Decidable (¬ (s.pc t = .update .scheduleSafety (some s.state) ∧
      s.state.isIdle = true ∧ s.state.isNotified = true)))
  | .wake _ | .wakeSafety _ | .abort _ | .attach _ | .pop _ _ | .poll _ _ | .push _ _
  | .takeResult => .isTrue trivial

/-- No safety wake and no refused push. -/
def CalmStep (_ : Sys T) (a : Action T) : Prop :=
  match a with
  | .wakeSafety _ => False
  | .push _ fits => fits = true
  | _ => True

instance (s : Sys T) (a : Action T) : Decidable (CalmStep s a) :=
  match a with
  | .wakeSafety _ => .isFalse id
  | .push _ fits => inferInstanceAs (Decidable (fits = true))
  | .wake _ | .abort _ | .attach _ | .pop _ _ | .advance _ | .poll _ _ | .takeResult =>
      .isTrue trivial

theorem advance_taskOk (h : TaskOk calm s p k) (hguard : SingleNotify s (.advance t))
    (hstep : s.advance t = some s') : ∃ p' k', TaskOk calm s' p' k' := by
  have hact := h.activity t
  unfold Sys.advance at hstep
  cases hpc : s.pc t with
  | update op val =>
      rw [hpc] at hstep hact
      cases val with
      | none =>
          cases hstep
          exact ⟨p, k, h.goto (hact.reload h.phase)⟩
      | some v =>
          cases hstep
          refine attempt_taskOk h hpc fun hop hv hidle => Bool.eq_false_iff.mpr fun hn => ?_
          exact hguard ⟨by rw [hpc, hop, hv], hidle, hn⟩
  | polling worker =>
      rw [hpc] at hstep hact
      rw [hact.2.2] at hstep
      cases hstep
      exact ⟨p, k, h.goto hact⟩
  | clearStage =>
      rw [hpc] at hstep hact
      cases hstep
      obtain ⟨hk, hx, hdone⟩ := hact
      refine ⟨p, k, { h with stage := ?_, activity := ?_ }⟩
      · intro _ hx'
        change s.state.isCanceled = false at hx'
        rw [hx] at hx'
        cases hx'
      · -- Nobody runs the task: it is idle, or the token is gone.
        refine activity_goto hk fun t' _ => (h.activity t').setStage _ fun hp hk' => ?_
        rcases hdone with hidle | hnone
        · rw [hidle] at hp
          cases hp
        · rw [hnone] at hk'
          cases hk'
  | idle | respawn | inFuture | repush | overflow | panicked =>
      rw [hpc] at hstep
      cases hstep

/-- A push that is accepted puts the token into the queue. -/
theorem TaskOk.enqueue (h : TaskOk calm s .idle (.held t)) (lane : Lane) :
    TaskOk calm ((s.enqueue lane).goto t .idle) .idle (.queued lane) where
  phase := h.phase
  entries := by
    intro lane'
    have hzero := fun l => h.entries l
    by_cases hl : lane' = lane
    · subst hl
      simp_all [Sys.goto, Sys.enqueue]
    · simp_all [Sys.goto, Sys.enqueue, Ne.symm hl]
  queued := by simp
  fresh := fun hp hn hx hpolls => absurd (h.fresh hp hn hx hpolls) (by simp)
  owed := by simp
  stage := h.stage
  activity := activity_goto (by simp [ActivityOk]) fun t' ht' =>
    (h.activity t').frame_unheld (by simpa using Ne.symm ht') (by simp) (Nat.le_refl _)
      fun hx => ⟨hx, fun _ => Or.inl rfl⟩

/-- A push by the holder of the token, which goes on at `pc` when the push is refused. In a calm
run it is accepted, so the token is not lost. -/
theorem TaskOk.push (h : TaskOk calm s .idle (.held t)) {lane : Lane} {fits : Bool} {pc : Pc}
    (hpc : ActivityOk calm s .idle .none t pc) (hcalm : calm → fits = true)
    (hstep : (if fits then some ((s.enqueue lane).goto t .idle) else some (s.goto t pc)) =
      some s') :
    ∃ p' k', TaskOk calm s' p' k' := by
  cases fits with
  | true =>
      cases hstep
      exact ⟨_, _, h.enqueue lane⟩
  | false =>
      cases hstep
      exact ⟨_, _, h.drop rfl hpc fun hc => absurd (hcalm hc) (by simp)⟩

theorem push_taskOk (h : TaskOk calm s p k) {fits : Bool} (hcalm : calm → fits = true)
    (hstep : s.push t fits = some s') : ∃ p' k', TaskOk calm s' p' k' := by
  have hact := h.activity t
  unfold Sys.push at hstep
  split at hstep
  · rename_i hpc
    rw [hpc] at hact
    obtain ⟨rfl, rfl, -⟩ := hact
    exact h.push (by simp [ActivityOk]) hcalm hstep
  · rename_i hpc
    rw [hpc] at hact
    obtain ⟨rfl, rfl⟩ := hact
    exact h.push (by simp [ActivityOk]) hcalm hstep
  · rename_i hpc
    rw [hpc] at hact
    obtain ⟨rfl, rfl, hlane⟩ := hact
    split at hstep
    · -- Without a safety worker `respawn_into_safety` drops the task. Only a safety wake gets
      -- here, and a calm run has none.
      cases hstep
      exact ⟨_, _, h.drop rfl (by simp [ActivityOk]) fun hc => absurd (hlane hc) (by simp)⟩
    · exact h.push (by simp [ActivityOk]) hcalm hstep
  · rename_i hpc
    rw [hpc] at hact
    obtain ⟨rfl, rfl⟩ := hact
    exact h.push (by simp [ActivityOk]) hcalm hstep
  · cases hstep

/-- A worker that takes the entry of the task takes the token with it. -/
theorem TaskOk.dequeue (h : TaskOk calm s p k) {lane : Lane} (hentry : 0 < s.entries lane) :
    TaskOk calm ((s.dequeue lane).goto t (.update (.toRunning lane) none)) p (.held t) := by
  have hk : k = .queued lane := by
    by_contra hne
    rw [h.entries lane, if_neg hne] at hentry
    cases hentry
  subst hk
  have hp := h.queued lane rfl
  subst hp
  exact
    { phase := h.phase
      entries := by
        intro lane'
        have hcount := fun l => h.entries l
        by_cases hl : lane' = lane
        · subst hl
          simp_all [Sys.goto, Sys.dequeue]
        · simp_all [Sys.goto, Sys.dequeue, Ne.symm hl]
      queued := by simp
      fresh := fun hp hn hx hpolls => absurd (h.fresh hp hn hx hpolls) (by simp)
      owed := by simp
      stage := h.stage
      activity := activity_goto ⟨rfl, rfl, by simp [ReadBy]⟩ fun t' ht' =>
        (h.activity t').frame_unheld (by simp) (by simpa using Ne.symm ht') (Nat.le_refl _)
          fun hx => ⟨hx, fun _ => Or.inl rfl⟩ }

/-- Every step that notifies an idle task at most once keeps the invariant. -/
theorem step_taskOk {a : Action T} (h : TaskOk calm s p k) (hguard : SingleNotify s a)
    (hcalm : calm → CalmStep s a) (hstep : s.step a = some s') : ∃ p' k', TaskOk calm s' p' k' := by
  cases a with
  | wake t =>
      obtain ⟨⟨hpc, hpolls⟩, rfl⟩ := Option.ite_some_none_eq_some.mp hstep
      have hact := h.activity t
      rw [hpc] at hact
      exact ⟨p, k, h.goto ⟨hact, hpolls⟩⟩
  | wakeSafety t =>
      obtain ⟨⟨hpc, hpolls⟩, rfl⟩ := Option.ite_some_none_eq_some.mp hstep
      have hact := h.activity t
      rw [hpc] at hact
      exact ⟨p, k, h.goto ⟨hact, hpolls, hcalm⟩⟩
  | abort t =>
      obtain ⟨hpc, rfl⟩ := Option.ite_some_none_eq_some.mp hstep
      have hact := h.activity t
      rw [hpc] at hact
      exact ⟨p, k, h.goto hact⟩
  | attach t =>
      obtain ⟨hpc, rfl⟩ := Option.ite_some_none_eq_some.mp hstep
      have hact := h.activity t
      rw [hpc] at hact
      exact ⟨p, k, h.goto hact⟩
  | pop t lane =>
      obtain ⟨⟨-, hentry⟩, rfl⟩ := Option.ite_some_none_eq_some.mp hstep
      exact ⟨p, .held t, h.dequeue hentry⟩
  | advance t => exact advance_taskOk h hguard hstep
  | poll t ready =>
      have hact := h.activity t
      simp only [Sys.step] at hstep
      split at hstep
      · rename_i worker hpc
        rw [hpc] at hact
        obtain ⟨rfl, rfl, hstage⟩ := hact
        cases ready with
        | true =>
            cases hstep
            refine ⟨.running, .held t, { h with stage := by simp, activity := ?_ }⟩
            exact activity_goto ⟨rfl, rfl, by simp [ReadBy]⟩ fun t' ht' =>
              (h.activity t').setStage _ fun _ => by simpa using Ne.symm ht'
        | false =>
            cases hstep
            exact ⟨.running, .held t, h.goto ⟨rfl, rfl, hstage, by simp [ReadBy]⟩⟩
      · cases hstep
  | push t fits => exact push_taskOk h hcalm hstep
  | takeResult =>
      simp only [Sys.step] at hstep
      split at hstep
      · cases hstep
        exact ⟨p, k, h⟩
      · split at hstep
        · cases hstep
          exact ⟨p, k, h⟩
        · rename_i hc
          cases hstep
          -- The result is taken only from a completed task, which nobody runs.
          have hp : p = .completed := by
            have hcompleted := h.phase.completed
            simp_all
          subst hp
          exact ⟨.completed, k, { h with
            stage := by simp
            activity := fun t => (h.activity t).setStage _ (by simp) }⟩

/-- A task as `spawn` leaves it has its token in a queue. -/
theorem taskOk_spawned (lane : Lane) (hasSafety : Bool) :
    TaskOk calm (Sys.spawned lane hasSafety : Sys T) .idle (.queued lane) where
  phase := inPhase_new
  entries := by
    intro lane'
    simp [Sys.spawned, eq_comm]
  queued := by simp
  fresh := by simp [Sys.spawned]
  owed := by simp
  stage := fun _ _ => rfl
  activity := by simp [Sys.spawned, ActivityOk]

end Kyron.Proofs.Task
