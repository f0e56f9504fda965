import Mathlib.Data.Fintype.Basic
import Kyron.Proofs.Task.Token

/-!
# `Kyron.Proofs.Task.AsyncTask`: assertions and wake-ups over whole runs

* `no_panic_of_singleNotify`: in a run in which no safety wake takes effect on an idle task
  that is already notified, no assertion fails and no poll finds an unexpected stage.
* `panicked_after_second_notify`: without that condition an assertion fails. A normal wake and
  a safety wake put the task into both queues, one worker completes it, and the other worker
  finds a completed word where it asserts an idle one.
* `wake_not_lost_not_doubled`: in a run without safety wakes and refused pushes, the reference
  of an idle and notified task is at exactly one place, no queue holds two, and every wake is
  followed by a poll unless the word still records it.
-/

set_option autoImplicit false

namespace Kyron.Proofs.Task

open Kyron.Lib
open Kyron.Task
open Sys

variable {T : Type} [DecidableEq T]

/-! ### Assertions -/

/-- In every run in which each step notifies an idle task at most once, no activity reaches a
failing assertion of `transition_to_running`, `transition_to_idle` or
`transition_to_completed`, and `poll_core` never finds the stage extracted or completed. -/
theorem no_panic_of_singleNotify (lane : Lane) (hasSafety : Bool) {s : Sys T}
    (hrun : Reaches Sys.step SingleNotify (Sys.spawned lane hasSafety) s) (t : T) (p : Panic) :
    s.pc t ≠ .panicked p := by
  have hok : ∃ phase k, TaskOk False s phase k := by
    refine hrun.invariant (I := fun s => ∃ phase k, TaskOk False s phase k)
      ⟨_, _, taskOk_spawned lane hasSafety⟩ ?_
    rintro s a s' ⟨phase, k, h⟩ hguard hstep
    exact step_taskOk h hguard False.elim hstep
  obtain ⟨phase, k, h⟩ := hok
  intro hpc
  have hact := h.activity t
  rw [hpc] at hact
  exact hact

/-- The first poll of a spawned task, ending in `Pending`. -/
def firstPoll (t : T) : List (Action T) :=
  [.pop t .normal, .advance t, .advance t, .advance t, .poll t false, .advance t, .advance t]

/-- A worker takes an entry of a lane and polls the task to its end. -/
def lastPoll (t : T) (lane : Lane) : List (Action T) :=
  [.pop t lane, .advance t, .advance t, .advance t, .poll t true, .advance t, .advance t]

/-- A safety wake of an idle task that is not notified, with the poll that follows: no panic. -/
theorem no_panic_of_safety_wake :
    ∃ s : Sys (Fin 2), Reaches Sys.step SingleNotify (Sys.spawned .normal true) s ∧
      s.state.isCompleted = true ∧ s.pc 0 ≠ .panicked .runningNotIdle := by
  obtain ⟨s, hrun, hdone⟩ : ∃ s : Sys (Fin 2),
      Reaches Sys.step SingleNotify (Sys.spawned .normal true) s ∧ s.state.isCompleted = true :=
    exists_reaches (firstPoll 0 ++ [Action.wakeSafety 1, .advance 1, .advance 1, .push 1 true]
      ++ lastPoll 0 .safety) (by decide +kernel)
  exact ⟨s, hrun, hdone, no_panic_of_singleNotify .normal true hrun 0 .runningNotIdle⟩

/-- A normal wake and then a safety wake reach an idle task. The async worker completes it.
The safety worker then takes the second entry and fails `assert!(prev.is_idle())`. -/
theorem panicked_after_second_notify :
    ∃ s : Sys (Fin 2), Reaches Sys.step anyStep (Sys.spawned .normal true) s ∧
      s.pc 1 = .panicked .runningNotIdle :=
  exists_reaches (firstPoll 0
    ++ [Action.wake 1, .advance 1, .advance 1, .push 1 true]
    ++ [Action.wakeSafety 1, .advance 1, .advance 1, .push 1 true]
    ++ lastPoll 0 .normal ++ [Action.pop 1 .safety, .advance 1, .advance 1]) (by decide +kernel)

/-! ### Runs without safety wakes -/

variable {k : Token T} {p : Phase} {calm : Prop}

/-- In a run without safety wakes, a step never notifies an idle task twice. -/
theorem singleNotify_of_taskOk {s : Sys T} (h : TaskOk True s p k) (a : Action T) :
    SingleNotify s a := by
  cases a with
  | advance t =>
      rintro ⟨hpc, -, -⟩
      have hact := h.activity t
      rw [hpc] at hact
      exact hact.2.2 trivial
  | wake _ | wakeSafety _ | abort _ | attach _ | pop _ _ | poll _ _ | push _ _ | takeResult =>
      trivial

/-- The invariant holds in every state of a calm run. -/
theorem taskOk_of_calm {lane : Lane} {hasSafety : Bool} {s : Sys T}
    (hrun : Reaches Sys.step CalmStep (Sys.spawned lane hasSafety) s) :
    ∃ p k, TaskOk True s p k := by
  refine hrun.invariant (I := fun s => ∃ p k, TaskOk True s p k)
    ⟨_, _, taskOk_spawned lane hasSafety⟩ ?_
  rintro s a s' ⟨p, k, h⟩ hcalm hstep
  exact step_taskOk h (singleNotify_of_taskOk h a) (fun _ => hcalm) hstep

/-- The activity is between the transition that accepted the notification and its push. -/
def IsPushing (pc : Pc) : Prop := ∃ lane, pc = .respawn lane ∨ pc = .repush lane

/-- The activity has taken an entry and has not made the transition to running. -/
def IsPopped (pc : Pc) : Prop := ∃ worker val, pc = .update (.toRunning worker) val

instance : DecidablePred IsPushing
  | .respawn lane => .isTrue ⟨lane, Or.inl rfl⟩
  | .repush lane => .isTrue ⟨lane, Or.inr rfl⟩
  | .idle | .update _ _ | .polling _ | .inFuture _ | .clearStage | .overflow | .panicked _ =>
      .isFalse (by rintro ⟨_, h | h⟩ <;> cases h)

/-- The entries of the task in all queues. -/
def queueEntries (s : Sys T) : Nat := s.entries .normal + s.entries .safety

theorem queueEntries_of_queued {s : Sys T} {lane : Lane} (h : TaskOk calm s p (.queued lane)) :
    queueEntries s = 1 := by
  unfold queueEntries
  rw [h.entries, h.entries]
  cases lane <;> simp

theorem queueEntries_of_not_queued {s : Sys T} (h : TaskOk calm s p k)
    (hk : ∀ lane, k ≠ .queued lane) : queueEntries s = 0 := by
  unfold queueEntries
  rw [h.entries, h.entries, if_neg (hk _), if_neg (hk _)]

/-- While the task is idle, who holds the token is pushing or has popped. -/
theorem pushing_or_popped {s : Sys T} {t : T} (h : TaskOk calm s .idle (.held t)) :
    (IsPushing (s.pc t) ∧ ¬ IsPopped (s.pc t)) ∨ (¬ IsPushing (s.pc t) ∧ IsPopped (s.pc t)) := by
  -- An idle task leaves its holder few places: the invariant of all others asks for a running
  -- task or for no token.
  have hact := h.activity t
  cases hpc : s.pc t with
  | respawn lane =>
      exact Or.inl ⟨⟨lane, Or.inl rfl⟩, by rintro ⟨_, _, h⟩; cases h⟩
  | repush lane =>
      exact Or.inl ⟨⟨lane, Or.inr rfl⟩, by rintro ⟨_, _, h⟩; cases h⟩
  | update op val =>
      cases op with
      | toRunning worker =>
          refine Or.inr ⟨?_, ⟨worker, val, rfl⟩⟩
          rintro ⟨_, h | h⟩ <;> cases h
      | schedule | scheduleSafety | abort | setWaker | toIdle | toCompleted =>
          simp [hpc, ActivityOk] at hact
  | idle | polling | inFuture | clearStage | overflow | panicked =>
      simp [hpc, ActivityOk] at hact

/-- Who does not hold the token is neither pushing nor has popped. -/
theorem not_pushing_of_ne_held {s : Sys T} {t : T} (h : TaskOk calm s p k) (hk : k ≠ .held t) :
    ¬ IsPushing (s.pc t) ∧ ¬ IsPopped (s.pc t) := by
  have hact := h.activity t
  constructor
  · rintro ⟨lane, hpc | hpc⟩ <;>
    · rw [hpc] at hact
      exact hk hact.1
  · rintro ⟨worker, val, hpc⟩
    rw [hpc] at hact
    exact hk hact.1

/-! ### Owed polls -/

/-- A poll has started since there were `n` of them, or the word still records a notification,
or the task is over. -/
def PollOwed (n : Nat) (s : Sys T) : Prop :=
  n < s.polls ∨ s.state.isNotified = true ∨ s.state.isCompleted = true ∨ s.state.isCanceled = true

/-- The activity that an action is about. -/
def actor : Action T → Option T
  | .wake t | .wakeSafety t | .abort t | .attach t | .pop t _ | .advance t | .poll t _
  | .push t _ => some t
  | .takeResult => none

theorem goto_pc_of_ne {s : Sys T} {t t' : T} {pc : Pc} (h : some t ≠ some t') :
    (s.goto t pc).pc t' = s.pc t' :=
  Function.update_of_ne (fun heq => h (by rw [heq])) _ _

/-- What a step does to the word, nothing or what a closure stores over it, and to the
activities that it is not about, nothing. -/
theorem step_effect {s s' : Sys T} {a : Action T} (hstep : s.step a = some s') :
    ((s'.state = s.state ∧ s'.polls = s.polls) ∨
      ∃ op next, Stores s.state op s'.state next ∧
        s'.polls = if op.startsPoll then s.polls + 1 else s.polls) ∧
    ∀ t', actor a ≠ some t' → s'.pc t' = s.pc t' := by
  -- Only an exchange inside `fetch_update_with_return` writes the word.
  cases a with
  | advance t =>
      simp only [step, advance] at hstep
      split at hstep
      · cases hstep
        exact ⟨Or.inl ⟨rfl, rfl⟩, fun t' => goto_pc_of_ne⟩
      · rename_i op v hpc
        cases hstep
        unfold attempt
        rcases closure_cases op v with ⟨_, hcl, -⟩ | ⟨next, hcl, -⟩ | ⟨new, next, hcl, hst⟩
        · rw [hcl]
          exact ⟨Or.inl ⟨rfl, rfl⟩, fun t' => goto_pc_of_ne⟩
        · rw [hcl]
          exact ⟨Or.inl ⟨rfl, rfl⟩, fun t' => goto_pc_of_ne⟩
        · rw [hcl]
          dsimp only
          by_cases hv : s.state = v
          · rw [if_pos hv]
            exact ⟨Or.inr ⟨op, next, by rw [hv]; exact hst, rfl⟩, fun t' => goto_pc_of_ne⟩
          · rw [if_neg hv]
            exact ⟨Or.inl ⟨rfl, rfl⟩, fun t' => goto_pc_of_ne⟩
      · split at hstep <;> cases hstep <;> exact ⟨Or.inl ⟨rfl, rfl⟩, fun t' => goto_pc_of_ne⟩
      · cases hstep
        exact ⟨Or.inl ⟨rfl, rfl⟩, fun t' => goto_pc_of_ne⟩
      · cases hstep
  | wake t | wakeSafety t | abort t | attach t | pop t lane =>
      obtain ⟨-, rfl⟩ := Option.ite_some_none_eq_some.mp hstep
      exact ⟨Or.inl ⟨rfl, rfl⟩, fun t' => goto_pc_of_ne⟩
  | poll t ready =>
      simp only [step] at hstep
      split at hstep
      · split at hstep <;> cases hstep <;> exact ⟨Or.inl ⟨rfl, rfl⟩, fun t' => goto_pc_of_ne⟩
      · cases hstep
  | push t fits =>
      simp only [step, push] at hstep
      split at hstep
      · split at hstep <;> cases hstep <;> exact ⟨Or.inl ⟨rfl, rfl⟩, fun t' => goto_pc_of_ne⟩
      · split at hstep <;> cases hstep <;> exact ⟨Or.inl ⟨rfl, rfl⟩, fun t' => goto_pc_of_ne⟩
      · split at hstep
        · cases hstep
          exact ⟨Or.inl ⟨rfl, rfl⟩, fun t' => goto_pc_of_ne⟩
        · split at hstep <;> cases hstep <;> exact ⟨Or.inl ⟨rfl, rfl⟩, fun t' => goto_pc_of_ne⟩
      · split at hstep <;> cases hstep <;> exact ⟨Or.inl ⟨rfl, rfl⟩, fun t' => goto_pc_of_ne⟩
      · cases hstep
  | takeResult =>
      simp only [step] at hstep
      split at hstep
      · cases hstep
        exact ⟨Or.inl ⟨rfl, rfl⟩, fun _ _ => rfl⟩
      · split at hstep <;> cases hstep <;> exact ⟨Or.inl ⟨rfl, rfl⟩, fun _ _ => rfl⟩

/-- No step gives up an owed poll: only the start of a poll clears a notification, and only
the completion of the task replaces the word. -/
theorem pollOwed_step {n : Nat} {s s' : Sys T} {a : Action T} (hn : n ≤ s.polls)
    (h : PollOwed n s) (hstep : s.step a = some s') : PollOwed n s' := by
  unfold PollOwed at h ⊢
  rcases (step_effect hstep).1 with ⟨hstate, hpolls⟩ | ⟨op, next, hst, hpolls⟩
  · rw [hstate, hpolls]
    exact h
  · cases hst' : s'.state.isCompleted with
    | true => simp
    | false =>
        generalize hnew : s'.state = new at hst hst'
        cases hst with
        | schedule | scheduleSafety => simp_all [Op.startsPoll]
        | abort => simp_all [Op.startsPoll]
        | setWaker hc hx => simp_all [Op.startsPoll]
        | toRunning worker hi hr hc hx =>
            -- The notification goes, and the poll that it asked for starts.
            rw [hpolls]
            simp only [Op.startsPoll, if_true]
            exact Or.inl (by omega)
        | toIdle worker hr hx => simp_all [Op.startsPoll]
        | toCompleted worker hr hx =>
            -- The completed word is the case split off above.
            exact absurd hst' (by decide)

theorem polls_le_step {s s' : Sys T} {a : Action T} (hstep : s.step a = some s') :
    s.polls ≤ s'.polls := by
  rcases (step_effect hstep).1 with ⟨-, hpolls⟩ | ⟨op, next, -, hpolls⟩
  · exact Nat.le_of_eq hpolls.symm
  · rw [hpolls]
    split <;> omega

/-- A word on which `set_notified` answers `AlreadyNotified`. -/
def Settled (v : TaskStateSnapshot) : Prop :=
  v.isCompleted = true ∨ v.isNotified = true ∨ v.isCanceled = true

/-- The step of `t` from `u` to `u'` decides its wake: the exchange of the wake sets the bit, or the
wake loads a word on which it answers `AlreadyNotified`. -/
def Decides (t : T) (u u' : Sys T) : Prop :=
  u.step (.advance t) = some u' ∧ (∃ val, u.pc t = .update .schedule val) ∧
    (u.state.isNotified = false ∧ u'.state.isNotified = true ∨
      Settled u.state ∧ u' = u.goto t (.update .schedule (some u.state)))

/-- A wake by `t` was decided between `s₀` and `s`. -/
def Decided (ok : Sys T → Action T → Prop) (t : T) (s₀ s : Sys T) : Prop :=
  ∃ u u', Reaches Sys.step ok s₀ u ∧ Decides t u u' ∧ Reaches Sys.step ok u' s

/-- What holds during and after a wake by `t` that began in `s₀`: the call has read no word yet, or
a word that would settle it only if it is decided, or it is decided. -/
def WakeOk (ok : Sys T → Action T → Prop) (t : T) (s₀ s : Sys T) : Prop :=
  Reaches Sys.step ok s₀ s ∧ (Decided ok t s₀ s ∨
    ∃ val, s.pc t = .update .schedule val ∧ ∀ v ∈ val, Settled v → Decided ok t s₀ s)

section Wakes

variable {ok : Sys T → Action T → Prop} {t : T} {s s' s₀ : Sys T} {a : Action T}

theorem Decided.step (h : Decided ok t s₀ s) (hguard : ok s a) (hstep : s.step a = some s') :
    Decided ok t s₀ s' := by
  obtain ⟨u, u', hbefore, hdecides, hafter⟩ := h
  exact ⟨u, u', hbefore, hdecides, hafter.tail a hguard hstep⟩

/-- A poll is owed from the decision on. -/
theorem Decides.pollOwed {u u' : Sys T} (h : Decides t u u') (hrun : Reaches Sys.step ok u' s) :
    PollOwed u.polls s := by
  obtain ⟨hstep, -, hword⟩ := h
  have howed : PollOwed u.polls u' := by
    rcases hword with ⟨-, hnotified⟩ | ⟨hsettled, rfl⟩
    · exact Or.inr (Or.inl hnotified)
    · rcases hsettled with hword | hword | hword
      · exact Or.inr (Or.inr (Or.inl hword))
      · exact Or.inr (Or.inl hword)
      · exact Or.inr (Or.inr (Or.inr hword))
  refine (hrun.invariant (I := fun s => u.polls ≤ s.polls ∧ PollOwed u.polls s)
    ⟨polls_le_step hstep, howed⟩ ?_).2
  rintro s a s' ⟨hn, hp⟩ - hstep
  exact ⟨Nat.le_trans hn (polls_le_step hstep), pollOwed_step hn hp hstep⟩

/-- The step of the wake itself. -/
theorem wakeOk_advance {val : Option TaskStateSnapshot} (hrun : Reaches Sys.step ok s₀ s)
    (hpc : s.pc t = .update .schedule val) (hval : ∀ v ∈ val, Settled v → Decided ok t s₀ s)
    (hguard : ok s (.advance t)) (hstep : s.step (.advance t) = some s') : WakeOk ok t s₀ s' := by
  have hnext : Reaches Sys.step ok s₀ s' := hrun.tail _ hguard hstep
  refine ⟨hnext, ?_⟩
  -- The first load, and the load after a failed exchange, read the current word.
  have hreload (hs' : s' = s.goto t (.update .schedule (some s.state))) :
      ∃ val, s'.pc t = .update .schedule val ∧ ∀ v ∈ val, Settled v → Decided ok t s₀ s' := by
    refine ⟨some s.state, hs' ▸ Function.update_self .., ?_⟩
    rintro v hv hsettled
    cases hv
    exact ⟨s, s', hrun, ⟨hstep, ⟨val, hpc⟩, Or.inr ⟨hsettled, hs'⟩⟩, .refl⟩
  have hadvance := hstep
  simp only [step, advance, hpc] at hadvance
  cases val with
  | none => exact Or.inr (hreload (Option.some.inj hadvance).symm)
  | some v =>
      have hs' := (Option.some.inj hadvance).symm
      unfold attempt at hs'
      rcases closure_cases .schedule v with ⟨_, -, hasserts⟩ | ⟨next, hcl, hleaves⟩
        | ⟨new, next, hcl, hst⟩
      · cases hasserts
      · cases hleaves with
        | schedule h => exact Or.inl ((hval v rfl h).step hguard hstep)
      · rw [hcl] at hs'
        dsimp only at hs'
        by_cases hv : s.state = v
        · rw [if_pos hv] at hs'
          cases hst with
          | schedule hc hn hx =>
              refine Or.inl ⟨s, s', hrun, ⟨hstep, ⟨_, hpc⟩, Or.inl ⟨hv ▸ hn, ?_⟩⟩, .refl⟩
              rw [hs']
              simp [goto]
        · rw [if_neg hv] at hs'
          exact Or.inr (hreload hs')

theorem wakeOk_step (h : WakeOk ok t s₀ s) (hguard : ok s a) (hstep : s.step a = some s') :
    WakeOk ok t s₀ s' := by
  obtain ⟨hrun, hdecided | ⟨val, hpc, hval⟩⟩ := h
  · exact ⟨hrun.tail a hguard hstep, Or.inl (hdecided.step hguard hstep)⟩
  · by_cases hactor : actor a = some t
    · -- An activity inside `set_notified` can only make its next step on the word.
      cases a with
      | advance t' =>
          cases hactor
          exact wakeOk_advance hrun hpc hval hguard hstep
      | wake t' | wakeSafety t' | abort t' | attach t' | pop t' lane | poll t' ready
      | push t' fits =>
          cases hactor
          simp [step, push, hpc] at hstep
      | takeResult => cases hactor
    · refine ⟨hrun.tail a hguard hstep, Or.inr ⟨val, ?_, fun v hv hs => ?_⟩⟩
      · rw [(step_effect hstep).2 t hactor, hpc]
      · exact (hval v hv hs).step hguard hstep

/-- A wake that is over was decided since it began. -/
theorem decided_of_wake (hwake : s.step (.wake t) = some s₀) (hrun : Reaches Sys.step ok s₀ s')
    (hover : ∀ val, s'.pc t ≠ .update .schedule val) : Decided ok t s₀ s' := by
  have hbegin : WakeOk ok t s₀ s₀ := by
    obtain ⟨-, rfl⟩ := Option.ite_some_none_eq_some.mp hwake
    exact ⟨.refl, Or.inr ⟨none, Function.update_self .., by simp⟩⟩
  have hafter : WakeOk ok t s₀ s' :=
    hrun.invariant hbegin fun _ _ _ hok hguard hstep => wakeOk_step hok hguard hstep
  rcases hafter.2 with hdecided | ⟨val, hpc, -⟩
  · exact hdecided
  · exact absurd hpc (hover val)

end Wakes

/-! ### The main result about wakes -/

/-- A notified task that is idle and not canceled has its token in one of three places. -/
theorem token_place {s : Sys T} (h : TaskOk True s p k) (hidle : s.state.isIdle = true)
    (hnotified : s.state.isNotified = true) (hcanceled : s.state.isCanceled = false) :
    (queueEntries s = 1 ∧ ∀ t, ¬ IsPushing (s.pc t) ∧ ¬ IsPopped (s.pc t)) ∨
    (queueEntries s = 0 ∧ (∃! t, IsPushing (s.pc t)) ∧ ∀ t, ¬ IsPopped (s.pc t)) ∨
    (queueEntries s = 0 ∧ (∃! t, IsPopped (s.pc t)) ∧ ∀ t, ¬ IsPushing (s.pc t)) := by
  have hp : p = .idle := by
    have := h.phase.idle
    simp_all
  subst hp
  have hk := h.owed trivial rfl hnotified hcanceled
  cases k with
  | none => exact absurd rfl hk
  | queued lane =>
      exact Or.inl ⟨queueEntries_of_queued h, fun t => not_pushing_of_ne_held h (by simp)⟩
  | held t =>
      have hzero := queueEntries_of_not_queued h (by simp)
      have hothers : ∀ t', t' ≠ t → ¬ IsPushing (s.pc t') ∧ ¬ IsPopped (s.pc t') :=
        fun t' ht' => not_pushing_of_ne_held h (by simpa using Ne.symm ht')
      right
      rcases pushing_or_popped h with ⟨hpush, hpop⟩ | ⟨hpush, hpop⟩
      · refine Or.inl ⟨hzero, ⟨t, hpush, fun t' ht' => ?_⟩, fun t' => ?_⟩
        · exact by_contra fun hne => (hothers t' hne).1 ht'
        · by_cases hne : t' = t
          · exact hne ▸ hpop
          · exact (hothers t' hne).2
      · refine Or.inr ⟨hzero, ⟨t, hpop, fun t' ht' => ?_⟩, fun t' => ?_⟩
        · exact by_contra fun hne => (hothers t' hne).2 ht'
        · by_cases hne : t' = t
          · exact hne ▸ hpush
          · exact (hothers t' hne).1

theorem queueEntries_le_one {s : Sys T} (h : TaskOk calm s p k) : queueEntries s ≤ 1 := by
  cases k with
  | queued lane => exact Nat.le_of_eq (queueEntries_of_queued h)
  | none => exact Nat.le_of_lt_succ (by rw [queueEntries_of_not_queued h (by simp)]; decide)
  | held t => exact Nat.le_of_lt_succ (by rw [queueEntries_of_not_queued h (by simp)]; decide)

/-- In every state of every run without safety wakes and refused pushes:

* if the task is idle, notified and not canceled, then there is exactly one queue entry for it,
  or exactly one activity is between the accepting transition and its push, or exactly one
  worker has taken the entry and not yet made the transition to running, and only one of the
  three;
* there is at most one queue entry;
* a wake that begins now and is over was decided by an exchange that sets the bit or by a load of
  a word that settles it; in every later state a poll has started since that exchange or load, or
  the word records the notification, or the task is completed or canceled. -/
theorem wake_not_lost_not_doubled (lane : Lane) (hasSafety : Bool) {s : Sys T}
    (hrun : Reaches Sys.step CalmStep (Sys.spawned lane hasSafety) s) :
    (s.state.isIdle = true → s.state.isNotified = true → s.state.isCanceled = false →
      (queueEntries s = 1 ∧ ∀ t, ¬ IsPushing (s.pc t) ∧ ¬ IsPopped (s.pc t)) ∨
      (queueEntries s = 0 ∧ (∃! t, IsPushing (s.pc t)) ∧ ∀ t, ¬ IsPopped (s.pc t)) ∨
      (queueEntries s = 0 ∧ (∃! t, IsPopped (s.pc t)) ∧ ∀ t, ¬ IsPushing (s.pc t))) ∧
    queueEntries s ≤ 1 ∧
    (∀ t s₀ s₁, s.step (.wake t) = some s₀ → Reaches Sys.step CalmStep s₀ s₁ →
      (∀ val, s₁.pc t ≠ .update .schedule val) →
      ∃ u u', Reaches Sys.step CalmStep s₀ u ∧ Decides t u u' ∧ Reaches Sys.step CalmStep u' s₁ ∧
        ∀ s₂, Reaches Sys.step CalmStep s₁ s₂ →
          u.polls < s₂.polls ∨ s₂.state.isNotified = true ∨ s₂.state.isCompleted = true ∨
            s₂.state.isCanceled = true) := by
  obtain ⟨p, k, h⟩ := taskOk_of_calm hrun
  refine ⟨token_place h, queueEntries_le_one h, fun t s₀ s₁ hwake hreach hover => ?_⟩
  obtain ⟨u, u', hbefore, hdecides, hafter⟩ := decided_of_wake hwake hreach hover
  exact ⟨u, u', hbefore, hdecides, hafter, fun _ hlater => hdecides.pollOwed (hafter.trans hlater)⟩

/-- A task that was polled once and then woken: the wake is recorded and one entry exists. -/
theorem wake_queued_once :
    ∃ s : Sys (Fin 2), Reaches Sys.step CalmStep (Sys.spawned .normal false) s ∧
      s.state.isIdle = true ∧ s.state.isNotified = true ∧ queueEntries s ≤ 1 := by
  obtain ⟨s, hrun, hidle, hnotified⟩ : ∃ s : Sys (Fin 2),
      Reaches Sys.step CalmStep (Sys.spawned .normal false) s ∧
        s.state.isIdle = true ∧ s.state.isNotified = true :=
    exists_reaches (firstPoll 0 ++ [Action.wake 1, .advance 1, .advance 1, .push 1 true])
      (by decide +kernel)
  exact ⟨s, hrun, hidle, hnotified, (wake_not_lost_not_doubled .normal false hrun).2.1⟩

/-- A worker has taken the entry of a notified task and not yet made the transition: the task
is idle and notified, no queue holds an entry and nobody is about to push one. -/
theorem notified_without_entry :
    ∃ s : Sys (Fin 2), Reaches Sys.step CalmStep (Sys.spawned .normal false) s ∧
      s.state.isIdle = true ∧ s.state.isNotified = true ∧ s.state.isCanceled = false ∧
      queueEntries s = 0 ∧ ∀ t, ¬ IsPushing (s.pc t) :=
  exists_reaches
    (firstPoll 0 ++ [Action.wake 1, .advance 1, .advance 1, .push 1 true, .pop 0 .normal])
    (by decide +kernel)

end Kyron.Proofs.Task
