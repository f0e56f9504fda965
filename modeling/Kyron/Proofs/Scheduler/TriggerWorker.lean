import Mathlib.Data.Fintype.Option
import Kyron.Scheduler.TriggerWorker
import Kyron.Proofs.Task.SafetyWake

/-!
# `Kyron.Proofs.Scheduler.TriggerWorker`: what a refused push does to a notified task

A task that is idle and notified waits for its entry in the queue. `Task.Owed` follows that
obligation through the steps of one task. Here the tasks share the trigger queue of one worker,
and the entries of a task in `Task.Sys` are its places in the queue and in the local storage.

* `notified_task_queued`: as long as the pushes whose result is dropped find room, a notified task
  is in the queue, in the local storage, or on the way there, or a fatal error was reported.
* `notified_task_dropped`: the queue of a dedicated worker is full when a task is woken. Its
  notification stays recorded, and nothing will poll it.
-/

set_option autoImplicit false

namespace Kyron.Proofs.Scheduler

open Kyron.Lib
open Kyron.Containers
open Kyron.Scheduler
open Kyron.Task
open Kyron.Proofs.Task
open Function
open TriggerWorker

variable {K U : Type} [DecidableEq K] [DecidableEq U]

/-! ### One task -/

section OneTask

variable {T : Type} [DecidableEq T] {s s' : Sys T}

/-- A step keeps the obligation of a notified task, whatever lane answers it, if it drops no
push. -/
theorem owed_notified_step (h : Owed TaskStateSnapshot.isNotified (fun _ => True) s)
    (hok : RunnerOk s) {a : Action T} (heff : Effect s a s')
    (hpush : ∀ t fits, a = .push t fits → fits = true) (hsafety : s.hasSafety = true) :
    Owed TaskStateSnapshot.isNotified (fun _ => True) s' := by
  refine h.step hok heff ?_ fun t fits _ hpush' _ _ => ⟨hpush t fits hpush', fun _ => hsafety⟩
  intro t op new next _ hpc hst hidle hcanceled hbit
  obtain ⟨p, hphase⟩ := hok.phase
  rcases stores_idle hphase hst hidle hcanceled with
    ⟨hi, hx, -, hsame⟩ | ⟨-, -, -, hnext⟩ | ⟨-, hnext⟩ | ⟨worker, -, hsame, hnext⟩
  · exact Or.inl ⟨hi, hx, hsame.symm.trans hbit⟩
  · exact Or.inr ⟨.normal, trivial, Or.inl hnext⟩
  · exact Or.inr ⟨.safety, trivial, Or.inl hnext⟩
  · -- The run that ends has seen the notification, so its worker pushes the task back.
    rw [if_pos (hsame.symm.trans hbit)] at hnext
    exact Or.inr ⟨worker, trivial, Or.inr hnext⟩

omit [DecidableEq T] in
/-- Another entry does not matter to who runs the task. -/
theorem runnerOk_enqueue (h : RunnerOk s) (lane : Lane) : RunnerOk (s.enqueue lane) :=
  ⟨h.phase, fun t => (h.activity t).mono id, h.running, h.unique⟩

omit [DecidableEq T] in
theorem owed_enqueue {bit : TaskStateSnapshot → Bool} {lanes : Lane → Prop} (h : Owed bit lanes s)
    (lane : Lane) : Owed bit lanes (s.enqueue lane) := by
  intro hidle hcanceled hbit
  obtain ⟨lane', hlane, howed⟩ := h hidle hcanceled hbit
  refine ⟨lane', hlane, howed.imp_left fun hentry => ?_⟩
  by_cases hl : lane' = lane
  · subst hl
    simp [Sys.enqueue]
  · simpa [Sys.enqueue, hl] using hentry

end OneTask

/-! ### The invariant -/

/-- How often the task stands in the queue and in the local storage. -/
def places (s : TriggerWorker K U) (k : K) : Nat := s.queue.data.count k + s.localStorage.count k

structure TriggerOk (s : TriggerWorker K U) : Prop where
  runner : ∀ k, RunnerOk (s.task k)
  hasSafety : ∀ k, (s.task k).hasSafety = true
  entries : ∀ k, (s.task k).entries s.kind.lane = places s k
  /-- No task of a dedicated worker goes to the safety worker. -/
  dedicated : s.kind = .dedicated → ∀ k, (s.task k).entries .safety = 0
  owed : s.fatal = false → ∀ k, Owed TaskStateSnapshot.isNotified (fun _ => True) (s.task k)

variable {s s' : TriggerWorker K U} {k : K} {t : Option U} {u : Sys (Option U)}

/-- One task makes a step, and the queue and the local storage change with its entries. -/
theorem TriggerOk.moves (h : TriggerOk s) {a : Action (Option U)} (heff : Effect (s.task k) a u)
    (htask : s'.task = Function.update s.task k u) (hkind : s'.kind = s.kind)
    (hentries : u.entries s.kind.lane + places s k = places s' k + (s.task k).entries s.kind.lane)
    (hothers : ∀ k', k' ≠ k → places s' k' = places s k')
    (hsafety : s.kind = .dedicated → u.entries .safety = (s.task k).entries .safety)
    (hfatal : s'.fatal = false → s.fatal = false ∧ ∀ t fits, a = .push t fits → fits = true) :
    TriggerOk s' where
  runner := by
    rw [htask, forall_update_iff s.task fun _ u => RunnerOk u]
    exact ⟨(h.runner k).step heff, fun k' _ => h.runner k'⟩
  hasSafety := by
    rw [htask, forall_update_iff s.task fun _ u => u.hasSafety = true]
    exact ⟨(hasSafety_step heff).trans (h.hasSafety k), fun k' _ => h.hasSafety k'⟩
  entries := by
    rw [htask, hkind, forall_update_iff s.task fun k' u => u.entries _ = places s' k']
    have hbefore := h.entries k
    exact ⟨by omega, fun k' hk => (h.entries k').trans (hothers k' hk).symm⟩
  dedicated := by
    intro hded
    rw [hkind] at hded
    rw [htask, forall_update_iff s.task fun _ u => u.entries .safety = 0]
    exact ⟨(hsafety hded).trans (h.dedicated hded k), fun k' _ => h.dedicated hded k'⟩
  owed := by
    intro hf
    obtain ⟨hf, hpush⟩ := hfatal hf
    rw [htask, forall_update_iff s.task
      fun _ u => Owed TaskStateSnapshot.isNotified (fun _ => True) u]
    exact ⟨owed_notified_step (h.owed hf k) (h.runner k) heff hpush (h.hasSafety k),
      fun k' _ => h.owed hf k'⟩

omit [DecidableEq U] in
/-- The queue and the local storage change, and every task keeps its places. -/
theorem TriggerOk.frame (h : TriggerOk s) (htask : s'.task = s.task) (hkind : s'.kind = s.kind)
    (hplaces : ∀ k, places s' k = places s k) (hfatal : s'.fatal = false → s.fatal = false) :
    TriggerOk s' where
  runner := by
    rw [htask]
    exact h.runner
  hasSafety := by
    rw [htask]
    exact h.hasSafety
  entries := by
    intro k
    rw [htask, hkind, hplaces k]
    exact h.entries k
  dedicated := by
    rw [htask, hkind]
    exact h.dedicated
  owed := by
    intro hf
    rw [htask]
    exact h.owed (hfatal hf)

/-! ### The steps -/

omit [DecidableEq K] in
theorem push_eq_true {q q' : TriggerQueue K} (h : q.push k = (q', true)) :
    q'.data = q.data ++ [k] := by
  unfold TriggerQueue.push at h
  split at h <;> cases h
  rfl

omit [DecidableEq K] in
theorem push_eq_false {q q' : TriggerQueue K} (h : q.push k = (q', false)) :
    q' = q ∧ q.data.length = q.capacity := by
  unfold TriggerQueue.push at h
  split at h
  · rename_i hfull
    cases h
    exact ⟨rfl, hfull⟩
  · cases h

/-- A push to the trigger queue. It is refused with a fatal error, or there is room. -/
theorem pushTrigger_ok (h : TriggerOk s) {refused : Pc}
    (hpc : PushesTo s.kind.lane ((s.task k).pc t))
    (hrefused : refused = .idle ∧ s.queue.data.length < s.queue.capacity ∨ refused = .overflow) :
    TriggerOk (s.pushTrigger k t refused) := by
  unfold pushTrigger
  split
  · rename_i queue hpush
    have hdata := push_eq_true hpush
    refine h.moves (.pushes hpc) rfl rfl ?_ ?_ ?_ fun hf => ⟨hf, ?_⟩
    · simp [places, setTask, Sys.goto, Sys.enqueue, hdata]
      omega
    · intro k' hk
      simp [places, setTask, hdata, hk.symm]
    · intro hded
      simp [Sys.goto, Sys.enqueue, hded, TriggerKind.lane]
    · rintro _ _ ⟨⟩
      rfl
  · rename_i queue hpush
    obtain ⟨rfl, hfull⟩ := push_eq_false hpush
    have hoverflow : refused = .overflow := by
      refine hrefused.resolve_left ?_
      rintro ⟨-, hroom⟩
      omega
    subst hoverflow
    have heff : Effect (s.task k) (.push t false) ((s.task k).goto t .overflow) :=
      .refused hpc (Or.inl rfl) (Or.inr rfl)
    refine h.moves heff rfl rfl ?_ (fun _ _ => rfl) (fun _ => rfl) ?_
    · rw [Nat.add_comm]
      rfl
    · intro hf
      simp [setTask] at hf

/-- The pushes whose result is dropped: those of a dedicated scheduler and of a dedicated worker,
and that of the safety worker. -/
def dropsResult : TriggerKind → Pc → Bool
  | .dedicated, .respawn .normal => true
  | .dedicated, .repush .normal => true
  | .safety, .repush .safety => true
  | _, _ => false

/-- The condition on a step: a push whose result is dropped finds room in the queue. -/
def RoomForDropped (s : TriggerWorker K U) : TriggerAction K U → Prop
  | .push k t _ =>
      dropsResult s.kind ((s.task k).pc t) = true → s.queue.data.length < s.queue.capacity
  | _ => True

/-- A push to the queues of the async workers. -/
theorem pushAsync_ok (h : TriggerOk s) {fits : Bool} (hkind : s.kind = .safety)
    (hpc : PushesTo .normal ((s.task k).pc t)) (hstep : s.pushAsync k t fits = some s') :
    TriggerOk s' := by
  obtain ⟨sys, hsys, rfl⟩ := Option.map_eq_some_iff.mp hstep
  have hlane : sys.entries .safety = (s.task k).entries .safety := by
    rcases hpc with hpc | hpc <;> simp only [Sys.push, hpc] at hsys <;> split at hsys <;>
      cases hsys <;> simp [Sys.goto, Sys.enqueue]
  refine h.moves (effect_of_push hsys) rfl rfl ?_ (fun _ _ => rfl) (fun _ => hlane) ?_
  · rw [hkind, TriggerKind.lane, hlane, Nat.add_comm]
    rfl
  · intro hf
    simp only [setTask, Bool.or_eq_false_iff, Bool.not_eq_false'] at hf
    refine ⟨hf.1, ?_⟩
    rintro _ _ ⟨⟩
    exact hf.2

/-- The guard is for the pushes whose result the source drops. -/
theorem push_ok (h : TriggerOk s) {fits : Bool} (hguard : RoomForDropped s (.push k t fits))
    (hstep : s.push k t fits = some s') : TriggerOk s' := by
  simp only [RoomForDropped] at hguard
  unfold push at hstep
  split at hstep
  · rename_i hkind hpc
    cases hstep
    rw [hkind, hpc] at hguard
    exact pushTrigger_ok h (by rw [hkind]; exact Or.inl hpc) (Or.inl ⟨rfl, hguard rfl⟩)
  · rename_i hkind hpc
    cases hstep
    rw [hkind, hpc] at hguard
    exact pushTrigger_ok h (by rw [hkind]; exact Or.inr hpc) (Or.inl ⟨rfl, hguard rfl⟩)
  · -- A safety wake of a task of a dedicated worker.
    rename_i hkind hpc
    cases hstep
    have heff : Effect (s.task k) (.push t false) ((s.task k).goto t .overflow) :=
      .refused (Or.inl hpc) (Or.inl rfl) (Or.inr rfl)
    refine h.moves heff rfl rfl ?_ (fun _ _ => rfl) (fun _ => rfl) fun hf => nomatch hf
    rw [Nat.add_comm]
    rfl
  · rename_i hkind hpc
    cases hstep
    exact pushTrigger_ok h (by rw [hkind]; exact Or.inl hpc) (Or.inr rfl)
  · rename_i hkind hpc
    cases hstep
    rw [hkind, hpc] at hguard
    exact pushTrigger_ok h (by rw [hkind]; exact Or.inr hpc) (Or.inl ⟨rfl, hguard rfl⟩)
  · rename_i hkind hpc
    exact pushAsync_ok h hkind (Or.inl hpc) hstep
  · rename_i hkind hpc
    exact pushAsync_ok h hkind (Or.inr hpc) hstep
  · cases hstep

/-- The steps of a task outside the trigger queue leave its entries there. -/
theorem entries_of_leavesQueue {kind : TriggerKind} {v : Sys (Option U)} {a : Action (Option U)}
    (heff : Effect v a u) (hleaves : TriggerWorker.leavesQueue kind a = true) :
    u.entries kind.lane = v.entries kind.lane ∧
      (kind = .dedicated → u.entries .safety = v.entries .safety) ∧
      ∀ t fits, a ≠ .push t fits := by
  cases heff with
  | @pop t lane _ _ =>
      simp only [leavesQueue, Bool.and_eq_true, beq_iff_eq] at hleaves
      obtain ⟨⟨-, rfl⟩, rfl⟩ := hleaves
      simp [Sys.goto, Sys.dequeue, TriggerKind.lane]
  | pushes | refused => cases hleaves
  | call hcall =>
      refine ⟨rfl, fun _ => rfl, ?_⟩
      rintro t fits rfl
      cases hcall
  | _ =>
      refine ⟨rfl, fun _ => rfl, ?_⟩
      intro t fits ha
      cases ha

theorem act_ok (h : TriggerOk s) {a : Action (Option U)}
    (hstep : s.step (.act k a) = some s') : TriggerOk s' := by
  simp only [step, Option.ite_none_right_eq_some, Bool.and_eq_true, Option.map_eq_some_iff] at hstep
  obtain ⟨⟨-, hleaves⟩, sys, hsys, rfl⟩ := hstep
  have heff := effect_of_step hsys
  obtain ⟨hlane, hsafety, hnot⟩ := entries_of_leavesQueue heff hleaves
  refine h.moves heff rfl rfl ?_ (fun _ _ => rfl) hsafety fun hf =>
    ⟨hf, fun t fits ha => absurd ha (hnot t fits)⟩
  rw [hlane, Nat.add_comm]
  rfl

omit [DecidableEq U] in
/-- A new entry of a task that is spawned. -/
theorem TriggerOk.spawns (h : TriggerOk s) (lane : Lane)
    (htask : s'.task = Function.update s.task k ((s.task k).enqueue lane))
    (hkind : s'.kind = s.kind) (hfatal : s'.fatal = s.fatal)
    (hentries : ((s.task k).enqueue lane).entries s.kind.lane = places s' k)
    (hothers : ∀ k', k' ≠ k → places s' k' = places s k')
    (hlane : s.kind = .dedicated → lane = .normal) : TriggerOk s' where
  runner := by
    rw [htask, forall_update_iff s.task fun _ u => RunnerOk u]
    exact ⟨runnerOk_enqueue (h.runner k) lane, fun k' _ => h.runner k'⟩
  hasSafety := by
    rw [htask, forall_update_iff s.task fun _ u => u.hasSafety = true]
    exact ⟨h.hasSafety k, fun k' _ => h.hasSafety k'⟩
  entries := by
    rw [htask, hkind, forall_update_iff s.task fun k' u => u.entries _ = places s' k']
    exact ⟨hentries, fun k' hk => (h.entries k').trans (hothers k' hk).symm⟩
  dedicated := by
    intro hded
    rw [hkind] at hded
    rw [htask, forall_update_iff s.task fun _ u => u.entries .safety = 0, hlane hded]
    exact ⟨h.dedicated hded k, fun k' _ => h.dedicated hded k'⟩
  owed := by
    intro hf
    rw [hfatal] at hf
    rw [htask, forall_update_iff s.task
      fun _ u => Owed TaskStateSnapshot.isNotified (fun _ => True) u]
    exact ⟨owed_enqueue (h.owed hf k) lane, fun k' _ => h.owed hf k'⟩

omit [DecidableEq U] in
theorem spawn_ok (h : TriggerOk s) {fits : Bool} (hstep : s.spawn k fits = some s') :
    TriggerOk s' := by
  unfold spawn at hstep
  split at hstep
  · cases hstep
  · dsimp only at hstep
    split at hstep
    · rename_i hkind
      split at hstep
      · rename_i queue hpush
        have hdata := push_eq_true hpush
        cases hstep
        refine h.spawns .normal rfl rfl rfl ?_ ?_ fun _ => rfl
        · have hbefore := h.entries k
          rw [hkind] at hbefore ⊢
          simp only [TriggerKind.lane, places] at hbefore
          simp [TriggerKind.lane, Sys.enqueue, places, setTask, hdata, hbefore]
          omega
        · intro k' hk
          simp [places, setTask, hdata, hk.symm]
      · cases hstep
        exact h.frame rfl rfl (fun _ => rfl) (by intro hf; cases hf)
    · rename_i hkind
      split at hstep
      · cases hstep
        refine h.spawns .normal rfl rfl rfl ?_ (fun _ _ => rfl) fun _ => rfl
        have hbefore := h.entries k
        rw [hkind] at hbefore ⊢
        have hlane : ((s.task k).enqueue .normal).entries .safety = (s.task k).entries .safety := by
          simp [Sys.enqueue]
        exact hlane.trans hbefore
      · cases hstep
        exact h.frame rfl rfl (fun _ => rfl) (by intro hf; cases hf)

/-- The loop of the worker. -/
theorem work_ok (h : TriggerOk s) (hstep : s.work = some s') : TriggerOk s' := by
  unfold work at hstep
  split at hstep
  · split at hstep
    · split at hstep
      · -- The worker takes a task from the back of its storage.
        rename_i k hlast
        obtain ⟨sys, hsys, rfl⟩ := Option.map_eq_some_iff.mp hstep
        have hstorage : s.localStorage.count k = s.localStorage.dropLast.count k + 1 ∧
            ∀ k', k' ≠ k → s.localStorage.count k' = s.localStorage.dropLast.count k' := by
          have hsplit := List.dropLast_append_getLast? k hlast
          constructor
          · nth_rewrite 1 [← hsplit]
            simp
          · intro k' hk
            nth_rewrite 1 [← hsplit]
            simp [hk.symm]
        obtain ⟨⟨hidle, hentry⟩, rfl⟩ := Option.ite_some_none_eq_some.mp hsys
        refine h.moves (.pop hidle hentry) rfl rfl ?_ ?_ ?_ fun hf => ⟨hf, ?_⟩
        · simp only [Sys.goto, Sys.dequeue, update_self, places, setTask, hstorage.1]
          omega
        · intro k' hk
          simp only [places, setTask, hstorage.2 k' hk]
        · intro hded
          simp [Sys.goto, Sys.dequeue, hded, TriggerKind.lane]
        · rintro _ _ ⟨⟩
      · -- The storage is filled from the queue.
        cases hstep
        refine h.frame rfl rfl (fun k => ?_) id
        have hall := congrArg (List.count k)
          (List.take_append_drop (s.localSize - s.localStorage.length) s.queue.data)
        rw [List.count_append] at hall
        simp only [places, List.count_append]
        omega
    · -- A blocking pop.
      obtain ⟨⟨k, queue⟩, hpop, rfl⟩ := Option.map_eq_some_iff.mp hstep
      refine h.frame rfl rfl (fun k' => ?_) id
      unfold TriggerQueue.pop at hpop
      split at hpop
      · cases hpop
      · rename_i hdata
        cases hpop
        simp only [places, hdata, List.count_append, List.count_cons, List.count_nil]
        omega
  · cases hstep

/-- Every step that meets the condition keeps the invariant. -/
theorem triggerStep_ok (h : TriggerOk s) {a : TriggerAction K U} (hguard : RoomForDropped s a)
    (hstep : s.step a = some s') : TriggerOk s' := by
  cases a with
  | spawn k fits => exact spawn_ok h hstep
  | act k a => exact act_ok h hstep
  | push k t fits => exact push_ok h hguard hstep
  | work => exact work_ok h hstep
  | timeout =>
      obtain ⟨-, rfl⟩ := Option.ite_some_none_eq_some.mp hstep
      exact h.frame rfl rfl (fun _ => rfl) id

omit [DecidableEq U] in
theorem triggerOk_new (kind : TriggerKind) (capacity : Nat) :
    TriggerOk (TriggerWorker.new kind capacity : TriggerWorker K U) where
  runner := fun _ => ⟨⟨_, inPhase_new⟩, fun _ => trivial,
    fun _ hruns => by simp [new, Sys.spawned, Runs, RunsOn] at hruns,
    fun _ _ hruns => by simp [new, Sys.spawned, Runs, RunsOn] at hruns⟩
  hasSafety := fun _ => rfl
  entries := fun _ => rfl
  dedicated := fun _ _ => rfl
  owed := fun _ _ _ _ hbit =>
    absurd (show TaskStateSnapshot.new.isNotified = true from hbit) (by decide)

/-! ### Runs -/

/-- In every run of a dedicated worker or of the safety worker in which the pushes whose result is
dropped find room: a task that is idle, notified and not canceled stands in the trigger queue or
in the local storage of the worker, or an activity is about to push it, or a worker has just
taken it from there to poll it, or a fatal error was reported. A task that is notified for the
async workers may also stand in their queues, unless it belongs to a dedicated worker. -/
theorem notified_task_queued (kind : TriggerKind) (capacity : Nat)
    (hrun : Reaches TriggerWorker.step RoomForDropped (TriggerWorker.new kind capacity) s) (k : K)
    (hidle : (s.task k).state.isIdle = true) (hnotified : (s.task k).state.isNotified = true)
    (hcanceled : (s.task k).state.isCanceled = false) :
    k ∈ s.queue.data ∨ k ∈ s.localStorage ∨ (∃ t lane, PushesTo lane ((s.task k).pc t)) ∨
      (∃ t lane, Takes lane ((s.task k).pc t)) ∨ s.fatal = true ∨
      s.kind = .safety ∧ 0 < (s.task k).entries .normal := by
  have h : TriggerOk s := hrun.invariant (triggerOk_new kind capacity)
    fun _ _ _ h hguard hstep => triggerStep_ok h hguard hstep
  cases hfatal : s.fatal with
  | true => simp
  | false =>
      obtain ⟨lane, -, hentry | ⟨t, hpushes | htakes⟩⟩ := h.owed hfatal k hidle hcanceled hnotified
      · by_cases hlane : lane = s.kind.lane
        · rw [hlane, h.entries k, places] at hentry
          rcases Nat.add_pos_iff_pos_or_pos.mp hentry with hqueue | hstorage
          · exact Or.inl (List.count_pos_iff.mp hqueue)
          · exact Or.inr (Or.inl (List.count_pos_iff.mp hstorage))
        · have hkind : s.kind = .safety ∧ lane = .normal := by
            cases hk : s.kind <;> cases lane <;> simp_all [TriggerKind.lane]
            exact absurd (h.dedicated hk k) (by omega)
          obtain ⟨hkind, rfl⟩ := hkind
          exact Or.inr (Or.inr (Or.inr (Or.inr (Or.inr ⟨hkind, hentry⟩))))
      · exact Or.inr (Or.inr (Or.inl ⟨t, lane, hpushes⟩))
      · exact Or.inr (Or.inr (Or.inr (Or.inl ⟨t, lane, htakes⟩)))

instance (s : TriggerWorker K U) : (a : TriggerAction K U) → Decidable (RoomForDropped s a)
  | .push _ _ _ => inferInstanceAs (Decidable (_ → _))
  | .spawn _ _ | .act _ _ | .work | .timeout => .isTrue trivial

/-- The worker fetches a task from the queue and polls it, and the future returns `Pending`. -/
def pollOnce (k : K) : List (TriggerAction K U) :=
  [.work, .work, .act k (.advance none), .act k (.advance none), .act k (.advance none),
    .act k (.poll none false), .act k (.advance none), .act k (.advance none)]

/-- A wake of an idle task up to its push. -/
def wakeOnce (k : K) (u : U) : List (TriggerAction K U) :=
  [.act k (.wake (some u)), .act k (.advance (some u)), .act k (.advance (some u)),
    .push k (some u) true]

/-- A task that is woken after its first poll stands in the queue again. -/
theorem notified_task_queued_once :
    ∃ s : TriggerWorker (Fin 1) (Fin 1),
      Reaches TriggerWorker.step RoomForDropped (TriggerWorker.new .dedicated 2) s ∧
      (s.task 0).state.isNotified = true ∧ 0 ∈ s.queue.data := by
  obtain ⟨s, hrun, hidle, hnotified, hcanceled, hstorage, hpcs, hfatal, hkind⟩ :
      ∃ s : TriggerWorker (Fin 1) (Fin 1),
        Reaches TriggerWorker.step RoomForDropped (TriggerWorker.new .dedicated 2) s ∧
        (s.task 0).state.isIdle = true ∧ (s.task 0).state.isNotified = true ∧
        (s.task 0).state.isCanceled = false ∧ s.localStorage = [] ∧
        (∀ t, (s.task 0).pc t = .idle) ∧ s.fatal = false ∧ s.kind = .dedicated :=
    exists_reaches ([TriggerAction.spawn 0 true] ++ pollOnce 0 ++ wakeOnce 0 0) (by decide +kernel)
  refine ⟨s, hrun, hnotified, ?_⟩
  have hqueued := notified_task_queued .dedicated 2 hrun 0 hidle hnotified hcanceled
  simpa [hstorage, hpcs, hfatal, hkind, PushesTo, Takes] using hqueued

/-- Three tasks of a dedicated worker with a queue of two places have been polled once. Then all
of them are woken before the worker comes to take one. The third push is refused and the result
is dropped: the third task is idle and notified, it has no entry anywhere, every call has
returned, and no error was reported. -/
theorem notified_task_dropped :
    ∃ s : TriggerWorker (Fin 3) (Fin 1),
      Reaches TriggerWorker.step anyStep (TriggerWorker.new .dedicated 2) s ∧
      (s.task 2).state.isIdle = true ∧ (s.task 2).state.isNotified = true ∧
      (s.task 2).state.isCanceled = false ∧ 2 ∉ s.queue.data ∧ 2 ∉ s.localStorage ∧
      (∀ k t, (s.task k).pc t = .idle) ∧ s.fatal = false :=
  exists_reaches ([TriggerAction.spawn 0 true] ++ pollOnce 0
    ++ [TriggerAction.spawn 1 true] ++ pollOnce 1 ++ [TriggerAction.spawn 2 true] ++ pollOnce 2
    ++ wakeOnce 0 0 ++ wakeOnce 1 0 ++ wakeOnce 2 0) (by decide +kernel)

end Kyron.Proofs.Scheduler
