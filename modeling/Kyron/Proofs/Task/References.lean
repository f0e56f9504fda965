import Kyron.Proofs.Task.AsyncTask
import Kyron.Proofs.Task.ReferenceCount

/-!
# `Kyron.Proofs.Task.References`: a task lives as long as somebody refers to it

* `sys_reaches`: a run of the references is a run of the task, so all that is known of the task
  holds under the reference counts.
* `released_iff_unreferenced`: in every state of every run the strong count is the number of
  references that exist. The task is released when the last of them goes, once, and not before:
  every call in progress works on a task that is still there. A waker exists only after the first
  poll has begun, so whoever holds one can use it.
-/

set_option autoImplicit false

namespace Kyron.Proofs.Task

open Kyron.Lib
open Kyron.Task
open Function

variable {T S : Type} [DecidableEq T]

/-! ### Wakers exist only after a poll -/

/-- The places that an activity reaches only after a poll has begun. -/
def AfterPoll : Pc → Prop
  | .polling _ | .inFuture _ | .update (.toIdle _) _ | .update (.toCompleted _) _ => True
  | .update _ (some v) => v.isCompleted = true
  | _ => False

/-- Before the first poll the task is not completed, and nobody is at a place behind it. -/
def PollsOk (s : Sys T) : Prop :=
  s.polls = 0 → s.state.isCompleted = false ∧ ∀ t, ¬ AfterPoll (s.pc t)

theorem not_afterPoll_load {op : Op} {val : Option TaskStateSnapshot} {v : TaskStateSnapshot}
    (h : ¬ AfterPoll (.update op val)) (hv : v.isCompleted = false) :
    ¬ AfterPoll (.update op (some v)) := by
  cases op <;> simp_all [AfterPoll]

variable {s : Sys T}

/-- An activity moves, and the rest stays. -/
theorem PollsOk.goto (h : PollsOk s) {t : T} {pc : Pc} (hpc : s.polls = 0 → ¬ AfterPoll pc) :
    PollsOk (s.goto t pc) := by
  intro hpolls
  refine ⟨(h hpolls).1, fun t' hafter => ?_⟩
  rcases goto_pc_cases hafter with ⟨-, hself⟩ | hother
  · exact hpc hpolls hself
  · exact (h hpolls).2 t' hother

/-- What a closure stores before the first poll: the poll begins, or the word is not completed. -/
theorem stores_before_poll {v new : TaskStateSnapshot} {op : Op} {next : Pc}
    (hst : Stores v op new next) (hpc : ¬ AfterPoll (.update op (some v)))
    (hv : v.isCompleted = false) :
    op.startsPoll = true ∨ new.isCompleted = false ∧ ¬ AfterPoll next := by
  cases hst with
  | schedule | scheduleSafety | abort =>
      refine Or.inr ⟨?_, ?_⟩
      · simpa [isCompleted_eq, flag_setNotified, flag_setSafetyNotified, flag_setCanceled] using hv
      · split <;> exact id
  | setWaker =>
      exact Or.inr ⟨by simpa [isCompleted_eq, flag_setJoinHandle] using hv, id⟩
  | toRunning worker => exact Or.inl rfl
  | toIdle | toCompleted => exact absurd trivial hpc

theorem PollsOk.step {s' : Sys T} {a : Action T} (h : PollsOk s) (heff : Effect s a s') :
    PollsOk s' := by
  cases heff with
  | @call a t op hcall hidle =>
      refine h.goto fun _ hafter => ?_
      cases a <;> cases hcall <;> exact hafter
  | @pop t lane hidle hentry =>
      have hbase : PollsOk (s.dequeue lane) := h
      exact hbase.goto fun _ => id
  | @load t op val hpc =>
      refine h.goto fun hpolls => ?_
      have hold := (h hpolls).2 t
      rw [hpc] at hold
      exact not_afterPoll_load hold (h hpolls).1
  | asserts => exact h.goto fun _ => id
  | @leaves t op v next hpc hcl hleaves =>
      refine h.goto fun hpolls => ?_
      have hold := (h hpolls).2 t
      rw [hpc] at hold
      cases hleaves with
      | runsCompleted worker hcompleted => exact absurd hcompleted hold
      | schedule | scheduleSafety | abort | setWaker | alreadyRunning | runsAborted | idleAborted
      | completedAborted => exact id
  | @stores t op new next hpc hstores =>
      intro hpolls
      -- A poll that begins makes the count positive, so this is not the first one.
      have hzero : s.polls = 0 ∧ op.startsPoll = false := by
        change (if op.startsPoll = true then s.polls + 1 else s.polls) = 0 at hpolls
        cases hop : op.startsPoll <;> simp_all
      have hold := (h hzero.1).2 t
      rw [hpc] at hold
      rcases stores_before_poll hstores hold (h hzero.1).1 with hstarts | ⟨hnew, hnext⟩
      · rw [hzero.2] at hstarts
        cases hstarts
      · refine ⟨hnew, fun t' hafter => ?_⟩
        rcases goto_pc_cases hafter with ⟨-, hself⟩ | hother
        · exact hnext hself
        · exact (h hzero.1).2 t' hother
  | @looks t lane hpc | @pending t lane hpc | @ready t lane hpc =>
      intro hpolls
      have hold := (h hpolls).2 t
      rw [hpc] at hold
      exact absurd trivial hold
  | finds => exact h.goto fun _ => id
  | clears =>
      have hbase : PollsOk { s with stage := .extracted } := h
      exact hbase.goto fun _ => id
  | @pushes t lane hpc =>
      have hbase : PollsOk (s.enqueue lane) := h
      exact hbase.goto fun _ => id
  | refused _ _ hnext =>
      refine h.goto fun _ => ?_
      rcases hnext with rfl | rfl <;> exact id
  | takes => exact h
  | noResult => exact h

theorem pollsOk_of_run {lane : Lane} {hasSafety : Bool}
    (hrun : Reaches Sys.step anyStep (Sys.spawned lane hasSafety) s) : PollsOk s :=
  hrun.invariant (I := PollsOk) (fun _ => ⟨inPhase_new.completed, fun _ => id⟩)
    fun _ _ _ h _ hstep => h.step (effect_of_step hstep)

/-! ### Who is in a call may touch the task -/

section Places

variable {T S : Type}

/-- Whoever is in a call has a reference or borrows one, and wakers exist only after the first
poll has begun. -/
structure Placed (s : References T S) : Prop where
  busy : ∀ t, s.sys.pc t ≠ .idle → s.holds t ≠ .nothing ∨ s.handle = .borrowed t
  wakers : ∀ table, 0 < s.wakers table → 0 < s.sys.polls
  stores : ∀ x, s.stores x = true → 0 < s.sys.polls

theorem placed_spawned (lane : Lane) (hasSafety : Bool) :
    Placed (References.spawned lane hasSafety : References T S) where
  busy := fun _ h => absurd rfl h
  wakers := fun _ h => absurd h (Nat.lt_irrefl 0)
  stores := fun _ h => by cases h

variable {s s' : References T S}

/-- Only the wakers change. -/
theorem Placed.setWakers (h : Placed s) (count : RefCount) (wakers : Lane → Nat) (stores : S → Bool)
    (hpolls : 0 < s.sys.polls) : Placed { s with count, wakers, stores } where
  busy := h.busy
  wakers := fun _ _ => hpolls
  stores := fun _ _ => hpolls

theorem Placed.setCount (h : Placed s) (count : RefCount) : Placed { s with count } :=
  ⟨h.busy, h.wakers, h.stores⟩

variable [DecidableEq T]

/-- An activity that is idle or gets a reference changes what it holds. -/
theorem Placed.setHolds (h : Placed s) (t : T) (held : Holding)
    (hheld : held ≠ .nothing ∨ s.sys.pc t = .idle) : Placed (s.setHolds t held) where
  busy := by
    intro t' hpc
    by_cases ht : t' = t
    · subst ht
      refine Or.inl ?_
      change Function.update s.holds t' held t' ≠ .nothing
      rw [update_self]
      exact hheld.resolve_right hpc
    · change Function.update s.holds t held t' ≠ .nothing ∨ _
      rw [update_of_ne ht]
      exact h.busy t' hpc
  wakers := h.wakers
  stores := h.stores

/-- A step of the task by somebody who may touch it. -/
theorem Placed.act {a : Action T} (h : Placed s) (hstep : s.act a = some s')
    (hactor : ∀ t, actor a = some t → s.holds t ≠ .nothing ∨ s.handle = .borrowed t) :
    Placed s' := by
  obtain ⟨sys, hsys, rfl⟩ := Option.map_eq_some_iff.mp hstep
  have hpolls := polls_le_step hsys
  refine ⟨fun t hpc => ?_,
    fun table hpos => Nat.lt_of_lt_of_le (h.wakers table hpos) hpolls,
    fun x hx => Nat.lt_of_lt_of_le (h.stores x hx) hpolls⟩
  by_cases ht : actor a = some t
  · exact hactor t ht
  · change sys.pc t ≠ .idle at hpc
    rw [(step_effect hsys).2 t ht] at hpc
    exact h.busy t hpc

theorem Placed.schedule {t : T} {table : Lane} (h : Placed s)
    (hstep : s.schedule t table = some s') :
    Placed s' := by
  simp only [References.schedule, Option.ite_none_right_eq_some] at hstep
  refine (h.setHolds t .waking (Or.inl (by decide))).act hstep.2 fun t' ht' => ?_
  have ht : t' = t := by cases table <;> cases ht' <;> rfl
  subst ht
  refine Or.inl ?_
  change Function.update s.holds t' .waking t' ≠ .nothing
  rw [update_self]
  decide

theorem Placed.borrow {t : T} {a : Action T} (h : Placed s) (hstep : s.borrow t a = some s')
    (ha : actor a = some t) : Placed s' := by
  obtain ⟨⟨howned, -⟩, hact⟩ := Option.ite_none_right_eq_some.mp hstep
  have hborrowed : Placed { s with handle := .borrowed t } := by
    refine ⟨fun t' hpc => ?_, h.wakers, h.stores⟩
    refine Or.inl ((h.busy t' hpc).resolve_right ?_)
    rw [howned]
    exact fun h => by cases h
  refine hborrowed.act hact fun t' ht' => ?_
  rw [ha] at ht'
  cases ht'
  exact Or.inr rfl

theorem Placed.afterPush {t : T} {fits : Bool} {sys : Sys T} (h : Placed s)
    (hcall : s.inCall t = true) (hstep : s.sys.step (.push t fits) = some sys) :
    Placed (s.afterPush t sys) := by
  have hholds : s.holds t ≠ .nothing := by
    intro hnothing
    simp [References.inCall, hnothing] at hcall
  have hact : Placed { s with sys } := by
    refine h.act (a := .push t fits) (by simp [References.act, hstep]) fun t' ht' => ?_
    cases ht'
    exact Or.inl hholds
  unfold References.afterPush
  by_cases hover : sys.pc t = .overflow
  · simp only [hover, if_true]
    exact hact
  · have hidle : sys.pc t = .idle := by
      rcases push_cases hstep with ⟨hidle, -⟩ | ⟨hidle | hpc, -⟩
      · exact hidle
      · exact hidle
      · exact absurd hpc hover
    have hset := hact.setHolds t (s.holds t).passOn (Or.inr hidle)
    simp only [hover, if_false]
    split
    · exact hset.setCount _
    · exact hset

theorem Placed.swap [DecidableEq S] {x : S} {given : Option Lane} (h : Placed s)
    (hstep : s.step (.swap x given) = some s') : Placed s' := by
  cases given with
  | some table =>
      obtain ⟨hpos, rfl⟩ := Option.ite_some_none_eq_some.mp hstep
      have hpolls := h.wakers table hpos
      simp only [References.swap]
      split <;> exact h.setWakers _ _ _ hpolls
  | none =>
      cases hstep
      cases hx : s.stores x with
      | true =>
          simp only [References.swap, hx, if_true]
          exact h.setWakers _ _ _ (h.stores x hx)
      | false =>
          simp only [References.swap, hx, Bool.false_eq_true, if_false]
          refine ⟨h.busy, h.wakers, fun x' hx' => ?_⟩
          change Function.update s.stores x false x' = true at hx'
          by_cases heq : x' = x
          · subst heq
            rw [update_self] at hx'
            cases hx'
          · rw [update_of_ne heq] at hx'
            exact h.stores x' hx'

/-- Every step keeps `Placed`. -/
theorem Placed.step [DecidableEq S] {a : RefAction T S} (h : Placed s) (hpolls : PollsOk s.sys)
    (hstep : s.step a = some s') : Placed s' := by
  cases a with
  | spawnReturns =>
      obtain ⟨-, rfl⟩ := Option.ite_some_none_eq_some.mp hstep
      exact ⟨h.busy, h.wakers, h.stores⟩
  | cloneWaker table =>
      obtain ⟨hpos, rfl⟩ := Option.ite_some_none_eq_some.mp hstep
      exact h.setWakers _ _ s.stores (h.wakers table hpos)
  | cloneContext t =>
      obtain ⟨hfuture, rfl⟩ := Option.ite_some_none_eq_some.mp hstep
      obtain ⟨-, lane, hpc⟩ := holds_of_inFuture hfuture
      -- The future is polled, so a poll has begun.
      refine h.setWakers _ _ s.stores (Nat.pos_of_ne_zero fun hzero => ?_)
      have hnot := (hpolls hzero).2 t
      rw [hpc] at hnot
      exact hnot trivial
  | dropWaker table =>
      obtain ⟨hpos, rfl⟩ := Option.ite_some_none_eq_some.mp hstep
      exact h.setWakers _ _ s.stores (h.wakers table hpos)
  | createSafetyWaker table =>
      obtain ⟨hpos, rfl⟩ := Option.ite_some_none_eq_some.mp hstep
      exact h.setWakers s.count _ s.stores (h.wakers table hpos)
  | swap x given => exact h.swap hstep
  | wake t table =>
      simp only [References.step, Option.ite_none_right_eq_some] at hstep
      exact (h.setWakers s.count _ s.stores (h.wakers table hstep.1)).schedule hstep.2
  | wakeByRef t table =>
      simp only [References.step, Option.ite_none_right_eq_some] at hstep
      exact (h.setCount s.count.increment).schedule hstep.2
  | wakeContext t poller =>
      simp only [References.step, Option.ite_none_right_eq_some] at hstep
      exact (h.setCount s.count.increment).schedule hstep.2
  | abort t => exact h.borrow hstep rfl
  | attach t => exact h.borrow hstep rfl
  | takeResult =>
      simp only [References.step, Option.ite_none_right_eq_some] at hstep
      exact h.act hstep.2 fun _ ht => by cases ht
  | handleReturns t =>
      -- the borrower is idle again, so nobody relies on the borrow
      obtain ⟨⟨hborrowed, hidle⟩, rfl⟩ := Option.ite_some_none_eq_some.mp hstep
      refine ⟨fun t' hpc => Or.inl ((h.busy t' hpc).resolve_right ?_), h.wakers, h.stores⟩
      rw [hborrowed]
      rintro ⟨⟩
      exact hpc hidle
  | dropHandle =>
      obtain ⟨howned, rfl⟩ := Option.ite_some_none_eq_some.mp hstep
      refine ⟨fun t hpc => Or.inl ((h.busy t hpc).resolve_right ?_), h.wakers, h.stores⟩
      rw [howned]
      exact fun h => by cases h
  | pop t lane =>
      simp only [References.step, Option.ite_none_right_eq_some] at hstep
      refine (h.setHolds t .popped (Or.inl (by decide))).act hstep.2 fun t' ht' => ?_
      cases ht'
      refine Or.inl ?_
      change Function.update s.holds t .popped t ≠ .nothing
      rw [update_self]
      decide
  | createWaker t =>
      obtain ⟨-, rfl⟩ := Option.ite_some_none_eq_some.mp hstep
      exact (h.setCount s.count.increment).setHolds t .withWaker (Or.inl (by decide))
  | setRunningTask t =>
      obtain ⟨-, rfl⟩ := Option.ite_some_none_eq_some.mp hstep
      exact (h.setCount s.count.increment).setHolds t .polling (Or.inl (by decide))
  | advance t =>
      simp only [References.step, Option.ite_none_right_eq_some] at hstep
      refine h.act hstep.2 fun t' ht' => ?_
      cases ht'
      refine hstep.1.imp_left fun hcall hnothing => ?_
      simp [References.inCall, hnothing] at hcall
  | poll t ready =>
      simp only [References.step, Option.ite_none_right_eq_some] at hstep
      refine h.act hstep.2 fun t' ht' => ?_
      cases ht'
      exact Or.inl (by simp [hstep.1])
  | push t fits =>
      obtain ⟨hcall, hpush⟩ := Option.ite_none_right_eq_some.mp hstep
      obtain ⟨sys, hsys, rfl⟩ := Option.map_eq_some_iff.mp hpush
      exact h.afterPush hcall hsys
  | dropRef t =>
      obtain ⟨hidle, hdrop⟩ := Option.ite_none_right_eq_some.mp hstep
      obtain ⟨held, -, rfl⟩ := Option.map_eq_some_iff.mp hdrop
      exact (h.setHolds t held (Or.inr hidle)).setCount _

end Places

/-! ### Whole runs -/

section Runs

variable {T S : Type} [DecidableEq T] [DecidableEq S]

variable {s s' : References T S}

omit [DecidableEq S] in
theorem act_sys {u : References T S} {a : Action T} (hstep : u.act a = some s')
    (hsame : u.sys = s.sys) : ∃ b, s.sys.step b = some s'.sys := by
  obtain ⟨sys, hsys, rfl⟩ := Option.map_eq_some_iff.mp hstep
  rw [hsame] at hsys
  exact ⟨a, hsys⟩

/-- A step either leaves the task alone or is a step of the task. -/
theorem sys_step {a : RefAction T S} (hstep : s.step a = some s') :
    s'.sys = s.sys ∨ ∃ b, s.sys.step b = some s'.sys := by
  cases a with
  | spawnReturns | cloneWaker _ | cloneContext _ | dropWaker _ | createSafetyWaker _
  | handleReturns _ | dropHandle | createWaker _ | setRunningTask _ =>
      obtain ⟨-, rfl⟩ := Option.ite_some_none_eq_some.mp hstep
      exact Or.inl rfl
  | swap x given =>
      have hswap : s' = s.swap x given := by
        cases given with
        | none =>
            cases hstep
            rfl
        | some table =>
            simp only [References.step, Option.ite_some_none_eq_some] at hstep
            exact hstep.2.symm
      subst hswap
      refine Or.inl ?_
      cases given <;> simp only [References.swap] <;> split <;> rfl
  | wake _ _ | wakeByRef _ _ | wakeContext _ _ =>
      simp only [References.step, References.schedule, Option.ite_none_right_eq_some] at hstep
      exact Or.inr (act_sys hstep.2.2 rfl)
  | abort _ | attach _ =>
      simp only [References.step, References.borrow, Option.ite_none_right_eq_some] at hstep
      exact Or.inr (act_sys hstep.2 rfl)
  | takeResult | pop _ _ | advance _ | poll _ _ =>
      simp only [References.step, Option.ite_none_right_eq_some] at hstep
      exact Or.inr (act_sys hstep.2 rfl)
  | push t fits =>
      simp only [References.step, Option.ite_none_right_eq_some] at hstep
      obtain ⟨sys, hsys, rfl⟩ := Option.map_eq_some_iff.mp hstep.2
      refine Or.inr ⟨.push t fits, ?_⟩
      rw [hsys]
      simp only [References.afterPush]
      split
      · rfl
      · split <;> rfl
  | dropRef t =>
      simp only [References.step, Option.ite_none_right_eq_some] at hstep
      obtain ⟨held, -, rfl⟩ := Option.map_eq_some_iff.mp hstep.2
      exact Or.inl rfl

/-- A run of the references is a run of the task. -/
theorem sys_reaches {lane : Lane} {hasSafety : Bool} {a : RefAction T S}
    (hrun : Reaches Sys.step anyStep (Sys.spawned lane hasSafety) s.sys)
    (hstep : s.step a = some s') :
    Reaches Sys.step anyStep (Sys.spawned lane hasSafety) s'.sys := by
  rcases sys_step hstep with hsame | ⟨b, hb⟩
  · rw [hsame]
    exact hrun
  · exact hrun.tail b trivial hb

/-- What is known of the task holds under the reference counts. -/
theorem placed_of_run {lane : Lane} {hasSafety : Bool}
    (hrun : Reaches References.step anyStep (References.spawned lane hasSafety) s) : Placed s := by
  refine (hrun.invariant
    (I := fun s => Reaches Sys.step anyStep (Sys.spawned lane hasSafety) s.sys ∧ Placed s)
    ⟨.refl, placed_spawned lane hasSafety⟩ ?_).2
  rintro s a s' ⟨hsys, hplaced⟩ - hstep
  exact ⟨sys_reaches hsys hstep, hplaced.step (pollsOk_of_run hsys) hstep⟩

variable [Fintype T] [Fintype S]

/-- In every state of every run the strong count is the number of references in the queues, the
wakers, the waker stores, the join handle and the calls in progress. The task is released once
when there is none left, and not before. In particular it is there for every call in progress.
Whoever holds a waker and is not in a call can wake the task with it. -/
theorem released_iff_unreferenced (lane : Lane) (hasSafety : Bool) {s : References T S}
    (hrun : Reaches References.step anyStep (References.spawned lane hasSafety) s) :
    s.count.strong = s.total ∧ s.count.released = (if s.total = 0 then 1 else 0) ∧
      (∀ t, s.sys.pc t ≠ .idle → s.count.released = 0) ∧
      ∀ t table, 0 < s.wakers table → s.isFree t = true →
        (s.step (.wake t table)).isSome = true := by
  have hcounted : Counted s := hrun.invariant (I := Counted) (counted_spawned lane hasSafety)
    fun _ _ _ h _ hstep => counted_step h hstep
  have hplaced := placed_of_run hrun
  refine ⟨hcounted.1, hcounted.2, fun t hpc => ?_, fun t table hwakers hfree => ?_⟩
  · refine RefCount.Counts.released_eq_zero hcounted ?_
    rcases hplaced.busy t hpc with hholds | hhandle
    · exact total_pos_of_holds hholds
    · exact total_pos_of_handle (by rw [hhandle]; exact fun h => by cases h)
  · obtain ⟨hnothing, hborrowed⟩ := free_of_isFree hfree
    have hidle : s.sys.pc t = .idle := by
      by_contra hpc
      rcases hplaced.busy t hpc with hholds | hhandle
      · exact hholds hnothing
      · exact hborrowed hhandle
    have hpolls := hplaced.wakers table hwakers
    have hfree' : (s.removeWaker table).isFree t = true := hfree
    simp only [References.step, hwakers, if_true, References.schedule, hfree', References.act,
      Option.isSome_map]
    cases table with
    | normal => simp [wakeAction, Sys.step, References.setHolds, References.removeWaker, hidle,
        hpolls]
    | safety => simp [wakeAction, Sys.step, References.setHolds, References.removeWaker, hidle,
        hpolls]

/-- A worker polls a task to its end after `spawn` has returned and the handle was dropped. The
drop of the popped reference is the last one, and releases the task. -/
theorem released_after_last_drop :
    ∃ s : References (Fin 1) (Fin 1),
      Reaches References.step anyStep (References.spawned .normal false) s ∧
        s.count.released = 1 ∧ s.total = 0 := by
  obtain ⟨s, hrun, hreleased⟩ : ∃ s : References (Fin 1) (Fin 1),
      Reaches References.step anyStep (References.spawned .normal false) s ∧
        s.count.released = 1 :=
    exists_reaches [RefAction.spawnReturns, .dropHandle, .pop 0 .normal, .createWaker 0,
      .setRunningTask 0, .advance 0, .advance 0, .advance 0, .poll 0 true, .advance 0,
      .advance 0, .dropRef 0, .dropRef 0, .dropRef 0] (by decide +kernel)
  have hiff := (released_iff_unreferenced .normal false hrun).2.1
  refine ⟨s, hrun, hreleased, ?_⟩
  by_contra htotal
  rw [if_neg htotal, hreleased] at hiff
  cases hiff

end Runs

end Kyron.Proofs.Task
